import FieldAutomation.Proofs.Comparing.Levels
import FieldAutomation.Proofs.Comparing.Programs

/-!
# The records of a comparison

A comparer keeps three records of what it found: the tally, the text and the reports.  They are
written in different places, under a cap and a filter, and in the midst of comparisons within
comparisons.  Whatever a comparer is made to do comes down to few things that touch a record at
all.  These are its history, and what a history adds to one record it adds to the others.

* `CompareEntry`: what is done to the records; `Comparer.Acts`: one such thing;
* `Comparer.History`: what is done one after another, with anything else in between;
* `Comparer.tallied`, `Comparer.totalled`: the miscompares of a history, and its totals;
* `Comparer.singles`, `Comparer.totals`: the reports of single miscompares, and of their number;
* `Comparer.InStep`: the records before and after a history, as long as none starts anew.

Main statements: `Comparer.history_comparePrograms` (all programs have a history),
`Comparer.History.inStep` (one step at a time) and `Comparer.records_in_step`.
-/

namespace FieldAutomation

open ObjectGraph (instanceId)

/-- What is done to the records of a comparison. -/
inductive CompareEntry where
  /-- They start anew. -/
  | start
  /-- A miscompare is kept. -/
  | tally (miscompare : Miscompare)
  /-- The number of miscompares is reported. -/
  | total (message : String)
  deriving DecidableEq, Repr

namespace Comparer

/-- The reports of miscompares, oldest first. -/
def told (c : Comparer) : List Report := c.reporter.withId "MISCMP"

/-! ### Histories -/

/-- What is done to the records, before and after. -/
inductive Acts : Comparer → CompareEntry → Comparer → Prop
  | start (c : Comparer) : Acts c .start c.start
  | tally (c : Comparer) (message : String) :
    Acts c (.tally ⟨c.scope.path, message⟩) (c.tally message)
  | total {c : Comparer} (l : ObjectRef) (left : DataObject)
    (right : Option (ObjectRef × DataObject)) (h : c.result ≠ 0) :
    Acts c (.total (rollup c l left right)) (c.report (rollup c l left right))

/-- Something is done that touches no record. -/
structure Aside (c d : Comparer) : Prop where
  settings : d.settings = c.settings
  result : d.result = c.result
  text : d.text = c.text
  kept : d.kept = c.kept
  threshold : d.reporter.maxVerbosity = c.reporter.maxVerbosity
  told : d.told = c.told

/-- What is done to the records from `c` to `d`, oldest first. -/
inductive History : Comparer → List CompareEntry → Comparer → Prop
  | refl (c : Comparer) : History c [] c
  | aside {c d e : Comparer} {log : List CompareEntry} (h : History c log d) (hd : Aside d e) :
    History c log e
  | act {c d e : Comparer} {log : List CompareEntry} {entry : CompareEntry}
    (h : History c log d) (hd : Acts d entry e) : History c (log ++ [entry]) e

variable {b c d e : Comparer} {left : DataObject} {log since : List CompareEntry}
  {within : ObjectRef → Option ObjectRef → Comparer → Option Outcome}

theorem Acts.history {entry : CompareEntry} (h : Acts c entry d) : History c [entry] d :=
  .act (.refl c) h

theorem Aside.history (h : Aside c d) : History c [] d := .aside (.refl c) h

namespace History

theorem trans (h : History c log d) (h' : History d since e) : History c (log ++ since) e := by
  induction h' with
  | refl => rwa [List.append_nil]
  | aside _ hd ih => exact ih.aside hd
  | act _ hd ih => rw [← List.append_assoc]; exact ih.act hd

/-- A history that is cut in two passes a comparer at the cut. -/
theorem split {before : List CompareEntry} (h : History c log e) (hlog : log = before ++ since) :
    ∃ d, History c before d ∧ History d since e := by
  induction h generalizing since with
  | refl =>
    obtain ⟨rfl, rfl⟩ := List.append_eq_nil_iff.1 hlog.symm
    exact ⟨_, .refl _, .refl _⟩
  | aside _ hd ih =>
    obtain ⟨b, hb, hrest⟩ := ih hlog
    exact ⟨b, hb, hrest.aside hd⟩
  | @act d e log entry h hd ih =>
    cases since using List.reverseRecOn with
    | nil =>
      rw [List.append_nil] at hlog
      exact ⟨_, hlog ▸ h.act hd, .refl _⟩
    | append_singleton since last _ =>
      rw [← List.append_assoc] at hlog
      obtain ⟨hbefore, hlast⟩ := List.append_inj' hlog rfl
      cases hlast
      obtain ⟨b, hb, hrest⟩ := ih hbefore
      exact ⟨b, hb, hrest.act hd⟩

/-- Tally and text are empty right after a start. -/
theorem result_of_start (h : History c log d) (hlast : log.getLast? = some .start) :
    d.result = 0 ∧ d.text = "" := by
  induction h with
  | refl => cases hlast
  | aside _ hd ih => exact ⟨hd.result.trans (ih hlast).1, hd.text.trans (ih hlast).2⟩
  | act _ hd _ =>
    rw [List.getLast?_concat] at hlast
    cases hlast
    cases hd
    exact ⟨rfl, rfl⟩

end History

/-! ### All that is done has a history -/

/-- There is a history. -/
def Reaches (c d : Comparer) : Prop := ∃ log, History c log d

theorem Reaches.refl (c : Comparer) : Reaches c c := ⟨[], .refl c⟩

theorem Reaches.trans (h : Reaches c d) (h' : Reaches d e) : Reaches c e := by
  obtain ⟨log, h⟩ := h
  obtain ⟨since, h'⟩ := h'
  exact ⟨_, h.trans h'⟩

theorem Aside.reaches (h : Aside c d) : Reaches c d := ⟨_, h.history⟩

theorem Acts.reaches {entry : CompareEntry} (h : Acts c entry d) : Reaches c d := ⟨_, h.history⟩

theorem aside_report {report : Report} (h : report.id ≠ "MISCMP") (c : Comparer) :
    Aside c { c with reporter := c.reporter.report report } := by
  refine ⟨rfl, rfl, rfl, rfl, Reporter.maxVerbosity_report _, ?_⟩
  simp only [told, Reporter.withId, Reporter.report]
  split
  · simp [h]
  · rfl

theorem reaches_tallyField (c : Comparer) (name message : String) :
    Reaches c (c.tallyField name message) := by
  have hbefore : Aside c { c with scope := c.scope.setPending name } :=
    ⟨rfl, rfl, rfl, rfl, rfl, rfl⟩
  exact (hbefore.reaches.trans (Acts.tally _ message).reaches).trans
    (Aside.reaches ⟨rfl, rfl, rfl, rfl, rfl, rfl⟩)

theorem reaches_tallyChild (c : Comparer) (name : String) (left right : Option ObjectRef) :
    Reaches c (c.tallyChild name left right) :=
  reaches_tallyField c name (sides (handleText left) (handleText right))

theorem obeys_after {out : Option Outcome} (hd : Reaches c d) (h : Obeys Reaches d out) :
    Obeys Reaches c out :=
  fun same e he => hd.trans (h same e he)

theorem obeys_bind {out : Option Outcome} {k : Outcome → Option Outcome}
    (h : Obeys Reaches c out) (hk : ∀ same d, Obeys Reaches d (k (same, d))) :
    Obeys Reaches c (out.bind k) := by
  intro same e he
  obtain ⟨⟨same', d⟩, hout, hrest⟩ := Option.bind_eq_some_iff.1 he
  exact (h same' d hout).trans (hk same' d same e hrest)

theorem recorded_compareWide (c : Comparer) (name : String) (left right size : Nat)
    (radix : Radix) : Obeys Reaches c (some (c.compareWide name left right size radix)) := by
  unfold compareWide
  dsimp only
  split
  · exact obeys_some (.refl c)
  · exact obeys_some (reaches_tallyField ..)

theorem recorded_compareReal (c : Comparer) (name : String) (left right : Binary64) :
    Obeys Reaches c (some (c.compareReal name left right)) := by
  unfold compareReal
  split
  · exact obeys_some (.refl c)
  · exact obeys_some (reaches_tallyField ..)

theorem recorded_compareString (c : Comparer) (name left right : String) :
    Obeys Reaches c (some (c.compareString name left right)) := by
  unfold compareString
  split
  · exact obeys_some (.refl c)
  · exact obeys_some (reaches_tallyField ..)

theorem recorded_compareChild (hwithin : ∀ l target c, Obeys Reaches c (within l target c))
    (name : String) (left right : Option ObjectRef) (c : Comparer) :
    Obeys Reaches c (compareChild within name left right c) := by
  have hstart : Reaches c (if c.scope.depth = 0 then c.start else c) := by
    split
    · exact (Acts.start c).reaches
    · exact .refl c
  unfold compareChild
  generalize (if c.scope.depth = 0 then c.start else c) = d at hstart
  refine obeys_after hstart ?_
  have htally : Obeys Reaches d (some (false, d.tallyChild name left right)) :=
    obeys_some (reaches_tallyChild ..)
  split
  next => exact obeys_some (.refl d)
  next l r =>
    split
    next => exact obeys_some (.refl d)
    next =>
      dsimp only
      split
      next => exact htally
      next =>
        have hdown : Aside d { d with scope := d.scope.down name } := ⟨rfl, rfl, rfl, rfl, rfl, rfl⟩
        refine obeys_bind (obeys_after hdown.reaches (hwithin l (some r) _)) fun same e => ?_
        exact obeys_some (Aside.reaches ⟨rfl, rfl, rfl, rfl, rfl, rfl⟩)
  next => exact htally

/-- **Every operation** has a history if it ends. -/
theorem recorded_perform (hwithin : ∀ l target c, Obeys Reaches c (within l target c))
    (op : CompareOp) (c : Comparer) : Obeys Reaches c (op.perform within c) := by
  cases op with
  | word name l r size radix =>
    rw [CompareOp.perform, compareWord_eq]
    exact recorded_compareWide c name l.toNat r.toNat size radix
  | number name l r size radix =>
    rw [CompareOp.perform, compareNumber_eq_compareWide]
    exact recorded_compareWide c name l r size radix
  | real name l r => exact recorded_compareReal c name l r
  | string name l r => exact recorded_compareString c name l r
  | object name l r => exact recorded_compareChild hwithin name l r c
  | compare l r => exact hwithin l r c
  | message text => exact obeys_some (Acts.tally c text).reaches
  | identities l r => exact obeys_some (Acts.tally c _).reaches
  | move step => exact obeys_some (Aside.reaches ⟨rfl, rfl, rfl, rfl, rfl, rfl⟩)
  | tell report other => exact obeys_some (aside_report other c).reaches
  | note => exact obeys_some (Aside.reaches ⟨rfl, rfl, rfl, rfl, rfl, rfl⟩)

theorem recorded_run (hwithin : ∀ l target c, Obeys Reaches c (within l target c))
    (program : CompareProgram) (c : Comparer) : Obeys Reaches c (program.run within c) := by
  induction program generalizing c with
  | done verdict => exact obeys_some (.refl c)
  | look next ih => exact ih c c
  | act op next ih => exact obeys_bind (recorded_perform hwithin op c) fun same => ih same

theorem recorded_compareMetBy {hook : ObjectRef → Comparer → Option Outcome}
    (hhook : ∀ r c, Obeys Reaches c (hook r c)) (l : ObjectRef) (left : DataObject)
    (right : Option (ObjectRef × DataObject)) (c : Comparer) :
    Obeys Reaches c (compareMetBy hook l left right c) := by
  have htally : ∀ message, Obeys Reaches c (some (false, c.tally message)) :=
    fun message => obeys_some (Acts.tally c message).reaches
  unfold compareMetBy
  split
  next => exact htally _
  next r o =>
    split
    next =>
      split
      next => exact obeys_some (.refl c)
      next => exact htally _
    next =>
      split
      next => exact htally _
      next =>
        have hcall : Aside c ((c.pair (instanceId r) (instanceId l)).call (instanceId r)
            (instanceId l)) := ⟨rfl, rfl, rfl, rfl, rfl, rfl⟩
        exact obeys_after hcall.reaches (hhook r _)

/-- A comparison at the top starts the records anew. -/
theorem history_enterRoot (c : Comparer) (left : DataObject) :
    History c [.start] (c.enterRoot left) :=
  (Acts.start c).history.aside ⟨rfl, rfl, rfl, rfl, rfl, rfl⟩

/-- It ends with the number of miscompares if there are any. -/
theorem history_leaveRoot (c : Comparer) (l : ObjectRef) (left : DataObject)
    (right : Option (ObjectRef × DataObject)) :
    History c (if c.result = 0 then [] else [.total (rollup c l left right)])
      (c.leaveRoot l left right) := by
  have hleft : ∀ reporter : Reporter, Aside c { c with reporter } →
      History c [] { c with reporter, scope := c.scope.up } := fun reporter h =>
    h.history.aside ⟨rfl, rfl, rfl, rfl, rfl, rfl⟩
  have hup : ∃ reporter : Reporter, c.leaveRoot l left right =
      (if c.result = 0 then { c with reporter, scope := c.scope.up }
        else { c with reporter, scope := c.scope.up }.report (rollup c l left right)) ∧
      Aside c { c with reporter } := by
    cases right with
    | none => exact ⟨_, rfl, aside_report (by simp) c⟩
    | some met => exact ⟨_, rfl, rfl, rfl, rfl, rfl, rfl, rfl⟩
  obtain ⟨reporter, heq, hreporter⟩ := hup
  rw [heq]
  split
  case isTrue => exact hleft reporter hreporter
  case isFalse h => exact (hleft reporter hreporter).act (.total l left right h)

variable {g : ObjectGraph} {programs : ObjectRef → ObjectRef → CompareProgram}

/-- **A comparison at the top**: the records start anew, and the number of miscompares comes
last. -/
theorem history_compareAt_root {hook : ObjectRef → ObjectRef → Comparer → Option Outcome}
    (hhook : ∀ l r c, Obeys Reaches c (hook l r c)) (hl : g.object? l = some left)
    (hc : c.scope.depth = 0) {target : Option ObjectRef} {same : Bool}
    (h : compareAt g hook l target c = some (same, d)) :
    ∃ log e, History c (.start :: log) e ∧
      History e (if e.result = 0 then [] else [.total (rollup e l left (g.resolve target))]) d := by
  rw [compareAt, hl] at h
  dsimp only at h
  rw [if_pos hc] at h
  obtain ⟨⟨same', e⟩, he, hrest⟩ := Option.bind_eq_some_iff.1 h
  cases hrest
  obtain ⟨log, hlog⟩ := recorded_compareMetBy (hhook l) l left (g.resolve target) _ same' e he
  exact ⟨log, e, (history_enterRoot c left).trans hlog, history_leaveRoot ..⟩

theorem recorded_compareAt {hook : ObjectRef → ObjectRef → Comparer → Option Outcome}
    (hhook : ∀ l r c, Obeys Reaches c (hook l r c)) (l : ObjectRef) (target : Option ObjectRef)
    (c : Comparer) : Obeys Reaches c (compareAt g hook l target c) := by
  cases hl : g.object? l with
  | none =>
    rw [compareAt, hl]
    exact obeys_some (.refl c)
  | some left =>
    by_cases hc : c.scope.depth = 0
    · intro same d h
      obtain ⟨log, e, hlog, hlast⟩ := history_compareAt_root hhook hl hc h
      exact ⟨_, hlog.trans hlast⟩
    · rw [compareAt, hl]
      dsimp only
      rw [if_neg hc]
      exact obeys_bind (recorded_compareMetBy (hhook l) l left (g.resolve target) c) fun same d =>
        obeys_some (.refl d)

/-- **All comparisons by programs have a history**, at the top and below. -/
theorem history_comparePrograms (fuel : Nat) (l : ObjectRef) (target : Option ObjectRef)
    (c : Comparer) : Obeys Reaches c (comparePrograms g programs fuel l target c) := by
  induction fuel generalizing l target c with
  | zero => exact fun _ _ => nofun
  | succ fuel ih =>
    exact recorded_compareAt (fun l r => recorded_run ih (programs l r)) l target c

/-! ### The records -/

/-- The miscompares that are kept, oldest first. -/
def tallied (log : List CompareEntry) : List Miscompare :=
  log.filterMap fun
    | .tally miscompare => some miscompare
    | _ => none

/-- The messages that report a number of miscompares, oldest first. -/
def totalled (log : List CompareEntry) : List String :=
  log.filterMap fun
    | .total message => some message
    | _ => none

/-- How the report of a single miscompare begins. -/
def singleLead : String := "Miscompare for "

/-- The message that reports a single miscompare. -/
def singleMessage (m : Miscompare) : String := singleLead ++ m.path ++ ": " ++ m.message

/-- Whether a message reports a single miscompare. -/
def isSingle (message : String) : Bool := singleLead.toList.isPrefixOf message.toList

/-- The reports of single miscompares, oldest first. -/
def singles (c : Comparer) : List Report := c.told.filter (isSingle ·.message)

/-- The other reports of miscompares, oldest first. -/
def totals (c : Comparer) : List Report := c.told.filter (!isSingle ·.message)

/-- What comes of messages when they are reported: all of them or, if they are filtered, none. -/
def heard (c : Comparer) (messages : List String) : List Report :=
  if c.settings.severity = .info ∧
      c.reporter.maxVerbosity.level < c.settings.verbosity.level then []
  else messages.map fun message => ⟨c.settings.severity, c.settings.verbosity, "MISCMP", message⟩

/-- The records of `d` are those of `b` and what the history in between adds to each. -/
structure InStep (b : Comparer) (log : List CompareEntry) (d : Comparer) : Prop where
  settings : d.settings = b.settings
  threshold : d.reporter.maxVerbosity = b.reporter.maxVerbosity
  kept : d.kept = (tallied log).reverse ++ b.kept
  result : d.result = b.result + (tallied log).length
  text : d.text = b.text ++ String.join ((tallied log).map Miscompare.line)
  /-- As many are reported as are left of the cap. -/
  singles : d.singles = b.singles ++
    b.heard (((tallied log).take (b.settings.showMax - b.result)).map singleMessage)
  totals : d.totals = b.totals ++ b.heard (totalled log)

theorem heard_append (c : Comparer) (messages messages' : List String) :
    c.heard (messages ++ messages') = c.heard messages ++ c.heard messages' := by
  unfold heard
  split
  · rfl
  · exact List.map_append

@[simp] theorem heard_nil (c : Comparer) : c.heard [] = [] := by
  unfold heard
  split <;> rfl

theorem heard_congr (hs : d.settings = c.settings)
    (ht : d.reporter.maxVerbosity = c.reporter.maxVerbosity) (messages : List String) :
    d.heard messages = c.heard messages := by
  rw [heard, heard, hs, ht]

theorem filter_heard (c : Comparer) (p : String → Bool) (messages : List String) :
    (c.heard messages).filter (p ·.message) = c.heard (messages.filter p) := by
  unfold heard
  split
  · rfl
  · exact List.filter_map

theorem told_report (c : Comparer) (message : String) :
    (c.report message).told = c.told ++ c.heard [message] := by
  simp only [told, report, Reporter.withId, Reporter.report, Reporter.accepts, heard]
  by_cases hs : c.settings.severity = .info
  · by_cases hv : c.settings.verbosity.level ≤ c.reporter.maxVerbosity.level
    · simp [hs, hv, Nat.not_lt.2 hv]
    · simp [hs, hv, Nat.lt_of_not_le hv]
  · simp [hs]

/-- A miscompare is reported if there is something left of the cap. -/
theorem told_tally (c : Comparer) (message : String) :
    (c.tally message).told = c.told ++
      c.heard (([⟨c.scope.path, message⟩].take (c.settings.showMax - c.result)).map
        singleMessage) := by
  rw [tally]
  dsimp only
  split
  case isTrue h =>
    have hleft : 1 ≤ c.settings.showMax - c.result := Nat.le_sub_of_add_le' h
    rw [List.take_of_length_le hleft]
    exact told_report ..
  case isFalse h =>
    have hleft : c.settings.showMax - c.result = 0 := by omega
    rw [hleft, List.take_zero, List.map_nil, heard_nil, List.append_nil]
    rfl

theorem isSingle_singleMessage (m : Miscompare) : isSingle (singleMessage m) = true := by
  simp [isSingle, singleMessage, String.toList_append, List.append_assoc]

/-- A number of miscompares begins with a digit. -/
theorem isSingle_rollup (c : Comparer) (l : ObjectRef) (left : DataObject)
    (right : Option (ObjectRef × DataObject)) : isSingle (rollup c l left right) = false := by
  obtain ⟨digit, digits, hdigits⟩ :=
    List.exists_cons_of_ne_nil (Nat.toDigits_ne_nil (n := c.result) (b := 10))
  have hdigit : digit.isDigit = true :=
    Nat.isDigit_of_mem_toDigits (by decide) (by decide) (hdigits ▸ List.mem_cons_self)
  have hne : 'M' ≠ digit := by
    rintro rfl
    exact absurd hdigit (by decide)
  simp [isSingle, singleLead, rollup, String.toList_append, hdigits, List.isPrefixOf, hne]

theorem singles_of_told (messages : List String) (h : d.told = c.told ++ c.heard messages) :
    d.singles = c.singles ++ c.heard (messages.filter isSingle) := by
  rw [singles, singles, h, List.filter_append, filter_heard]

theorem totals_of_told (messages : List String) (h : d.told = c.told ++ c.heard messages) :
    d.totals = c.totals ++ c.heard (messages.filter (!isSingle ·)) := by
  rw [totals, totals, h, List.filter_append, filter_heard c (!isSingle ·)]

theorem filter_singleMessage (found : List Miscompare) :
    (found.map singleMessage).filter isSingle = found.map singleMessage ∧
      (found.map singleMessage).filter (!isSingle ·) = [] := by
  simp [isSingle_singleMessage]

/-- Nothing that is done to the records changes what is reported of them. -/
theorem Acts.steady {entry : CompareEntry} (h : Acts c entry d) :
    d.settings = c.settings ∧ d.reporter.maxVerbosity = c.reporter.maxVerbosity := by
  cases h with
  | start => exact ⟨rfl, rfl⟩
  | tally message => exact ⟨settings_tally .., (sameLevel_tally c message).threshold⟩
  | total => exact ⟨rfl, maxVerbosity_report ..⟩

theorem History.heard (h : History c log d) (messages : List String) :
    d.heard messages = c.heard messages := by
  induction h with
  | refl => rfl
  | aside _ hd ih => exact (heard_congr hd.settings hd.threshold _).trans ih
  | act _ hd ih => exact (heard_congr hd.steady.1 hd.steady.2 _).trans ih

namespace InStep

theorem refl (c : Comparer) : InStep c [] c := by
  constructor <;> simp [tallied, totalled]

theorem aside (h : InStep b log d) (hd : Aside d e) : InStep b log e where
  settings := hd.settings.trans h.settings
  threshold := hd.threshold.trans h.threshold
  kept := hd.kept.trans h.kept
  result := hd.result.trans h.result
  text := hd.text.trans h.text
  singles := by rw [← h.singles, Comparer.singles, Comparer.singles, hd.told]
  totals := by rw [← h.totals, Comparer.totals, Comparer.totals, hd.told]

/-- Another miscompare adds to all records at once. -/
theorem tally (h : InStep b log d) (message : String) :
    InStep b (log ++ [.tally ⟨d.scope.path, message⟩]) (d.tally message) := by
  have htallied : tallied (log ++ [.tally ⟨d.scope.path, message⟩]) =
      tallied log ++ [⟨d.scope.path, message⟩] := by simp [tallied]
  have htotalled : totalled (log ++ [.tally ⟨d.scope.path, message⟩]) = totalled log := by
    simp [totalled]
  have hheard : ∀ messages, d.heard messages = b.heard messages :=
    heard_congr h.settings h.threshold
  obtain ⟨hsingle, htotal⟩ := filter_singleMessage
    ([⟨d.scope.path, message⟩].take (d.settings.showMax - d.result))
  constructor
  case settings => exact (Acts.tally d message).steady.1.trans h.settings
  case threshold => exact (Acts.tally d message).steady.2.trans h.threshold
  case kept => rw [kept_tally, h.kept, htallied, List.reverse_concat, List.cons_append]
  case result =>
    rw [result_tally, h.result, htallied, List.length_append, List.length_singleton, Nat.add_assoc]
  case text =>
    rw [text_tally, h.text, htallied, List.map_append, String.join_append, String.append_assoc]
    simp
  case singles =>
    have hleft : d.settings.showMax - d.result =
        b.settings.showMax - b.result - (tallied log).length := by
      rw [h.settings, h.result, Nat.sub_sub]
    rw [singles_of_told _ (told_tally d message), hsingle, hheard, h.singles, htallied,
      List.take_append, List.map_append, heard_append, List.append_assoc, hleft]
  case totals =>
    rw [totals_of_told _ (told_tally d message), htotal, heard_nil, List.append_nil, h.totals,
      htotalled]

/-- A number of miscompares is reported beside the single ones. -/
theorem total (h : InStep b log d) (l : ObjectRef) (left : DataObject)
    (right : Option (ObjectRef × DataObject)) :
    InStep b (log ++ [.total (rollup d l left right)]) (d.report (rollup d l left right)) := by
  have htallied : tallied (log ++ [.total (rollup d l left right)]) = tallied log := by
    simp [tallied]
  have hheard : ∀ messages, d.heard messages = b.heard messages :=
    heard_congr h.settings h.threshold
  have hnot := isSingle_rollup d l left right
  constructor
  case settings => exact h.settings
  case threshold => exact (maxVerbosity_report ..).trans h.threshold
  case kept => rw [htallied]; exact h.kept
  case result => rw [htallied]; exact h.result
  case text => rw [htallied]; exact h.text
  case singles =>
    rw [singles_of_told _ (told_report ..), htallied, ← h.singles]
    simp [hnot]
  case totals =>
    rw [totals_of_told _ (told_report ..), h.totals, hheard]
    simp [hnot, totalled, heard_append]

end InStep

/-- **Step by step** a history that does not start anew adds the same to all records. -/
theorem History.inStep (h : History b log d) (hstart : .start ∉ log) : InStep b log d := by
  induction h with
  | refl => exact .refl _
  | aside _ hd ih => exact (ih hstart).aside hd
  | act _ hd ih =>
    rw [List.mem_append, List.mem_singleton, not_or] at hstart
    cases hd with
    | start => exact absurd rfl hstart.2
    | tally message => exact (ih hstart.1).tally message
    | total l left right _ => exact (ih hstart.1).total l left right

/-- **The records of a comparison stay in step.**  Whatever programs are run, there is a history of
what is done to the records, and any part of it that does not start anew adds the same to each:
the tally counts the miscompares of that part, the text has a line for each, and the reports are
those of the first of them, as far as the cap allows.  Right after a start, tally and text are
empty.  A comparison at the top starts anew, and at its end the number of miscompares is reported
if there are any, whatever the cap. -/
theorem records_in_step (g : ObjectGraph) (programs : ObjectRef → ObjectRef → CompareProgram)
    (fuel : Nat) (c d : Comparer) (same : Bool) :
    (∀ program : CompareProgram,
      program.run (comparePrograms g programs fuel) c = some (same, d) →
      ∃ log, History c log d ∧ ∀ before since after, log = before ++ since ++ after →
        .start ∉ since → ∃ b e, History c before b ∧ History b since e ∧ History e after d ∧
          InStep b since e ∧ (before.getLast? = some .start → b.result = 0 ∧ b.text = "")) ∧
    ∀ l left target, g.object? l = some left → c.scope.depth = 0 →
      comparePrograms g programs fuel l target c = some (same, d) →
      ∃ log e, History c (.start :: log) e ∧
        d.kept = e.kept ∧ d.result = e.result ∧ d.text = e.text ∧ d.singles = e.singles ∧
        d.totals = e.totals ++
          if e.result = 0 then [] else c.heard [rollup e l left (g.resolve target)] := by
  refine ⟨fun program hrun => ?_, fun l left target hl hc hrun => ?_⟩
  · obtain ⟨log, hlog⟩ := recorded_run (history_comparePrograms fuel) program c same d hrun
    refine ⟨log, hlog, fun before since after hsplit hstart => ?_⟩
    obtain ⟨e, hfront, hafter⟩ := hlog.split hsplit
    obtain ⟨b, hbefore, hsince⟩ := hfront.split rfl
    exact ⟨b, e, hbefore, hsince, hafter, hsince.inStep hstart, hbefore.result_of_start⟩
  · cases fuel with
    | zero => cases hrun
    | succ fuel =>
      obtain ⟨log, e, hlog, hlast⟩ := history_compareAt_root
        (fun l r => recorded_run (history_comparePrograms fuel) (programs l r)) hl hc hrun
      have hend := hlast.inStep (by split <;> simp)
      have htallied : tallied (if e.result = 0 then []
          else [.total (rollup e l left (g.resolve target))]) = [] := by split <;> rfl
      refine ⟨log, e, hlog, by simpa [htallied] using hend.kept,
        by simpa [htallied] using hend.result, by simpa [htallied] using hend.text,
        by simpa [htallied] using hend.singles, ?_⟩
      rw [hend.totals, hlog.heard]
      split
      next => rw [totalled, List.filterMap_nil, heard_nil]
      next => rfl

/-- Two objects that differ in two numbers. -/
def twoPoints : ObjectGraph where
  objects := #[
    ⟨"p", .fielded 0 "Point" none [⟨"x", .int 1 8 .dec, .always⟩, ⟨"y", .int 2 8 .dec, .always⟩]⟩,
    ⟨"q", .fielded 0 "Point" none [⟨"x", .int 3 8 .dec, .always⟩, ⟨"y", .int 4 8 .dec, .always⟩]⟩]

/-- Of the two miscompares only the first is reported, and then their number. -/
theorem records_in_step_twoPoints :
    let c : Comparer := {}
    let within := comparePrograms twoPoints (fun l r => (twoPoints.fieldHook l r).toProgram .done) 2
    ∃ d, (CompareProgram.act (.compare 0 (some 1)) .done).run within c = some (false, d) ∧
      d.text = "p.x: lhs = 1 : rhs = 3\np.y: lhs = 2 : rhs = 4\n" ∧
      d.singles.map Report.message = ["Miscompare for p.x: lhs = 1 : rhs = 3"] ∧
      d.totals.map Report.message = ["2 Miscompare(s) for object p@1 vs. q@2"] ∧
      (∃ log, History c log d) ∧ ∃ log e, History c (.start :: log) e ∧ d.result = e.result := by
  intro c within
  obtain ⟨d, hrun⟩ : ∃ d, within 0 (some 1) c = some (false, d) := ⟨_, rfl⟩
  have hsteps := records_in_step twoPoints
    (fun l r => (twoPoints.fieldHook l r).toProgram .done) 2 c d false
  have hprogram : (CompareProgram.act (.compare 0 (some 1)) .done).run within c =
      some (false, d) := by
    simp only [CompareProgram.run, CompareOp.perform, hrun]
    rfl
  obtain ⟨log, hlog, -⟩ := hsteps.1 _ hprogram
  obtain ⟨inner, e, hinner, -, hresult, -⟩ := hsteps.2 0 _ (some 1) rfl rfl hrun
  refine ⟨d, hprogram, ?_, ?_, ?_, ⟨log, hlog⟩, inner, e, hinner, hresult⟩
  all_goals
    cases hrun
    decide

end Comparer

end FieldAutomation
