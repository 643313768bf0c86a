import FieldAutomation.Proofs.Recording.Chronicle

/-!
# The lines of the transcript

A transcript is read line by line.  What it tells of an event goes to the file with the names and
values of the event as they are, line breaks included, so an event takes one line more for each
line break in its texts.  Hence the lines of a file tell of its events one by one if and only if no
text has a line break, and a text with two of them puts lines of its own into the file, such as
those of events that never happened.

* `linesOf`, `breaks`: the lines of a text, and the line breaks in it;
* `TranscriptEvent.texts`: the names and values that go into the line of an event;
* `ChronicleEntry.heading`: the keyword and the time with which the line of an event starts;
* `LineByLine`: the lines of a text tell of events one by one;
* `TakesLines`: how the lines of a text are those of the events it tells of.

Main statements: `TranscriptEvent.breaks_line` (the line breaks of one event), `takesLines_linesIn`
(events in order) and `Bench.takesLines_run`.
-/

namespace FieldAutomation

open ChronicleEntry (linesIn)

/-! ### Texts and their lines -/

/-- The lines of a text; the last one is what follows the last line break. -/
def linesOf (text : String) : List String := (text.toList.splitOn '\n').map String.ofList

/-- How many line breaks there are in a text. -/
def breaks (text : String) : Nat := text.toList.count '\n'

theorem Transcript.lines?_eq (t : Transcript) (name : String) :
    t.lines? name = (t.content? name).map linesOf := rfl

section lines

variable (s t : String)

/-- The lines before a line break, and those after it. -/
theorem linesOf_append_break : linesOf (s ++ "\n" ++ t) = linesOf s ++ linesOf t := by
  have h : (s ++ "\n" ++ t).toList = s.toList ++ '\n' :: t.toList := by simp
  rw [linesOf, h, List.splitOn_append_cons_self, List.map_append]
  rfl

@[simp] theorem breaks_append : breaks (s ++ t) = breaks s + breaks t := by
  simp [breaks]

theorem breaks_eq_zero_iff : breaks s = 0 ↔ '\n' ∉ s.toList := List.count_eq_zero

theorem breaks_join_eq_zero_iff (texts : List String) :
    breaks (String.join texts) = 0 ↔ ∀ s ∈ texts, '\n' ∉ s.toList := by
  induction texts with
  | nil => simp [breaks]
  | cons s rest ih =>
    rw [String.join_cons, breaks_append, Nat.add_eq_zero_iff, breaks_eq_zero_iff, ih,
      List.forall_mem_cons]

/-- Digits are no line breaks. -/
@[simp] theorem breaks_repr (n : Nat) : breaks n.repr = 0 := by
  rw [breaks_eq_zero_iff, Nat.toList_repr]
  intro h
  exact absurd (Nat.isDigit_of_mem_toDigits (by decide) (by decide) h) (by decide)

/-- There is one line more than there are line breaks. -/
theorem length_linesOf : (linesOf s).length = breaks s + 1 := by
  rw [linesOf, List.length_map, breaks]
  induction s.toList with
  | nil => rfl
  | cons c cs ih =>
    rw [List.splitOn_cons_eq_if_modifyHead, List.count_cons]
    split
    · rw [List.length_cons, ih]
    · rw [List.length_modifyHead, ih, Nat.add_zero]

variable {s t}

/-- A text without line breaks is its own line. -/
theorem linesOf_eq_singleton (h : breaks s = 0) : linesOf s = [s] := by
  rw [linesOf, List.splitOn_eq_singleton ((breaks_eq_zero_iff s).1 h), List.map_singleton,
    String.ofList_toList]

end lines

/-! ### Texts in events -/

/-- The names and values that go into the line of an event as they are. -/
def TranscriptEvent.texts : TranscriptEvent → List String
  | stream _ name typeName scope => [name, typeName, scope]
  | trace _ (.opened _ name _ typeName) => [name, typeName]
  | trace _ (.closed ..) | trace _ (.freed ..) => []
  | trace _ (.recorded a) => [a.name, a.value]
  | link _ _ relation => [relation]

namespace TranscriptEvent

theorem breaks_keyword (e : TranscriptEvent) : breaks e.keyword = 0 := by
  rcases e with _ | ⟨_, _ | _ | _ | _⟩ | _ <;> rw [keyword] <;> decide

theorem breaks_name (r : Radix) : breaks r.name = 0 := by
  cases r <;> decide

/-- What a line says besides has no line breaks. -/
theorem breaks_body (e : TranscriptEvent) : breaks e.body = breaks (String.join e.texts) := by
  have hstring (s : String) : toString s = s := rfl
  have hempty : breaks "" = 0 := by decide
  have hlabels : ∀ label ∈ ["NAME:", " T:", " SCOPE:", " STREAM:", "TXH:", " NAME:", " TIME:",
      " TYPE=\"", "\"", " TIME=", " VALUE:", " RADIX:", " BITS:", "TXH1:", " TXH2:", " RELATION="],
      breaks label = 0 := by decide
  simp only [List.forall_mem_cons] at hlabels
  unfold body
  rcases e with _ | ⟨_, _ | _ | _ | a⟩ | _ <;>
    simp only [texts, hstring, Nat.toString_eq_repr, breaks_append, breaks_repr, breaks_name,
      hlabels, String.join_cons, String.join_nil, hempty] <;>
    omega

/-- What the line of an event starts with: its keyword, and the time when it is written. -/
def heading (e : TranscriptEvent) (now : Nat) : String :=
  e.keyword ++ " @" ++ toString now ++ " \x7b"

theorem line_eq_heading (e : TranscriptEvent) (now : Nat) :
    e.line now = e.heading now ++ (e.body ++ "\x7d") := by
  rw [line, heading, String.append_assoc, String.append_assoc]

theorem breaks_heading (e : TranscriptEvent) (now : Nat) : breaks (e.heading now) = 0 := by
  simp only [heading, breaks_append, breaks_keyword, Nat.toString_eq_repr, breaks_repr]
  decide

/-- **The line breaks of one event** are those of its texts. -/
theorem breaks_line (e : TranscriptEvent) (now : Nat) :
    breaks (e.line now) = breaks (String.join e.texts) := by
  have hend : breaks "\x7d" = 0 := by decide
  rw [line_eq_heading, breaks_append, breaks_append, breaks_heading, breaks_body, hend,
    Nat.zero_add, Nat.add_zero]

/-- A value forges the end of the recorder that it is recorded on. -/
example :
    linesOf ((trace 1 (.recorded ⟨7, "x", "v\nFREE_RECORDER @9 \x7bTXH:7\x7d\nw", .string, 224,
        none⟩)).line 5) =
      ["SET_ATTR @5 \x7bTXH:7 NAME:x VALUE:v", "FREE_RECORDER @9 \x7bTXH:7\x7d",
        "w RADIX:UVM_STRING BITS:224\x7d"] := by
  decide +kernel

end TranscriptEvent

/-- One text stands in another. -/
def StandsIn (s text : String) : Prop := ∃ before after, text = before ++ s ++ after

namespace StandsIn

variable {s t text : String}

theorem at_end (before s : String) : StandsIn s (before ++ s) :=
  ⟨before, "", (String.append_empty).symm⟩

theorem append (h : StandsIn s t) (later : String) : StandsIn s (t ++ later) := by
  obtain ⟨before, after, rfl⟩ := h
  exact ⟨before, after ++ later, String.append_assoc⟩

theorem prepend (h : StandsIn s t) (earlier : String) : StandsIn s (earlier ++ t) := by
  obtain ⟨before, after, rfl⟩ := h
  exact ⟨earlier ++ before, after, by simp only [String.append_assoc]⟩

theorem trans (h : StandsIn s t) (h' : StandsIn t text) : StandsIn s text := by
  obtain ⟨before, after, rfl⟩ := h'
  exact (h.prepend before).append after

/-- What stands between two line breaks has its lines to itself. -/
theorem infix_linesOf {a l b : String} (h : StandsIn (a ++ "\n" ++ l ++ "\n" ++ b) text) :
    linesOf l <:+: linesOf text := by
  obtain ⟨before, after, rfl⟩ := h
  have hsplit : before ++ (a ++ "\n" ++ l ++ "\n" ++ b) ++ after =
      before ++ a ++ "\n" ++ (l ++ "\n" ++ (b ++ after)) := by
    simp only [String.append_assoc]
  rw [hsplit, linesOf_append_break, linesOf_append_break, ← List.append_assoc]
  exact List.infix_append ..

end StandsIn

theorem TranscriptEvent.standsIn_body (e : TranscriptEvent) {s : String} (hs : s ∈ e.texts) :
    StandsIn s e.body := by
  -- a text is in front of what was said last, or is the last to be said
  rcases e with _ | ⟨_, _ | _ | _ | _⟩ | _ <;>
    simp only [texts, List.mem_cons, List.not_mem_nil, or_false] at hs <;>
    rcases hs with rfl | rfl | rfl <;>
    repeat first | exact StandsIn.at_end _ _ | refine StandsIn.append ?_ _

theorem TranscriptEvent.standsIn_line (e : TranscriptEvent) (now : Nat) {s : String}
    (hs : s ∈ e.texts) : StandsIn s (e.line now) := by
  rw [line_eq_heading]
  exact ((e.standsIn_body hs).append _).prepend _

/-! ### Lines of events in order -/

namespace ChronicleEntry

/-- What the line of an event starts with. -/
def heading (e : ChronicleEntry) : String := e.event.heading e.status.now

/-- The events that happened while a file was open, in order. -/
def writtenTo (name : String) (entries : List ChronicleEntry) : List ChronicleEntry :=
  entries.filter (·.status.opened = some (.file name))

theorem linesIn_eq_join (name : String) (entries : List ChronicleEntry) :
    linesIn name entries = String.join ((writtenTo name entries).map line) := rfl

/-- The lines that an event takes. -/
def lines (e : ChronicleEntry) : List String := linesOf (e.event.line e.status.now)

theorem length_lines (e : ChronicleEntry) :
    e.lines.length = breaks (String.join e.event.texts) + 1 := by
  rw [lines, length_linesOf, e.event.breaks_line]

theorem lines_eq_singleton {e : ChronicleEntry} (h : ∀ s ∈ e.event.texts, '\n' ∉ s.toList) :
    e.lines = [e.event.line e.status.now] :=
  linesOf_eq_singleton ((e.event.breaks_line _).trans ((breaks_join_eq_zero_iff _).2 h))

end ChronicleEntry

/-- The lines of a text tell of events one by one: the lines are as many as the events, each of
them starts with the keyword and the time of its event, and nothing follows the last line break. -/
def LineByLine (text : String) (told : List ChronicleEntry) : Prop :=
  ∃ lines, linesOf text = lines ++ [""] ∧
    List.Forall₂ (fun e line => ∃ rest, line = e.heading ++ rest) told lines

/-- How the lines of a text are those of the events that it tells of. -/
structure TakesLines (text : String) (told : List ChronicleEntry) : Prop where
  /-- The events take their lines in order … -/
  lines : linesOf text = told.flatMap (·.lines) ++ [""]
  /-- … each of them one more than there are line breaks in its texts. -/
  length : (linesOf text).length =
    told.length + breaks (String.join (told.flatMap (·.event.texts))) + 1
  /-- Events take a line each only when no text has a line break. -/
  lineByLine_iff : LineByLine text told ↔ ∀ e ∈ told, ∀ s ∈ e.event.texts, '\n' ∉ s.toList
  /-- What a text has between two line breaks has its lines to itself. -/
  forged : ∀ e ∈ told, ∀ a l b, a ++ "\n" ++ l ++ "\n" ++ b ∈ e.event.texts →
    linesOf l <:+: linesOf text

section join

variable (told : List ChronicleEntry)

theorem linesOf_join :
    linesOf (String.join (told.map (·.line))) = told.flatMap (·.lines) ++ [""] := by
  induction told with
  | nil => rfl
  | cons e rest ih =>
    rw [List.map_cons, String.join_cons, ChronicleEntry.line, linesOf_append_break, ih,
      List.flatMap_cons, List.append_assoc, ChronicleEntry.lines]

theorem length_flatMap_lines :
    (told.flatMap (·.lines)).length =
      told.length + breaks (String.join (told.flatMap (·.event.texts))) := by
  induction told with
  | nil => rfl
  | cons e rest ih =>
    rw [List.flatMap_cons, List.length_append, ih, e.length_lines, List.length_cons,
      List.flatMap_cons, String.join_append, breaks_append]
    omega

theorem lineByLine_join_iff :
    LineByLine (String.join (told.map (·.line))) told ↔
      ∀ e ∈ told, ∀ s ∈ e.event.texts, '\n' ∉ s.toList := by
  rw [LineByLine, linesOf_join]
  constructor
  · -- there are no more lines than events
    rintro ⟨lines, hlines, hall⟩ e he s hs
    have hlength := congrArg List.length (List.append_cancel_right hlines)
    rw [length_flatMap_lines, ← hall.length_eq] at hlength
    have hnone : breaks (String.join (told.flatMap (·.event.texts))) = 0 := by omega
    exact (breaks_join_eq_zero_iff _).1 hnone s (List.mem_flatMap_of_mem he hs)
  · intro hplain
    refine ⟨told.map fun e => e.event.line e.status.now, ?_, ?_⟩
    · rw [List.map_eq_flatMap,
        List.flatMap_congr fun e he => ChronicleEntry.lines_eq_singleton (hplain e he)]
    · rw [List.forall₂_map_right_iff, List.forall₂_same]
      exact fun e _ => ⟨_, e.event.line_eq_heading _⟩

/-- The line of an event stands in the text. -/
theorem standsIn_join {e : ChronicleEntry} (he : e ∈ told) :
    StandsIn e.line (String.join (told.map (·.line))) := by
  obtain ⟨before, after, rfl⟩ := List.append_of_mem he
  rw [List.map_append, List.map_cons, String.join_append, String.join_cons]
  exact ((StandsIn.at_end "" e.line).append _).prepend _

end join

/-- **Events in order** take the lines of a file. -/
theorem takesLines_linesIn (name : String) (entries : List ChronicleEntry) :
    TakesLines (linesIn name entries) (ChronicleEntry.writtenTo name entries) := by
  rw [ChronicleEntry.linesIn_eq_join]
  generalize ChronicleEntry.writtenTo name entries = told
  refine ⟨linesOf_join told, ?_, lineByLine_join_iff told, fun e he a l b hs => ?_⟩
  · rw [linesOf_join, List.length_append, length_flatMap_lines, List.length_singleton]
  · have hline : StandsIn (a ++ "\n" ++ l ++ "\n" ++ b) e.line :=
      (e.event.standsIn_line _ hs).append _
    exact (hline.trans (standsIn_join told he)).infix_linesOf

/-! ### Runs -/

namespace Bench

/-- **The lines of the transcript** after every run, in every file: what the run adds to the file
are the lines of the events that happened while it was open, and these tell of the events one by
one if and only if no name and no value among them has a line break. -/
theorem takesLines_run (graph : ObjectGraph) (fileName : String) (files : List (String × String))
    (commands : List Command) (name : String) :
    ∃ added,
      ((startOn graph fileName files).run commands).media.transcript.textIn name =
        (files.lookup name).getD "" ++ added ∧
      TakesLines added
        (ChronicleEntry.writtenTo name ((start graph fileName).chronicle { fileName } commands)) :=
  ⟨_, ((mirrors_startOn graph fileName files).chronicled_run
    (orderly_startOn graph fileName files) commands).1 name, takesLines_linesIn name _⟩

end Bench

end FieldAutomation
