import FieldAutomation.Proofs.Stream.Reading

/-!
# Scripts of fields

Fields are packed one after the other, the stream is committed, and fields of the same kinds and
sizes are unpacked in the same order.  Every value comes back, cut to the bits that were packed
of it, and the whole stream is read.

* `Packer.packAll`, `Packer.unpackAll`: the two scripts;
* `FieldData.layoutAll`, `FieldData.totalWidth`: the stream between them and its size.

Main statement: `Packer.unpackAll_packAll`.
-/

namespace FieldAutomation

/-- The bits that fields become in the stream. -/
def FieldData.layoutAll (s : PackerSettings) (fields : List FieldData) : List Bool :=
  fields.flatMap (FieldData.layout s)

/-- The sum of the widths of fields. -/
def FieldData.totalWidth (s : PackerSettings) : List FieldData → Nat
  | [] => 0
  | d :: rest => d.packedWidth s + totalWidth s rest

namespace Packer

variable {p : Packer}

/-- Packs fields one after the other. -/
def packAll (fields : List FieldData) (p : Packer) : Packer :=
  fields.foldl (fun p d => packData d p) p

/-- Unpacks fields one after the other. -/
def unpackAll : List FieldData → Packer → List FieldData × Packer
  | [], p => ([], p)
  | into :: rest, p =>
    let (d, p) := unpackData into p
    let (values, p) := unpackAll rest p
    (d :: values, p)

theorem wrote_packAll (p : Packer) {fields : List FieldData} (h : ∀ d ∈ fields, d.WithinLimits) :
    Wrote p (packAll fields p) (FieldData.layoutAll p.settings fields) := by
  induction fields generalizing p with
  | nil => exact .refl p
  | cons d rest ih =>
    have hd := wrote_packData p (h d (by simp))
    have hr := ih (packData d p) fun e he => h e (by simp [he])
    rw [hd.settings] at hr
    exact hd.trans hr

theorem length_layoutAll {s : PackerSettings} {fields : List FieldData}
    (h : ∀ d ∈ fields, d.WithinLimits) :
    (FieldData.layoutAll s fields).length = FieldData.totalWidth s fields := by
  induction fields with
  | nil => rfl
  | cons d rest ih =>
    have hd := FieldData.length_layout (s := s) (h d (by simp))
    have hr := ih fun e he => h e (by simp [he])
    rw [FieldData.layoutAll] at hr ⊢
    rw [List.flatMap_cons, List.length_append, hd, hr, FieldData.totalWidth]

/-- The script of reading goes through what the script of writing left. -/
theorem unpackAll_of_remaining {script : List (FieldData × FieldData)} {rest : List Bool}
    (hl : ∀ x ∈ script, x.1.WithinLimits) (hf : ∀ x ∈ script, x.1.Fits x.2)
    (hend : ∀ x later, x :: later <:+ script → x.2.ReadsToEnd → TextEnds
      (p.settings.terminator ++ (FieldData.layoutAll p.settings (later.map Prod.fst) ++ rest)))
    (h : p.remaining = FieldData.layoutAll p.settings (script.map Prod.fst) ++ rest) :
    (unpackAll (script.map Prod.snd) p).1 =
        script.map (fun x => x.1.carried p.settings.bigEndian x.2) ∧
      Skipped p (unpackAll (script.map Prod.snd) p).2
        (FieldData.layoutAll p.settings (script.map Prod.fst)).length := by
  -- each field is read in front of the layouts of those that follow
  induction script generalizing p with
  | nil => exact ⟨rfl, rfl⟩
  | cons x later ih =>
    rw [FieldData.layoutAll, List.map_cons, List.flatMap_cons, List.append_assoc] at h
    obtain ⟨hv, hs⟩ := unpackData_of_remaining (hl x (by simp)) (hf x (by simp))
      (hend x later (List.suffix_refl _)) h
    have hi := ih (p := (unpackData x.2 p).2) (fun y hy => hl y (by simp [hy]))
      (fun y hy => hf y (by simp [hy]))
      (fun y later' hy => by
        rw [hs.settings]
        exact hend y later' (hy.trans (List.suffix_cons x later)))
      (by rw [hs.settings]; exact hs.remaining h)
    rw [hs.settings] at hi
    refine ⟨?_, ?_⟩
    · rw [List.map_cons, List.map_cons, unpackAll, ← hv, ← hi.1]
    · rw [List.map_cons, List.map_cons, unpackAll, FieldData.layoutAll, List.flatMap_cons,
        List.length_append]
      exact hs.trans hi.2

/-- **What was packed is unpacked.**  From a reset packer, a script of fields within the limits is
packed, committed, and read into fields that fit: each value comes back cut to its bits, no misuse
is noted, and the cursor ends at the size of the stream, the sum of the widths.  A text may be
read without its length if metadata is used, or if the stream ends behind it or goes on with a
zero byte. -/
theorem unpackAll_packAll (p : Packer) (script : List (FieldData × FieldData))
    (hl : ∀ x ∈ script, x.1.WithinLimits) (hf : ∀ x ∈ script, x.1.Fits x.2)
    (hend : ∀ x later, x :: later <:+ script → x.2.ReadsToEnd →
      p.settings.useMetadata = true ∨
        TextEnds (FieldData.layoutAll p.settings (later.map Prod.fst))) :
    let stream := (packAll (script.map Prod.fst) p.reset).commit
    let last := (unpackAll (script.map Prod.snd) stream).2
    (unpackAll (script.map Prod.snd) stream).1 =
        script.map (fun x => x.1.carried p.settings.bigEndian x.2) ∧
      last.errors = [] ∧ last.reporter = p.reporter ∧
      stream.size = FieldData.totalWidth p.settings (script.map Prod.fst) ∧
      last.size = stream.size ∧ last.cursor = stream.size := by
  intro stream last
  have hlf : ∀ d ∈ script.map Prod.fst, d.WithinLimits := by
    intro d hd
    obtain ⟨x, hx, rfl⟩ := List.mem_map.1 hd
    exact hl x hx
  -- what was written from the start is all that remains after the commit
  have hw := wrote_packAll p.reset hlf
  have hset : stream.settings = p.settings := hw.settings
  have hrem : stream.remaining = FieldData.layoutAll p.settings (script.map Prod.fst) ++ [] := by
    rw [remaining_commit, hw.written, written_reset, List.nil_append, List.append_nil]
    rfl
  have hsize : stream.size = (FieldData.layoutAll p.settings (script.map Prod.fst)).length := by
    rw [← List.append_nil (FieldData.layoutAll ..), ← hrem, remaining_commit, length_written]
    rfl
  have hends : ∀ x later, x :: later <:+ script → x.2.ReadsToEnd → TextEnds
      (stream.settings.terminator ++
        (FieldData.layoutAll stream.settings (later.map Prod.fst) ++ [])) := by
    intro x later hx hr
    rw [hset, List.append_nil]
    exact textEnds_terminator_append (hend x later hx hr)
  obtain ⟨hv, hs⟩ := unpackAll_of_remaining hl hf hends (by rwa [hset])
  rw [hset] at hv hs
  refine ⟨hv, ?_, ?_, ?_, hs.size, ?_⟩
  · exact hs.errors.trans hw.errors
  · exact hs.reporter.trans hw.reporter
  · rw [hsize, length_layoutAll hlf]
  · rw [hs.cursor, hsize]
    exact Nat.zero_add _

/-- A script of several kinds, with a text that holds a zero and one whose length is not given. -/
theorem unpackAll_packAll_mixed :
    (unpackAll
        [.int 0 13 .hex, .str "" (some 3), .array .words [0, 0] (some 40) .hex, .str "" none]
        (packAll
          [.int 0xFFFF 13 .hex, .str "a\x00b" none, .array .words [0x12345678, 9] (some 40) .hex,
            .str "né" none]
          ({ settings := { useMetadata := true } } : Packer).reset).commit).1 =
      [.int 0x1FFF 13 .hex, .str "a\x00b" (some 3), .array .words [0x78, 9] (some 40) .hex,
        .str "né" none] :=
  (unpackAll_packAll { settings := { useMetadata := true } }
    [(.int 0xFFFF 13 .hex, .int 0 13 .hex), (.str "a\x00b" none, .str "" (some 3)),
      (.array .words [0x12345678, 9] (some 40) .hex, .array .words [0, 0] (some 40) .hex),
      (.str "né" none, .str "" none)]
    (by simp [FieldData.WithinLimits, ArrayKind.unit]; decide)
    (by simp [FieldData.Fits]; decide)
    (fun _ _ _ _ => Or.inl rfl)).1.trans (by decide)

end Packer

end FieldAutomation
