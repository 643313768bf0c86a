import FieldAutomation.Settings.Document

/-!
# Settings with defaults

A document that is a list of sections, each with a header and with pairs under it, is taken apart
into its fields again.  A field that the document has is read as it was written, one that it
leaves out takes its default, and names of no setting are passed over; so a document may leave out
whatever has its default, whole sections too.

* `Plain`: the values that settings are written with;
* `Toml.Document.ofSections`: the lines of a list of sections;
* `PackerSettings.entries` and the like: the fields of a section under their names;
* `Settings.StatedBy`: a list of sections says of each field what it is, or leaves it out where it
  has its default.

Main statements: `Toml.Document.assemble_ofSections` (distinct names make a table of tables),
`Settings.ofTable?_assemble` (settings are read off any document that states them).
-/

namespace FieldAutomation

/-! ### Sections as tables -/

namespace Toml

/-- Pairs without dotted keys. -/
def pairsOf (entries : Table) : List Pair := entries.map fun e => ⟨[], e.1, e.2⟩

namespace Table

theorem define_key {key : String} {table : Table} (value : Value)
    (h : List.lookup key table = none) :
    define ⟨[], key, value⟩ table = some (table ++ [(key, value)]) := by
  simp [define, modify, h, put_of_lookup_eq_none value h]

/-- Pairs with new keys are added at the end, in their order. -/
theorem defineAll_pairsOf {entries table : Table} (h : ((table ++ entries).map (·.1)).Nodup) :
    defineAll (pairsOf entries) table = some (table ++ entries) := by
  induction entries generalizing table with
  | nil => simp [defineAll, pairsOf]
  | cons e rest ih =>
    have hnew : List.lookup e.1 table = none := by
      grind [List.lookup_eq_none_iff]
    have hrest : defineAll (pairsOf rest) (table ++ [e]) = some (table ++ [e] ++ rest) :=
      ih (by simpa using h)
    simp only [defineAll, pairsOf, List.map_cons, List.foldlM_cons] at hrest ⊢
    rw [define_key e.2 hnew]
    simpa using hrest

theorem addTable_key {key : String} {entries table : Table} (hkey : List.lookup key table = none)
    (h : (entries.map (·.1)).Nodup) :
    addTable [] key (pairsOf entries) table = some (table ++ [(key, .table .header entries)]) := by
  have hin : defineAll (pairsOf entries) [] = some entries := defineAll_pairsOf (by simpa using h)
  simp [addTable, modify, hkey, hin, put_of_lookup_eq_none _ hkey]

end Table

namespace Document

/-- The lines of sections: each has its header, and its pairs follow. -/
def ofSections (sections : List (String × Table)) : List Statement :=
  sections.flatMap fun s => .header [] s.1 :: (pairsOf s.2).map .pair

/-- The table that sections make. -/
def tableOf (sections : List (String × Table)) : Table :=
  sections.map fun s => (s.1, .table .header s.2)

theorem splitPairs_ofSections (pairs : List Pair) (sections : List (String × Table)) :
    splitPairs (pairs.map .pair ++ ofSections sections) = (pairs, ofSections sections) := by
  induction pairs with
  | nil => cases sections <;> simp [ofSections, splitPairs]
  | cons p rest ih => simp [splitPairs, ih]

theorem addTables_ofSections {sections : List (String × Table)} {table : Table}
    (hnames : ((table ++ tableOf sections).map (·.1)).Nodup)
    (hkeys : ∀ s ∈ sections, (s.2.map (·.1)).Nodup) :
    addTables (ofSections sections) table = some (table ++ tableOf sections) := by
  induction sections generalizing table with
  | nil => simp [ofSections, tableOf, addTables]
  | cons s rest ih =>
    have hnew : List.lookup s.1 table = none := by
      grind [List.lookup_eq_none_iff, tableOf]
    have hrest : addTables (ofSections rest) (table ++ [(s.1, .table .header s.2)]) =
        some (table ++ [(s.1, .table .header s.2)] ++ tableOf rest) :=
      ih (by simpa [tableOf] using hnames) fun s' hs' => hkeys s' (List.mem_cons_of_mem _ hs')
    have hlines : ofSections (s :: rest) =
        .header [] s.1 :: ((pairsOf s.2).map .pair ++ ofSections rest) := by
      simp [ofSections]
    rw [hlines, addTables, splitPairs_ofSections,
      Table.addTable_key hnew (hkeys s List.mem_cons_self)]
    simpa [tableOf] using hrest

/-- Sections with distinct names, each with distinct keys, make a table of tables. -/
theorem assemble_ofSections {sections : List (String × Table)}
    (hnames : (sections.map (·.1)).Nodup) (hkeys : ∀ s ∈ sections, (s.2.map (·.1)).Nodup) :
    assemble (ofSections sections) = some (tableOf sections) := by
  have hsplit := splitPairs_ofSections [] sections
  have hadd : addTables (ofSections sections) [] = some ([] ++ tableOf sections) :=
    addTables_ofSections (by simpa [tableOf, Function.comp_def] using hnames) hkeys
  simp only [List.map_nil, List.nil_append] at hsplit hadd
  simp [assemble, hsplit, Table.defineAll, hadd]

end Document

end Toml

open Toml (Value Table)

/-! ### Fields and their defaults -/

/-- The values that settings are written with. -/
inductive Plain where
  | boolean (b : Bool)
  | number (n : Nat)
  | text (s : String)
  deriving DecidableEq, Repr

namespace Plain

/-- As a value of a document. -/
def value : Plain → Value
  | boolean b => .boolean b
  | number n => .integer n
  | text s => .string s

/-- The word of a keyword. -/
def keyword {α : Type} [Keyword α] (a : α) : Plain := text (Keyword.text a)

@[simp] theorem decodeBool_boolean (b : Bool) : decodeBool (boolean b).value = some b := rfl

@[simp] theorem decodeNat_number (n : Nat) : decodeNat (number n).value = some n := by
  simp [decodeNat, value]

@[simp] theorem decodeString_text (s : String) : decodeString (text s).value = some s := rfl

@[simp] theorem decodeKeyword_keyword {α : Type} [Keyword α] (a : α) :
    decodeKeyword (keyword a).value = some a := Keyword.ofText?_text a

end Plain

/-- Names with plain values, in the order in which they are written. -/
abbrev Entries := List (String × Plain)

namespace Entries

/-- As entries of a table. -/
def table (entries : Entries) : Table := entries.map fun e => (e.1, e.2.value)

@[simp] theorem lookup_table (entries : Entries) (name : String) :
    List.lookup name entries.table = (List.lookup name entries).map Plain.value := by
  induction entries with
  | nil => rfl
  | cons e rest ih =>
    obtain ⟨key, v⟩ := e
    simp only [table, List.map_cons, List.lookup_cons] at ih ⊢
    cases name == key <;> simp [ih]

/-- Each field stands among the entries under its name, or it is left out and has its default. -/
def States (entries fields defaults : Entries) : Prop :=
  ∀ e ∈ fields, (List.lookup e.1 entries).or (List.lookup e.1 defaults) = some e.2

theorem lookup_of_mem {entries : Entries} (hn : (entries.map (·.1)).Nodup) {name : String}
    {v : Plain} (he : (name, v) ∈ entries) : List.lookup name entries = some v := by
  induction entries with
  | nil => cases he
  | cons e rest ih =>
    obtain ⟨key, v'⟩ := e
    obtain ⟨hnew, hrest⟩ := List.nodup_cons.1 hn
    obtain heq | hmem := List.mem_cons.1 he
    · cases heq
      exact List.lookup_cons_self
    · have hne : name ≠ key := fun h => hnew (List.mem_map.2 ⟨_, hmem, h⟩)
      rw [List.lookup_cons, beq_eq_false_iff_ne.2 hne]
      exact ih hrest hmem

/-- Fields state themselves. -/
theorem states_self {fields defaults : Entries} (h : (fields.map (·.1)).Nodup) :
    fields.States fields defaults := fun e he => by
  rw [lookup_of_mem h he, Option.some_or]

/-- Defaults need not be stated. -/
theorem states_nil {defaults : Entries} (h : (defaults.map (·.1)).Nodup) :
    States [] defaults defaults := fun e he => by
  rw [List.lookup_nil, Option.none_or, lookup_of_mem h he]

end Entries

/-- A field that is stated is read, whatever it is written with. -/
theorem Section.read_table {α : Type} {entries : Entries} {name : String} {encode : α → Plain}
    {decode : Value → Option α} {a default : α} (index : Nat)
    (hd : ∀ a, decode (encode a).value = some a)
    (h : (List.lookup name entries).or (some (encode default)) = some (encode a)) :
    (named entries.table).read index name decode default = some a := by
  have hinj : ∀ a b, encode a = encode b → a = b := fun a b hab => by
    simpa [hd] using congrArg (decode ·.value) hab
  cases hl : List.lookup name entries with
  | none =>
    rw [hl, Option.none_or, Option.some_inj] at h
    simp [read, get?, hl, hinj default a h]
  | some v =>
    rw [hl, Option.some_or, Option.some_inj] at h
    simp [read, get?, hl, h, hd]

/-! ### The sections -/

/-- The fields of the section under their names. -/
def PackerSettings.entries (s : PackerSettings) : Entries :=
  [("big-endian", .boolean s.bigEndian), ("use-metadata", .boolean s.useMetadata),
    ("physical", .boolean s.physicalFields), ("abstract", .boolean s.abstractFields),
    ("policy", .keyword s.policy)]

@[inherit_doc PackerSettings.entries]
def ComparerSettings.entries (s : ComparerSettings) : Entries :=
  [("policy", .keyword s.policy), ("check-type", .boolean s.checkType),
    ("show-max", .number s.showMax), ("severity", .keyword s.severity),
    ("verbosity", .keyword s.verbosity), ("physical", .boolean s.physicalFields),
    ("abstract", .boolean s.abstractFields)]

@[inherit_doc PackerSettings.entries]
def RecorderSettings.entries (s : RecorderSettings) : Entries :=
  [("policy", .keyword s.policy), ("identifier", .boolean s.identifier),
    ("default-radix", .keyword s.defaultRadix), ("physical", .boolean s.physicalFields),
    ("abstract", .boolean s.abstractFields)]

@[inherit_doc PackerSettings.entries]
def ReportSettings.entries (s : ReportSettings) : Entries :=
  [("max-verbosity", .keyword s.maxVerbosity)]

@[inherit_doc PackerSettings.entries]
def TranscriptSettings.entries (s : TranscriptSettings) : Entries :=
  [("file-name", .text s.fileName)]

open Plain (decodeBool_boolean decodeNat_number decodeString_text decodeKeyword_keyword)

theorem PackerSettings.nodup_entries (s : PackerSettings) : (s.entries.map (·.1)).Nodup := by
  simp [entries]

theorem PackerSettings.ofValue?_table {s : PackerSettings} {entries : Entries}
    (h : entries.States s.entries ({} : PackerSettings).entries) :
    ofValue? (.table .header entries.table) = some s := by
  simp only [Entries.States, PackerSettings.entries, List.forall_mem_cons, List.not_mem_nil] at h
  obtain ⟨h0, h1, h2, h3, h4, -⟩ := h
  simp [ofValue?, Section.ofValue?, Section.read_table 0 decodeBool_boolean h0,
    Section.read_table 1 decodeBool_boolean h1, Section.read_table 2 decodeBool_boolean h2,
    Section.read_table 3 decodeBool_boolean h3, Section.read_table 4 decodeKeyword_keyword h4]

theorem ComparerSettings.nodup_entries (s : ComparerSettings) : (s.entries.map (·.1)).Nodup := by
  simp [entries]

theorem ComparerSettings.ofValue?_table {s : ComparerSettings} {entries : Entries}
    (h : entries.States s.entries ({} : ComparerSettings).entries) :
    ofValue? (.table .header entries.table) = some s := by
  simp only [Entries.States, ComparerSettings.entries, List.forall_mem_cons, List.not_mem_nil] at h
  obtain ⟨h0, h1, h2, h3, h4, h5, h6, -⟩ := h
  simp [ofValue?, Section.ofValue?, Section.read_table 0 decodeKeyword_keyword h0,
    Section.read_table 1 decodeBool_boolean h1, Section.read_table 2 decodeNat_number h2,
    Section.read_table 3 decodeKeyword_keyword h3, Section.read_table 4 decodeKeyword_keyword h4,
    Section.read_table 5 decodeBool_boolean h5, Section.read_table 6 decodeBool_boolean h6]

theorem RecorderSettings.nodup_entries (s : RecorderSettings) : (s.entries.map (·.1)).Nodup := by
  simp [entries]

theorem RecorderSettings.ofValue?_table {s : RecorderSettings} {entries : Entries}
    (h : entries.States s.entries ({} : RecorderSettings).entries) :
    ofValue? (.table .header entries.table) = some s := by
  simp only [Entries.States, RecorderSettings.entries, List.forall_mem_cons, List.not_mem_nil] at h
  obtain ⟨h0, h1, h2, h3, h4, -⟩ := h
  simp [ofValue?, Section.ofValue?, Section.read_table 0 decodeKeyword_keyword h0,
    Section.read_table 1 decodeBool_boolean h1, Section.read_table 2 decodeKeyword_keyword h2,
    Section.read_table 3 decodeBool_boolean h3, Section.read_table 4 decodeBool_boolean h4]

theorem ReportSettings.nodup_entries (s : ReportSettings) : (s.entries.map (·.1)).Nodup := by
  simp [entries]

theorem ReportSettings.ofValue?_table {s : ReportSettings} {entries : Entries}
    (h : entries.States s.entries ({} : ReportSettings).entries) :
    ofValue? (.table .header entries.table) = some s := by
  simp only [Entries.States, ReportSettings.entries, List.forall_mem_cons, List.not_mem_nil] at h
  simp [ofValue?, Section.ofValue?, Section.read_table 0 decodeKeyword_keyword h.1]

theorem TranscriptSettings.nodup_entries (s : TranscriptSettings) :
    (s.entries.map (·.1)).Nodup := by
  simp [entries]

theorem TranscriptSettings.ofValue?_table {s : TranscriptSettings} {entries : Entries}
    (h : entries.States s.entries ({} : TranscriptSettings).entries) :
    ofValue? (.table .header entries.table) = some s := by
  simp only [Entries.States, TranscriptSettings.entries, List.forall_mem_cons,
    List.not_mem_nil] at h
  simp [ofValue?, Section.ofValue?, Section.read_table 0 decodeString_text h.1]

/-! ### The document -/

/-- Sections under their names, in the order in which they are written. -/
abbrev Sections := List (String × Entries)

namespace Sections

/-- The entries of a section; none when the section is missing. -/
def entriesOf (sections : Sections) (name : String) : Entries :=
  (List.lookup name sections).getD []

/-- As sections of a document. -/
def tables (sections : Sections) : List (String × Table) := sections.map fun s => (s.1, s.2.table)

/-- No section stands twice, and no name twice in a section. -/
structure Distinct (sections : Sections) : Prop where
  names : (sections.map (·.1)).Nodup
  keys : ∀ s ∈ sections, (s.2.map (·.1)).Nodup

theorem assemble_tables {sections : Sections} (h : sections.Distinct) :
    Toml.Document.assemble (Toml.Document.ofSections sections.tables) =
      some (Toml.Document.tableOf sections.tables) := by
  apply Toml.Document.assemble_ofSections
  · simpa [tables, Function.comp_def] using h.names
  · rw [tables, List.forall_mem_map]
    simpa [Entries.table, Function.comp_def] using h.keys

theorem lookup_tableOf (sections : Sections) (name : String) :
    List.lookup name (Toml.Document.tableOf sections.tables) =
      (List.lookup name sections).map fun entries => .table .header entries.table := by
  rw [Toml.Document.tableOf, tables, List.map_map]
  induction sections with
  | nil => rfl
  | cons s rest ih =>
    obtain ⟨key, entries⟩ := s
    simp only [List.map_cons, Function.comp_apply, List.lookup_cons]
    cases name == key <;> simp [ih]

end Sections

/-- A section is read through what its entries state; one that is missing has the defaults. -/
theorem Section.read_tableOf {α : Type} {sections : Sections} {name : String}
    {decode : Value → Option α} {fields : α → Entries} {a default : α} (index : Nat)
    (hread : ∀ {s : α} {entries : Entries}, entries.States (fields s) (fields default) →
      decode (.table .header entries.table) = some s)
    (hnodup : ((fields default).map (·.1)).Nodup)
    (h : (sections.entriesOf name).States (fields a) (fields default)) :
    (named (Toml.Document.tableOf sections.tables)).read index name decode default = some a := by
  cases hl : List.lookup name sections with
  | none =>
    rw [Sections.entriesOf, hl, Option.getD_none] at h
    have hd : some default = some a := by
      rw [← hread h, ← hread (Entries.states_nil hnodup)]
    simpa [read, get?, Sections.lookup_tableOf, hl] using hd
  | some entries =>
    rw [Sections.entriesOf, hl, Option.getD_some] at h
    simpa [read, get?, Sections.lookup_tableOf, hl] using hread h

namespace Settings

/-- The sections say what each field is, but for fields that have their default: those may be left
out.  Sections and names that no setting has may stand anywhere. -/
structure StatedBy (s : Settings) (sections : Sections) : Prop where
  packer : (sections.entriesOf "packer").States s.packer.entries ({} : PackerSettings).entries
  comparer :
    (sections.entriesOf "comparer").States s.comparer.entries ({} : ComparerSettings).entries
  recorder :
    (sections.entriesOf "recorder").States s.recorder.entries ({} : RecorderSettings).entries
  report : (sections.entriesOf "report").States s.report.entries ({} : ReportSettings).entries
  transcript :
    (sections.entriesOf "recording").States s.transcript.entries ({} : TranscriptSettings).entries

theorem ofTable?_tableOf {s : Settings} {sections : Sections} (h : s.StatedBy sections) :
    ofTable? (Toml.Document.tableOf sections.tables) = some s := by
  simp only [ofTable?,
    Section.read_tableOf 0 PackerSettings.ofValue?_table (PackerSettings.nodup_entries _) h.packer,
    Section.read_tableOf 1 ComparerSettings.ofValue?_table (ComparerSettings.nodup_entries _)
      h.comparer,
    Section.read_tableOf 2 RecorderSettings.ofValue?_table (RecorderSettings.nodup_entries _)
      h.recorder,
    Section.read_tableOf 3 ReportSettings.ofValue?_table (ReportSettings.nodup_entries _) h.report,
    Section.read_tableOf 4 TranscriptSettings.ofValue?_table (TranscriptSettings.nodup_entries _)
      h.transcript]
  rfl

/-- The settings of a document are those that its sections state. -/
theorem ofTable?_assemble {s : Settings} {sections : Sections} (hd : sections.Distinct)
    (h : s.StatedBy sections) :
    (Toml.Document.assemble (Toml.Document.ofSections sections.tables)).bind ofTable? = some s := by
  rw [Sections.assemble_tables hd, Option.bind_some, ofTable?_tableOf h]

/-- All fields, in sections. -/
def sections (s : Settings) : Sections :=
  [("packer", s.packer.entries), ("comparer", s.comparer.entries),
    ("recorder", s.recorder.entries), ("report", s.report.entries),
    ("recording", s.transcript.entries)]

theorem distinct_sections (s : Settings) : s.sections.Distinct where
  names := by simp [sections]
  keys := by
    simp [sections, PackerSettings.nodup_entries, ComparerSettings.nodup_entries,
      RecorderSettings.nodup_entries, ReportSettings.nodup_entries,
      TranscriptSettings.nodup_entries]

theorem statedBy_sections (s : Settings) : s.StatedBy s.sections where
  packer := Entries.states_self s.packer.nodup_entries
  comparer := Entries.states_self s.comparer.nodup_entries
  recorder := Entries.states_self s.recorder.nodup_entries
  report := Entries.states_self s.report.nodup_entries
  transcript := Entries.states_self s.transcript.nodup_entries

/-- No default has to be said. -/
theorem statedBy_nil : ({} : Settings).StatedBy [] where
  packer := Entries.states_nil (PackerSettings.nodup_entries _)
  comparer := Entries.states_nil (ComparerSettings.nodup_entries _)
  recorder := Entries.states_nil (RecorderSettings.nodup_entries _)
  report := Entries.states_nil (ReportSettings.nodup_entries _)
  transcript := Entries.states_nil (TranscriptSettings.nodup_entries _)

end Settings

end FieldAutomation
