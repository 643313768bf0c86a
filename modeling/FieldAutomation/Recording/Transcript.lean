import FieldAutomation.Recording.Event

/-!
# The text transcript

A transcript tells the events of all its streams and recorders in a file, one line per event, with
the time at which it was written.  Lines are written only while the file is open, always at its
end.  Where the name of the file leads, and whether anything can be written there, is up to the
system: each attempt to open the file is told what it has found.

* `TranscriptEvent`, `TranscriptEvent.line`: the lines;
* `Outlet`: what an attempt to open the file can find;
* `Transcript`: the files with the one that is open, with `attach`, `detach` and `write`.

Main statements: `Transcript.content_write_self`, `Transcript.content_write_of_ne` (a line goes to
the end of the open file and nowhere else).
-/

namespace FieldAutomation

/-! ### Lines -/

/-- What a line tells. -/
inductive TranscriptEvent where
  | stream (handle : Nat) (name typeName scope : String)
  /-- An event of a recorder on a stream. -/
  | trace (owner : Nat) (event : TraceEvent)
  | link (left right : Nat) (relation : String)
  deriving DecidableEq, Repr

namespace TranscriptEvent

/-- The word that a line starts with. -/
def keyword : TranscriptEvent → String
  | stream .. => "CREATE_STREAM"
  | trace _ (.opened ..) => "OPEN_RECORDER"
  | trace _ (.closed ..) => "CLOSE_RECORDER"
  | trace _ (.freed ..) => "FREE_RECORDER"
  | trace _ (.recorded _) => "SET_ATTR"
  | link .. => "LINK"

/-- What a line holds between its braces. -/
def body : TranscriptEvent → String
  | stream handle name typeName scope =>
    s!"NAME:{name} T:{typeName} SCOPE:{scope} STREAM:{handle}"
  | trace owner (.opened handle name time typeName) =>
    s!"TXH:{handle} STREAM:{owner} NAME:{name} TIME:{time} TYPE=\"{typeName}\""
  | trace _ (.closed handle time) => s!"TXH:{handle} TIME={time}"
  | trace _ (.freed handle _) => s!"TXH:{handle}"
  | trace _ (.recorded a) =>
    s!"TXH:{a.handle} NAME:{a.name} VALUE:{a.value} RADIX:{a.radix.name} BITS:{a.bits}"
  | link left right relation => s!"TXH1:{left} TXH2:{right} RELATION={relation}"

/-- The line that tells of an event at a time. -/
def line (e : TranscriptEvent) (now : Nat) : String :=
  e.keyword ++ " @" ++ toString now ++ " \x7b" ++ e.body ++ "\x7d"

end TranscriptEvent

/-! ### Files -/

/-- Where the lines of a transcript go while it is open. -/
inductive Outlet where
  /-- A file, which takes every line. -/
  | file (name : String)
  /-- Something that refuses every line, such as a device that is full. -/
  | refusing
  /-- Something that takes every line and keeps none. -/
  | swallowing
  deriving DecidableEq, Repr

/-- The files of a transcript, and the one that is open. -/
structure Transcript where
  fileName : String
  opened : Option Outlet := none
  /-- A line was refused that is tried again when the transcript is closed. -/
  heldBack : Bool := false
  now : Nat := 0
  /-- The stream handle that was handed out last. -/
  lastStream : Nat := 0
  /-- Names and contents of files. -/
  files : List (String × String) := []
  deriving DecidableEq, Repr, Inhabited

namespace Transcript

variable (t : Transcript)

/-- The content of a file. -/
def content? (name : String) : Option String := t.files.lookup name

/-- The lines of a file; the last one is what follows the last line break. -/
def lines? (name : String) : Option (List String) :=
  (t.content? name).map fun text => (text.toList.splitOn '\n').map String.ofList

/-- Whether a file is open. -/
def isOpen : Bool := t.opened.isSome

/-- Adds text at the end of a file, which is made if it is missing. -/
def append (name text : String) : List (String × String) → List (String × String)
  | [] => [(name, text)]
  | f :: rest => if f.1 = name then (name, f.2 ++ text) :: rest else f :: append name text rest

/-- Opens an outlet. -/
def attach (outlet : Outlet) : Transcript :=
  match outlet with
  | .file name =>
    { t with opened := some outlet, heldBack := false, files := append name "" t.files }
  | .refusing | .swallowing => { t with opened := some outlet, heldBack := false }

/-- Closes what is open. -/
def detach : Transcript := { t with opened := none, heldBack := false }

/-- How many bytes of a refused line are kept to be tried again. -/
def bufferSize : Nat := 1024

/-- Writes a line; false when it was refused.  Of refused lines the first that is short enough and
has no line break is held back. -/
def write (line : String) : Bool × Transcript :=
  match t.opened with
  | none | some .swallowing => (true, t)
  | some (.file name) => (true, { t with files := append name (line ++ "\n") t.files })
  | some .refusing =>
    let held := decide (line.utf8ByteSize < bufferSize) && !line.toList.contains '\n'
    (false, { t with heldBack := t.heldBack || held })

theorem lookup_append_self (name text : String) (files : List (String × String)) :
    (append name text files).lookup name = some ((files.lookup name).getD "" ++ text) := by
  induction files with
  | nil => simp [append]
  | cons f rest ih =>
    obtain ⟨k, content⟩ := f
    by_cases h : k = name
    · subst h
      simp [append]
    · have h' : (name == k) = false := by simpa using Ne.symm h
      simp [append, h, List.lookup_cons, h', ih]

theorem lookup_append_of_ne {name other : String} (text : String)
    (files : List (String × String)) (h : other ≠ name) :
    (append name text files).lookup other = files.lookup other := by
  have h' : (other == name) = false := by simpa using h
  induction files with
  | nil => simp [append, List.lookup_cons, h']
  | cons f rest ih =>
    obtain ⟨k, content⟩ := f
    by_cases hf : k = name
    · simp [append, hf, List.lookup_cons, h']
    · simp only [append, hf, if_false, List.lookup_cons]
      rw [ih]

/-- A line goes to the end of the open file … -/
theorem content_write_self {name : String} (h : t.opened = some (.file name)) (line : String) :
    (t.write line).2.content? name = some ((t.content? name).getD "" ++ (line ++ "\n")) := by
  simp [write, h, content?, lookup_append_self]

/-- … and to no other. -/
theorem content_write_of_ne {name : String} (h : t.opened ≠ some (.file name)) (line : String) :
    (t.write line).2.content? name = t.content? name := by
  unfold write content?
  split
  case h_3 other heq =>
    have hne : name ≠ other := fun he => h (by rw [heq, he])
    simpa using lookup_append_of_ne (line ++ "\n") t.files hne
  all_goals rfl

end Transcript

end FieldAutomation
