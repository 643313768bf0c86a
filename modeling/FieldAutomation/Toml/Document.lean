import FieldAutomation.Toml.Scalar

/-!
# TOML documents

Arrays and braced tables around the values without parts, the lines of a document, and the table
that they define.

* `value`: a value, with a bound on how many brackets may be open;
* `statements`: the lines of a document that define something, in order;
* `Document.assemble`: puts lines together to one table;
* `Document.parse`: the table that a text defines.
-/

namespace FieldAutomation

namespace Toml

open Reader

/-! ### Values with parts -/

/-- Dotted keys; the last one apart. -/
def pathAndKey : Reader (List String × String) := do
  let path ← keyPath
  match path.getLast? with
  | some key => return (path.dropLast, key)
  | none => failure

/-- Dotted keys, an equals sign, and a value. -/
def pair (value : Reader Value) : Reader Pair := do
  let (path, key) ← pathAndKey
  char '='
  blank
  let v ← value
  return ⟨path, key, v⟩

/-- An array. -/
def array (element : Reader Value) : Reader Value := do
  char '['
  let elements ← maybe do
    let elements ← separated (do filler; let v ← element; filler; return v) (char ',')
    let _ ← maybe (char ',')
    return elements
  filler
  char ']'
  return .array (elements.getD [])

/-- A table in braces. -/
def braces (value : Reader Value) : Reader Value := do
  char '\x7b'
  let pairs ← maybe (separated (do let p ← pair value; blank; return p) (char ','))
  blank
  char '\x7d'
  match Table.defineAll (pairs.getD []) [] with
  | some entries => return .table .braces entries
  | none => failure

/-- A value with at most `depth` brackets open at any place. -/
def value : Nat → Reader Value
  | 0 => scalar
  | depth + 1 => scalar <|> array (value depth) <|> braces (value depth)

/-! ### Lines -/

/-- A header of a table or of the next table of an array. -/
def headerLine : Reader Statement := do
  let statement ←
    (do
      literal ['[', '[']
      let (path, key) ← pathAndKey
      literal [']', ']']
      return .arrayHeader path key) <|>
    (do
      char '['
      let (path, key) ← pathAndKey
      char ']'
      return .header path key)
  lineRest
  return statement

/-- A pair on a line of its own. -/
def pairLine : Reader Statement := do
  let p ← pair (value (depthLimit - 1))
  lineRest
  return .pair p

/-- A line, which need not define anything. -/
def line : Reader (Option Statement) := do
  let statement ←
    (do comment; lineEnd; return none) <|> (do newline; return none) <|>
    (some <$> headerLine) <|> (some <$> pairLine)
  blank
  return statement

/-- The lines of a document that define something.  A byte order mark may come first. -/
def statements : Reader (List Statement) := do
  let _ ← maybe (char '\ufeff')
  blank
  let lines ← many line
  atEnd
  return lines.filterMap id

/-! ### The table of a document -/

namespace Document

/-- The pairs up to the next header, and what follows from that header on. -/
def splitPairs : List Statement → List Pair × List Statement
  | .pair p :: rest =>
    let (pairs, rest) := splitPairs rest
    (p :: pairs, rest)
  | rest => ([], rest)

theorem length_splitPairs_le (statements : List Statement) :
    (splitPairs statements).2.length ≤ statements.length := by
  induction statements with
  | nil => simp [splitPairs]
  | cons s rest ih =>
    cases s with
    | pair _ =>
      simp only [splitPairs, List.length_cons]
      omega
    | _ => simp [splitPairs]

/-- Adds the tables of headers, each with the pairs that follow it. -/
def addTables (statements : List Statement) (table : Table) : Option Table :=
  match statements with
  | [] => some table
  | s :: rest =>
    match s with
    | .header path key =>
      (Table.addTable path key (splitPairs rest).1 table).bind (addTables (splitPairs rest).2)
    | .arrayHeader path key =>
      (Table.addArrayTable path key (splitPairs rest).1 table).bind (addTables (splitPairs rest).2)
    | .pair _ => none
termination_by statements.length
decreasing_by all_goals exact Nat.lt_succ_of_le (length_splitPairs_le rest)

/-- The table that the lines of a document define. -/
def assemble (statements : List Statement) : Option Table :=
  (Table.defineAll (splitPairs statements).1 []).bind (addTables (splitPairs statements).2)

/-- The table that a text defines; `none` when the text is no document. -/
def parse (text : String) : Option Table := do
  let (statements, _) ← statements text.toList
  assemble statements

end Document

end Toml

end FieldAutomation
