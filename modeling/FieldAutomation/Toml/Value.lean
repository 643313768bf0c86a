/-!
# Values and tables of TOML

A document is a table of values, and tables are values themselves.  A table remembers how it came
about, because that decides what may still be added to it.  No setting is a float or a date, so
those two values keep nothing but their kind.

* `Value`, `Table`, `Origin`;
* `Table.define`: defines a key with its dotted keys;
* `Table.addTable`, `Table.addArrayTable`: what a header does.

Each key is defined once.  A table written between braces is complete.  Of the other tables that
have no header of their own,

* one that the header of a table below it implied may still get its own header, once;
* one that dotted keys made may be extended by dotted keys, and by headers below it.

An array of tables grows by its own headers only, and headers below it mean its last table.

Main statement: `Table.put_of_lookup_eq_none` (a new key comes after all others).
-/

namespace FieldAutomation

namespace Toml

/-- How a table came about. -/
inductive Origin where
  /-- Its own header. -/
  | header
  /-- The header of a table below it. -/
  | implied
  /-- A dotted key. -/
  | dotted
  /-- Braces. -/
  | braces
  deriving DecidableEq, Repr, Inhabited

/-- A value of a document. -/
inductive Value where
  | string (text : String)
  | integer (value : Int)
  | float
  | boolean (value : Bool)
  | dateTime
  | array (elements : List Value)
  | table (origin : Origin) (entries : List (String × Value))
  /-- An array of tables with headers: the last one, and those before it, latest first. -/
  | tables (last : List (String × Value)) (earlier : List (List (String × Value)))
  deriving Inhabited

/-- The entries of a table, in order of definition. -/
abbrev Table := List (String × Value)

/-- A key with the dotted keys before it, and its value. -/
structure Pair where
  path : List String
  key : String
  value : Value
  deriving Inhabited

/-- A line of a document that defines something. -/
inductive Statement where
  /-- A table header. -/
  | header (path : List String) (key : String)
  /-- The header of the next table of an array. -/
  | arrayHeader (path : List String) (key : String)
  | pair (pair : Pair)
  deriving Inhabited

namespace Table

/-- Puts a value under a key, in its old place if the key is there. -/
def put (key : String) (value : Value) : Table → Table
  | [] => [(key, value)]
  | e :: rest => if e.1 = key then (key, value) :: rest else e :: put key value rest

/-- A new key comes after all others. -/
theorem put_of_lookup_eq_none {key : String} {table : Table} (value : Value)
    (h : List.lookup key table = none) : put key value table = table ++ [(key, value)] := by
  induction table with
  | nil => rfl
  | cons e rest ih =>
    obtain ⟨hne, hrest⟩ : key ≠ e.1 ∧ List.lookup key rest = none := by
      simpa [List.lookup_cons] using h
    simp [put, Ne.symm hne, ih hrest]

/-- Changes the table at the end of a path.  Tables on the way that are missing are made, with
origin `origin`; of an array of tables the last one is meant.  `change` is told the origin of the
table it changes.  Dotted keys stay out of tables that have a header of their own. -/
def modify (origin : Origin) (change : Origin → Table → Option Table) :
    List String → Origin → Table → Option Table
  | [], here, table => change here table
  | key :: path, _, table =>
    match List.lookup key table with
    | none => do
      let inner ← modify origin change path origin []
      return put key (.table origin inner) table
    | some (.table there inner) =>
      if there = .braces ∨ (origin = .dotted ∧ there = .header) then none
      else do
        let inner ← modify origin change path there inner
        return put key (.table there inner) table
    | some (.tables last earlier) => do
      let last ← modify origin change path .header last
      return put key (.tables last earlier) table
    | some _ => none

/-- Defines a key with its dotted keys, the last of which has to stand for a table that dotted
keys made. -/
def define (p : Pair) (table : Table) : Option Table :=
  modify .dotted
    (fun here inner =>
      if decide (here = .dotted) = p.path.isEmpty then none
      else if (List.lookup p.key inner).isSome then none
      else some (put p.key p.value inner))
    p.path .header table

/-- Defines pairs one after the other. -/
def defineAll (pairs : List Pair) (table : Table) : Option Table :=
  pairs.foldlM (fun table p => define p table) table

/-- Adds a table with a header of its own. -/
def addTable (path : List String) (key : String) (pairs : List Pair) (table : Table) :
    Option Table :=
  modify .implied
    (fun _ outer =>
      match List.lookup key outer with
      | none => do return put key (.table .header (← defineAll pairs [])) outer
      | some (.table .implied inner) => do
        return put key (.table .header (← defineAll pairs inner)) outer
      | some _ => none)
    path .header table

/-- Adds the next table to an array of tables. -/
def addArrayTable (path : List String) (key : String) (pairs : List Pair) (table : Table) :
    Option Table :=
  modify .implied
    (fun _ outer =>
      match List.lookup key outer with
      | none => do return put key (.tables (← defineAll pairs []) []) outer
      | some (.tables last earlier) => do
        return put key (.tables (← defineAll pairs []) (last :: earlier)) outer
      | some _ => none)
    path .header table

end Table

end Toml

end FieldAutomation
