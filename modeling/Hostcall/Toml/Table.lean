/-!
# Tables of a settings file

A TOML text is a list of statements: assignments and table headers. The statements build one
table, and each of them either extends it or contradicts an earlier one. What a statement may
extend depends on how a table came about, its `Origin`.

* A table is opened by at most one header, and only if no assignment made it.
* An assignment through a dotted name ends in a table that dotted names made.
* No statement reaches into a value, and an inline table is a value.
-/

namespace Hostcall.Toml

/-- How a table came about. -/
inductive Origin where
  /-- Written between braces. -/
  | inline
  /-- Opened by a header of its own. -/
  | header
  /-- Passed by the name in a header. -/
  | implied
  /-- Passed by the name in an assignment. -/
  | dotted
  deriving DecidableEq, Repr

/-- What a name stands for. No setting is a floating-point number or a moment in time, so those
are kept without their value. -/
inductive Item where
  | integer (value : Int)
  | boolean (value : Bool)
  | text (value : String)
  | real
  | moment
  | array (items : List Item)
  | table (origin : Origin) (entries : List (String × Item))
  /-- An array of tables, of which statements reach the latest. -/
  | tables (latest : List (String × Item)) (earlier : List (List (String × Item)))
  deriving Inhabited

/-- The entries of a table, in order of appearance. -/
abbrev Entries := List (String × Item)

/-- A dotted name: the tables that it passes and the entry that it ends at. -/
structure Path where
  tables : List String
  entry : String
  deriving DecidableEq, Repr

/-- A statement of a text. -/
inductive Statement where
  | assign (path : Path) (item : Item)
  | openTable (path : Path)
  | appendTable (path : Path)

namespace Entries

/-- Gives a name a new meaning, in its place if it has one. -/
def put (key : String) (item : Item) : Entries → Entries
  | [] => [(key, item)]
  | entry :: rest => if entry.1 = key then (key, item) :: rest else entry :: put key item rest

end Entries

/-- Whether a name that makes tables of the second origin may pass a table of the first. -/
def Origin.admits (found made : Origin) : Bool :=
  match found with
  | .inline => false
  | .header => made ≠ .dotted
  | .implied | .dotted => true

/-- Changes the table at the end of a list of names, and makes the tables that are missing. -/
def within (made : Origin) (change : Origin → Entries → Option Entries) :
    List String → Origin → Entries → Option Entries
  | [], origin, entries => change origin entries
  | key :: path, _, entries =>
    match entries.lookup key with
    | none => do
      let inner ← within made change path made []
      return entries.put key (.table made inner)
    | some (.table origin inner) =>
      if origin.admits made then do
        let inner ← within made change path origin inner
        return entries.put key (.table origin inner)
      else none
    | some (.tables latest earlier) => do
      let latest ← within made change path .header latest
      return entries.put key (.tables latest earlier)
    | some _ => none

/-- Gives a new name its meaning. The name is either plain and its table any but one that dotted
names made, or dotted and its table one of those. -/
def define (direct : Bool) (key : String) (item : Item) (origin : Origin) (entries : Entries) :
    Option Entries :=
  if decide (origin = .dotted) = direct then none
  else match entries.lookup key with
    | some _ => none
    | none => some (entries ++ [(key, item)])

/-- Follows a dotted name from a table and gives it its meaning there. -/
def assign (path : Path) (item : Item) : Origin → Entries → Option Entries :=
  within .dotted (define path.tables.isEmpty path.entry item) path.tables

/-- Opens the table of a name by a header. -/
def openTable (key : String) (entries : Entries) : Option Entries :=
  match entries.lookup key with
  | none => some (entries ++ [(key, .table .header [])])
  | some (.table .implied inner) => some (entries.put key (.table .header inner))
  | some _ => none

/-- Adds a table to the array of tables of a name. -/
def appendTable (key : String) (entries : Entries) : Option Entries :=
  match entries.lookup key with
  | none => some (entries ++ [(key, .tables [] [])])
  | some (.tables latest earlier) => some (entries.put key (.tables [] (latest :: earlier)))
  | some _ => none

/-- The table that the statements so far have built, and the names that lead to the table of the
last header. -/
structure Document where
  entries : Entries := []
  here : List String := []

namespace Document

/-- Carries a statement out. Assignments are relative to the last header, headers are not. -/
def apply (d : Document) : Statement → Option Document
  | .assign path item => do
    let entries ← within .implied (assign path item) d.here .header d.entries
    return { d with entries }
  | .openTable path => do
    let entries ← within .implied (fun _ => openTable path.entry) path.tables .header d.entries
    return { entries, here := path.tables ++ [path.entry] }
  | .appendTable path => do
    let entries ← within .implied (fun _ => appendTable path.entry) path.tables .header d.entries
    return { entries, here := path.tables ++ [path.entry] }

/-- The document that a list of statements builds, if none contradicts an earlier one. -/
def ofStatements? (statements : List Statement) : Option Document :=
  statements.foldlM apply {}

end Document

end Hostcall.Toml
