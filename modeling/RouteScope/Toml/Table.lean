import RouteScope.Toml.Value

/-!
# Tables under construction

A document defines its tables piece by piece: a header opens a table, a header
in double brackets adds an element to a list of tables, and a dotted key
reaches into tables below the one that is open.  Each table may be defined in
one way only, so a table under construction remembers how it came about.
-/

namespace RouteScope.Toml

/-- How a table came about: it has a header or is an element of a list, there is a header
of a table below it, or a dotted key leads through it. -/
inductive Origin where
  | header
  | above
  | dotted
deriving DecidableEq, Repr

/-- An entry of a table under construction: a finished value, a table that may still grow,
or a list of tables of which the last one may. -/
inductive Item where
  | value (value : Value)
  | table (origin : Origin) (entries : List (String × Item))
  | tables (before : List (List (String × Item))) (last : List (String × Item))

/-- The entries of a table under construction. -/
abbrev Entries := List (String × Item)

namespace Entries

/-- Changes the entry with a key, or adds one behind all others. -/
def alter (key : String) (change : Option Item → Option Item) : Entries → Option Entries
  | [] => (change none).map fun item => [(key, item)]
  | (other, item) :: entries =>
      if other = key then
        (change (some item)).map fun item => (key, item) :: entries
      else
        (alter key change entries).map ((other, item) :: ·)

/-- Changes the table at the end of a path.  Tables that are missing on the way
get the given origin, and a list of tables stands for its last element.  No
dotted key leads into a table that a header defines. -/
def modifyAt (missing : Origin) (change : Origin → Entries → Option Entries) :
    List String → Origin → Entries → Option Entries
  | [], origin, entries => change origin entries
  | key :: path, _, entries =>
      entries.alter key fun
        | none => (modifyAt missing change path missing []).map (.table missing)
        | some (.value _) => none
        | some (.table origin below) =>
            if missing = .dotted ∧ origin = .header then
              none
            else
              (modifyAt missing change path origin below).map (.table origin)
        | some (.tables before last) =>
            (modifyAt missing change path .header last).map (.tables before)

/-- Opens the table that a header names. -/
def openTable (path : List String) (key : String) (entries : Entries) : Option Entries :=
  modifyAt .above (fun _ entries => entries.alter key fun
    | none => some (.table .header [])
    | some (.table .above below) => some (.table .header below)
    | _ => none) path .header entries

/-- Adds an element to the list of tables that a header names. -/
def openElement (path : List String) (key : String) (entries : Entries) : Option Entries :=
  modifyAt .above (fun _ entries => entries.alter key fun
    | none => some (.tables [] [])
    | some (.tables before last) => some (.tables (before ++ [last]) [])
    | _ => none) path .header entries

/-- Gives a value to a key.  A dotted key ends in a table that only dotted keys
define, and no key gets two values. -/
def assign (path : List String) (key : String) (value : Value) (entries : Entries) :
    Option Entries :=
  modifyAt .dotted (fun origin entries =>
    if path = [] ∨ origin = .dotted then
      entries.alter key fun
        | none => some (.value value)
        | some _ => none
    else
      none) path .header entries

/-- Gives a value to a key of the table that is open at a path. -/
def assignAt (table : List String) (path : List String) (key : String) (value : Value)
    (entries : Entries) : Option Entries :=
  modifyAt .above (fun _ => assign path key value) table .header entries

end Entries

mutual

def Item.finish : Item → Value
  | .value value => value
  | .table _ entries => .table (finishEntries entries)
  | .tables before last => .array (finishTables before ++ [.table (finishEntries last)])

def finishEntries : List (String × Item) → List (String × Value)
  | [] => []
  | (key, item) :: entries => (key, item.finish) :: finishEntries entries

def finishTables : List (List (String × Item)) → List Value
  | [] => []
  | entries :: tables => .table (finishEntries entries) :: finishTables tables

end

end RouteScope.Toml
