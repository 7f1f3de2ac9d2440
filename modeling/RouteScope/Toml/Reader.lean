import RouteScope.Toml.Moment
import RouteScope.Toml.Number
import RouteScope.Toml.String
import RouteScope.Toml.Table

/-!
# Reading TOML

A document is read in two steps.  `readStatements` takes its lines one by one,
each of them empty, a header or an assignment.  `assemble` puts the tables
together and refuses whatever is defined twice.

Lists and tables inside a value may be nested 79 levels deep, and a dotted key
may have 79 parts.
-/

namespace RouteScope.Toml

/-! ## Keys -/

/-- Whether the character may stand in a key without quotes. -/
def isBareKey (c : Char) : Bool :=
  ('a' ≤ c && c ≤ 'z') || ('A' ≤ c && c ≤ 'Z') || c.isDigit || c == '-' || c == '_'

def readKeyPart : List Char → Option (List Char × List Char)
  | '"' :: text => readBasic text
  | '\'' :: text => readLiteral text
  | text =>
      match text.span isBareKey with
      | ([], _) => none
      | (part, rest) => some (part, rest)

/-- A key of at most the given number of parts, with the blanks around it. -/
def readKey : Nat → List Char → Option (List String × List Char)
  | 0, _ => none
  | parts + 1, text => do
      let (part, text) ← readKeyPart (skipBlanks text)
      match skipBlanks text with
      | '.' :: text => do
          let (key, rest) ← readKey parts text
          return (String.ofList part :: key, rest)
      | rest => return ([String.ofList part], rest)

/-- How deep a value may be nested, and how many parts a key may have. -/
def depthLimit : Nat := 79

/-- A key, cut before its last part. -/
def readPath (text : List Char) : Option ((List String × String) × List Char) := do
  let (key, rest) ← readKey depthLimit text
  return ((key.dropLast, ← key.getLast?), rest)

/-! ## Values -/

/-- A value that holds no others. -/
def readScalar (text : List Char) : Option (Value × List Char) :=
  match text with
  | 't' :: 'r' :: 'u' :: 'e' :: rest => some (.boolean true, rest)
  | 'f' :: 'a' :: 'l' :: 's' :: 'e' :: rest => some (.boolean false, rest)
  | c :: _ =>
      if c = '"' ∨ c = '\'' then do
        let (chars, rest) ← readString text
        return (.string (String.ofList chars), rest)
      else if beginsDate text || beginsTime text then
        readMoment text
      else
        readNumber text
  | [] => none

/-- The items of a list up to its end.  A comma may stand behind the last. -/
def readItems (readValue : List Char → Option (Value × List Char)) :
    Nat → List Char → Option (List Value × List Char)
  | 0, _ => none
  | bound + 1, text =>
      match skipSpace false text with
      | ']' :: rest => some ([], rest)
      | text => do
          let (item, text) ← readValue text
          match skipSpace false text with
          | ',' :: text => do
              let (items, rest) ← readItems readValue bound text
              return (item :: items, rest)
          | ']' :: rest => return ([item], rest)
          | _ => none

/-- A key with its value, and the blanks behind them. -/
def readAssignment (readValue : List Char → Option (Value × List Char))
    (text : List Char) : Option (((List String × String) × Value) × List Char) := do
  let (path, text) ← readPath text
  match text with
  | '=' :: text => do
      let (value, rest) ← readValue (skipBlanks text)
      return ((path, value), skipBlanks rest)
  | _ => none

/-- The assignments of an inline table up to its end. -/
def readAssignments (readValue : List Char → Option (Value × List Char)) :
    Nat → List Char → Option (List ((List String × String) × Value) × List Char)
  | 0, _ => none
  | bound + 1, text => do
      let (assignment, text) ← readAssignment readValue text
      match text with
      | ',' :: text => do
          let (assignments, rest) ← readAssignments readValue bound text
          return (assignment :: assignments, rest)
      | '\x7d' :: rest => return ([assignment], rest)
      | _ => none

/-- The inline table that assignments make up. -/
def inlineTable? (assignments : List ((List String × String) × Value)) : Option Value := do
  let entries ← assignments.foldlM
    (fun entries ((path, key), value) => Entries.assign path key value entries) []
  return .table (finishEntries entries)

/-- A value in which no more than the given number of lists and tables are
nested. -/
def readValue : Nat → List Char → Option (Value × List Char)
  | depth + 1, '[' :: text => do
      let (items, rest) ← readItems (readValue depth) text.length.succ text
      return (.array items, rest)
  | depth + 1, '\x7b' :: text =>
      match skipBlanks text with
      | '\x7d' :: rest => some (.table [], rest)
      | text => do
          let (assignments, rest) ← readAssignments (readValue depth) text.length.succ text
          return (← inlineTable? assignments, rest)
  | _, text => readScalar text

/-! ## Documents -/

/-- A line of a document: the header of a table or of an element of a list of tables, or
a key with its value. -/
inductive Statement where
  | table (path : List String) (key : String)
  | element (path : List String) (key : String)
  | assign (path : List String) (key : String) (value : Value)

/-- A header or an assignment. -/
def readStatement : List Char → Option (Statement × List Char)
  | '[' :: '[' :: text => do
      let ((path, key), text) ← readPath text
      match text with
      | ']' :: ']' :: rest => return (.element path key, rest)
      | _ => none
  | '[' :: text => do
      let ((path, key), text) ← readPath text
      match text with
      | ']' :: rest => return (.table path key, rest)
      | _ => none
  | text => do
      let (((path, key), value), rest) ← readAssignment (readValue depthLimit) text
      return (.assign path key value, rest)

/-- The statements of a document with at most the given number of lines. -/
def readStatements : Nat → List Char → Option (List Statement)
  | 0, _ => none
  | bound + 1, text =>
      match skipBlanks text with
      | [] => some []
      | c :: text =>
          if c = '#' ∨ c = '\n' ∨ c = '\r' then do
            let rest ← lineEnd? (c :: text)
            readStatements bound rest
          else do
            let (statement, text) ← readStatement (c :: text)
            let rest ← lineEnd? text
            let statements ← readStatements bound rest
            return statement :: statements

/-- Puts tables together.  `table` is the path of the table that is open. -/
def assemble (table : List String) (entries : Entries) : List Statement → Option Entries
  | [] => some entries
  | .table path key :: statements => do
      let entries ← entries.openTable path key
      assemble (path ++ [key]) entries statements
  | .element path key :: statements => do
      let entries ← entries.openElement path key
      assemble (path ++ [key]) entries statements
  | .assign path key value :: statements => do
      let entries ← entries.assignAt table path key value
      assemble table entries statements

/-- The text behind a byte order mark. -/
def skipMark : List Char → List Char
  | '\uFEFF' :: text => text
  | text => text

/-- The table that the whole text spells. -/
def read? (text : String) : Option (List (String × Value)) := do
  let chars := skipMark text.toList
  let statements ← readStatements chars.length.succ chars
  let entries ← assemble [] [] statements
  return finishEntries entries

end RouteScope.Toml
