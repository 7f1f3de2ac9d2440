import RouteScope.Json.Basic
import RouteScope.Text.Hex

/-!
# Printing JSON

`compact` leaves out all blanks.  `pretty` puts each item and each member on a
line of its own, two blanks further in than what holds it; an empty list is
`[]` and an empty object has no line either.

In a string a quote, a backslash and the control characters below a blank are
escaped, the usual ones by a letter and the others by four hexadecimal digits.
-/

namespace RouteScope.Json

/-- The written form of a character in a string. -/
def escape (c : Char) : List Char :=
  if c = '"' then ['\\', '"']
  else if c = '\\' then ['\\', '\\']
  else if c = '\n' then ['\\', 'n']
  else if c = '\r' then ['\\', 'r']
  else if c = '\t' then ['\\', 't']
  else if c.toNat = 8 then ['\\', 'b']
  else if c.toNat = 12 then ['\\', 'f']
  else if c.toNat < 32 then
    ['\\', 'u', '0', '0', Text.hexDigit 'a' (c.toNat / 16), Text.hexDigit 'a' (c.toNat % 16)]
  else [c]

def quote (text : String) : List Char :=
  '"' :: text.toList.flatMap escape ++ ['"']

/-- A string that is no text prints as if it were empty. -/
def quote? (text? : Option String) : List Char :=
  quote (text?.getD "")

mutual

/-- The written form without blanks. -/
def compactChars : Json → List Char
  | null => "null".toList
  | bool true => "true".toList
  | bool false => "false".toList
  | number digits => digits.toList
  | string text? => quote? text?
  | array [] => ['[', ']']
  | array (item :: items) => '[' :: compactChars item ++ compactItems items
  | object [] => ['\x7b', '\x7d']
  | object ((key, value) :: members) =>
      '\x7b' :: quote? key ++ ':' :: compactChars value ++ compactMembers members

/-- The items of a list behind its first, and the end of the list. -/
def compactItems : List Json → List Char
  | [] => [']']
  | item :: items => ',' :: compactChars item ++ compactItems items

/-- The members of an object behind its first, and the end of the object. -/
def compactMembers : List (Option String × Json) → List Char
  | [] => ['\x7d']
  | (key, value) :: members =>
      ',' :: quote? key ++ ':' :: compactChars value ++ compactMembers members

end

def compact (value : Json) : String :=
  String.ofList value.compactChars

/-- The beginning of a line at a level of nesting. -/
def newLine (level : Nat) : List Char :=
  '\n' :: List.replicate (2 * level) ' '

mutual

/-- The written form with lines, inside something at the given level. -/
def prettyChars (level : Nat) : Json → List Char
  | array (item :: items) =>
      '[' :: newLine (level + 1) ++ prettyChars (level + 1) item ++ prettyItems level items
  | object ((key, value) :: members) =>
      '\x7b' :: newLine (level + 1) ++ quote? key ++ ':' :: ' ' ::
        prettyChars (level + 1) value ++ prettyMembers level members
  | array [] => ['[', ']']
  | object [] => ['\x7b', '\x7d']
  | null => "null".toList
  | bool true => "true".toList
  | bool false => "false".toList
  | number digits => digits.toList
  | string text? => quote? text?

/-- The lines for the items of a list behind its first, and its end. -/
def prettyItems (level : Nat) : List Json → List Char
  | [] => newLine level ++ [']']
  | item :: items =>
      ',' :: newLine (level + 1) ++ prettyChars (level + 1) item ++ prettyItems level items

/-- The lines for the members of an object behind its first, and its end. -/
def prettyMembers (level : Nat) : List (Option String × Json) → List Char
  | [] => newLine level ++ ['\x7d']
  | (key, value) :: members =>
      ',' :: newLine (level + 1) ++ quote? key ++ ':' :: ' ' ::
        prettyChars (level + 1) value ++ prettyMembers level members

end

/-- The value with a line for each item and member. -/
def pretty (value : Json) : String :=
  String.ofList (value.prettyChars 0)

end RouteScope.Json
