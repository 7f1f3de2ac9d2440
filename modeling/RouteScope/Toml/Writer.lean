import RouteScope.Text.Hex
import RouteScope.Toml.Layout

/-!
# Writing TOML

A string is written in the first of four forms that shows it without escapes,
where a form on one line comes before the one with three marks.  A string that
needs escapes is written between quotation marks, and it goes over several
lines if it has a line feed.

A list of two or more strings has a line for each of them.  A document is a
list of sections with a blank line between two of them.
-/

namespace RouteScope.Toml

/-! ## Strings -/

/-- The four forms of a string: between quotation marks or apostrophes, one or three on
each side. -/
inductive StringForm where
  | basic
  | literal
  | basicLines
  | literalLines
deriving DecidableEq, Repr

/-- Whether a mark stands three times in a row. -/
def hasTriple (mark : Char) : List Char → Bool
  | a :: b :: c :: text =>
      (a == mark && b == mark && c == mark) || hasTriple mark (b :: c :: text)
  | _ => false

/-- The form in which a string is written. -/
def StringForm.ofChars (text : List Char) : StringForm :=
  if text.all fun c => isPlain c || c == '\n' then
    if !text.contains '\\' && !text.contains '\n' && !text.contains '"' then basic
    else if !text.contains '\n' && !text.contains '\'' then literal
    else if !text.contains '\\' && !hasTriple '"' text then basicLines
    else if !hasTriple '\'' text then literalLines
    else if text.contains '\n' then basicLines
    else basic
  else if text.contains '\n' then basicLines
  else basic

/-- The written form of a character between quotation marks. -/
def escape (c : Char) : List Char :=
  if c = '\x08' then ['\\', 'b']
  else if c = '\t' then ['\\', 't']
  else if c = '\n' then ['\\', 'n']
  else if c = '\x0c' then ['\\', 'f']
  else if c = '\r' then ['\\', 'r']
  else if c = '"' then ['\\', '"']
  else if c = '\\' then ['\\', '\\']
  else if isPlain c then [c]
  else ['\\', 'u', '0', '0', Text.hexDigit 'A' (c.toNat / 16), Text.hexDigit 'A' (c.toNat % 16)]

/-- The text between three quotation marks.  Line feeds stand for themselves,
and so do quotation marks unless two of them have just been written so;
`marks` counts those. -/
def escapeLines : Nat → List Char → List Char
  | _, [] => []
  | marks, c :: text =>
      if c = '\n' then
        '\n' :: escapeLines 0 text
      else if c = '"' ∧ marks < 2 then
        '"' :: escapeLines (marks + 1) text
      else
        escape c ++ escapeLines 0 text

/-- The line feed behind three opening marks.  It does not belong to the string,
and keeps a line feed at the front of the string from being taken for it. -/
def firstBreak (text : List Char) : List Char :=
  if text.contains '\n' then ['\n'] else []

def writeStringAs (text : List Char) : StringForm → List Char
  | .basic => '"' :: text.flatMap escape ++ ['"']
  | .literal => '\'' :: text ++ ['\'']
  | .basicLines => ['"', '"', '"'] ++ firstBreak text ++ escapeLines 0 text ++ ['"', '"', '"']
  | .literalLines => ['\'', '\'', '\''] ++ firstBreak text ++ text ++ ['\'', '\'', '\'']

def writeString (text : String) : List Char :=
  writeStringAs text.toList (.ofChars text.toList)

/-! ## Other values -/

def writeBoolean (value : Bool) : List Char :=
  (toString value).toList

def writeNatural (value : Nat) : List Char :=
  (toString value).toList

/-- A string on a line of its own in a list. -/
def writeItem (text : String) : List Char :=
  [' ', ' ', ' ', ' '] ++ writeString text ++ [',', '\n']

def writeStrings : List String → List Char
  | [] => ['[', ']']
  | [text] => '[' :: writeString text ++ [']']
  | texts => ['[', '\n'] ++ texts.flatMap writeItem ++ [']']

/-! ## Documents -/

def writeAssignment (key : String) (value : List Char) : List Char :=
  key.toList ++ [' ', '=', ' '] ++ value ++ ['\n']

def writeSection (key : String) (assignments : List (String × List Char)) : List Char :=
  '[' :: key.toList ++ [']', '\n'] ++
    assignments.flatMap fun (key, value) => writeAssignment key value

/-- A document of written sections. -/
def writeSections (sections : List (List Char)) : List Char :=
  ['\n'].intercalate sections

end RouteScope.Toml
