import RouteScope.Text.Hex
import RouteScope.Toml.Layout

/-!
# TOML strings

A string is written in one of four forms.  Between quotation marks a backslash
begins an escape, between apostrophes every character stands for itself.
Either form has a variant with three marks on each side, which may go over
several lines: a line break right behind the opening marks does not count, any
other one reads as a line feed, and one or two marks may stand anywhere inside,
at the end as well.

Each reader takes the text behind the opening marks and gives back the string
and the text behind the closing marks.
-/

namespace RouteScope.Toml

/-- The character whose number is spelled by hexadecimal digits. -/
def hexChar? (digits : List Char) : Option Char := do
  let values ← digits.mapM Text.hexValue?
  let code := values.foldl (fun code value => 16 * code + value) 0
  if code.isValidChar then some (Char.ofNat code) else none

/-- The character for which a letter behind a backslash stands. -/
def letterEscape? (c : Char) : Option Char :=
  match c with
  | 'b' => some '\x08'
  | 't' => some '\t'
  | 'n' => some '\n'
  | 'f' => some '\x0c'
  | 'r' => some '\r'
  | '"' => some '"'
  | '\\' => some '\\'
  | _ => none

def readBasic : List Char → Option (List Char × List Char)
  | [] => none
  | '"' :: text => some ([], text)
  | '\\' :: 'u' :: a :: b :: c :: d :: text => do
      let char ← hexChar? [a, b, c, d]
      let (chars, rest) ← readBasic text
      return (char :: chars, rest)
  | '\\' :: 'U' :: a :: b :: c :: d :: e :: f :: g :: h :: text => do
      let char ← hexChar? [a, b, c, d, e, f, g, h]
      let (chars, rest) ← readBasic text
      return (char :: chars, rest)
  | '\\' :: c :: text => do
      let char ← letterEscape? c
      let (chars, rest) ← readBasic text
      return (char :: chars, rest)
  | c :: text =>
      if isPlain c ∧ c ≠ '\\' then do
        let (chars, rest) ← readBasic text
        return (c :: chars, rest)
      else
        none

def readLiteral : List Char → Option (List Char × List Char)
  | [] => none
  | '\'' :: text => some ([], text)
  | c :: text =>
      if isPlain c then do
        let (chars, rest) ← readLiteral text
        return (c :: chars, rest)
      else
        none

/-- Whether nothing but blanks stands in front of the next line break. -/
def isBlankLine (text : List Char) : Bool :=
  (newLine? (skipBlanks text)).isSome

/-- A string between three quotation marks.  A backslash at the end of a line
joins the line with the next text; the flag tells whether blanks and line
breaks are being passed over for that reason. -/
def readBasicLines (joining : Bool) : List Char → Option (List Char × List Char)
  | [] => none
  | '"' :: '"' :: '"' :: '"' :: '"' :: text => some (['"', '"'], text)
  | '"' :: '"' :: '"' :: '"' :: text => some (['"'], text)
  | '"' :: '"' :: '"' :: text => some ([], text)
  | '\r' :: '\n' :: text =>
      if joining then
        readBasicLines true text
      else do
        let (chars, rest) ← readBasicLines false text
        return ('\n' :: chars, rest)
  | '\\' :: 'u' :: a :: b :: c :: d :: text => do
      let char ← hexChar? [a, b, c, d]
      let (chars, rest) ← readBasicLines false text
      return (char :: chars, rest)
  | '\\' :: 'U' :: a :: b :: c :: d :: e :: f :: g :: h :: text => do
      let char ← hexChar? [a, b, c, d, e, f, g, h]
      let (chars, rest) ← readBasicLines false text
      return (char :: chars, rest)
  | '\\' :: c :: text =>
      if isBlankLine (c :: text) then
        readBasicLines true (c :: text)
      else do
        let char ← letterEscape? c
        let (chars, rest) ← readBasicLines false text
        return (char :: chars, rest)
  | c :: text =>
      if joining ∧ (isBlank c ∨ c = '\n') then
        readBasicLines true text
      else if c = '\n' ∨ (isPlain c ∧ c ≠ '\\') then do
        let (chars, rest) ← readBasicLines false text
        return (c :: chars, rest)
      else
        none

def readLiteralLines : List Char → Option (List Char × List Char)
  | [] => none
  | '\'' :: '\'' :: '\'' :: '\'' :: '\'' :: text => some (['\'', '\''], text)
  | '\'' :: '\'' :: '\'' :: '\'' :: text => some (['\''], text)
  | '\'' :: '\'' :: '\'' :: text => some ([], text)
  | '\r' :: '\n' :: text => do
      let (chars, rest) ← readLiteralLines text
      return ('\n' :: chars, rest)
  | c :: text =>
      if c = '\n' ∨ isPlain c then do
        let (chars, rest) ← readLiteralLines text
        return (c :: chars, rest)
      else
        none

/-- The text behind a line break at its front, or the text itself. -/
def skipFirstBreak (text : List Char) : List Char :=
  (newLine? text).getD text

/-- A string in any of the four forms, with its opening marks. -/
def readString : List Char → Option (List Char × List Char)
  | '"' :: '"' :: '"' :: text => readBasicLines false (skipFirstBreak text)
  | '"' :: text => readBasic text
  | '\'' :: '\'' :: '\'' :: text => readLiteralLines (skipFirstBreak text)
  | '\'' :: text => readLiteral text
  | _ => none

end RouteScope.Toml
