import RouteScope.Json.Basic
import RouteScope.Text.Hex

/-!
# Reading JSON

A reader takes characters from the front of a text and gives back a value and
the rest of the text.  Between tokens there may be blanks, tabs, line feeds and
carriage returns.  `read?` wants the whole text to be one value.

A value that is nested `n` levels deep has more than `n` characters, so the
length of the text is enough for the reader to count its levels down.
-/

namespace RouteScope.Json

/-- The text behind the blanks at its front. -/
def skipBlanks : List Char → List Char
  | [] => []
  | c :: text =>
      if c = ' ' ∨ c = '\t' ∨ c = '\n' ∨ c = '\r' then skipBlanks text else c :: text

/-- The number that four hexadecimal digits spell. -/
def hexValues? (a b c d : Char) : Option Nat := do
  let a ← Text.hexValue? a
  let b ← Text.hexValue? b
  let c ← Text.hexValue? c
  let d ← Text.hexValue? d
  return 4096 * a + 256 * b + 16 * c + d

/-- The character for which a letter behind a backslash stands. -/
def letterEscape? (c : Char) : Option Char :=
  match c with
  | '"' => some '"'
  | '\\' => some '\\'
  | '/' => some '/'
  | 'b' => some '\x08'
  | 'f' => some '\x0c'
  | 'n' => some '\n'
  | 'r' => some '\r'
  | 't' => some '\t'
  | _ => none

/-- The inside of a string up to its closing quote.  A character is given as
itself, and an escape by four digits as a unit of UTF-16. -/
def readUnits : List Char → Option (List (Char ⊕ Nat) × List Char)
  | [] => none
  | '"' :: text => some ([], text)
  | '\\' :: 'u' :: a :: b :: c :: d :: text => do
      let unit ← hexValues? a b c d
      let (units, rest) ← readUnits text
      return (.inr unit :: units, rest)
  | '\\' :: c :: text => do
      let c ← letterEscape? c
      let (units, rest) ← readUnits text
      return (.inl c :: units, rest)
  | c :: text =>
      if c.toNat < 32 ∨ c = '\\' then
        none
      else do
        let (units, rest) ← readUnits text
        return (.inl c :: units, rest)

/-- The text that is spelled by characters and units of UTF-16.  Two units that
make a pair stand for one character, and there is no text if a unit of a pair
stands alone. -/
def decodeUnits? : List (Char ⊕ Nat) → Option (List Char)
  | [] => some []
  | .inl c :: units => (decodeUnits? units).map (c :: ·)
  | .inr unit :: units =>
      if unit < 0xD800 ∨ 0xDFFF < unit then
        (decodeUnits? units).map (Char.ofNat unit :: ·)
      else
        match units with
        | .inr low :: units =>
            if unit < 0xDC00 ∧ 0xDC00 ≤ low ∧ low ≤ 0xDFFF then
              (decodeUnits? units).map
                (Char.ofNat (0x10000 + 0x400 * (unit - 0xD800) + (low - 0xDC00)) :: ·)
            else
              none
        | _ => none

/-- A string, behind its opening quote. -/
def readString (text : List Char) : Option (Option String × List Char) := do
  let (units, rest) ← readUnits text
  return ((decodeUnits? units).map String.ofList, rest)

/-- One or more digits. -/
def readDigits (text : List Char) : Option (List Char × List Char) :=
  match text.span Char.isDigit with
  | ([], _) => none
  | (digits, rest) => some (digits, rest)

/-- The digits before the point, of which the first is zero only if it is
alone. -/
def readWhole : List Char → Option (List Char × List Char)
  | '0' :: text => some (['0'], text)
  | text => readDigits text

/-- A point with digits behind it, or nothing. -/
def readFraction : List Char → Option (List Char × List Char)
  | '.' :: text => do
      let (digits, rest) ← readDigits text
      return ('.' :: digits, rest)
  | text => some ([], text)

/-- An exponent, or nothing. -/
def readExponent : List Char → Option (List Char × List Char)
  | c :: text =>
      if c = 'e' ∨ c = 'E' then
        match text with
        | sign :: text' =>
            if sign = '+' ∨ sign = '-' then do
              let (digits, rest) ← readDigits text'
              return (c :: sign :: digits, rest)
            else do
              let (digits, rest) ← readDigits text
              return (c :: digits, rest)
        | [] => none
      else
        some ([], c :: text)
  | [] => some ([], [])

/-- A number without its sign. -/
def readUnsigned (text : List Char) : Option (List Char × List Char) := do
  let (whole, text) ← readWhole text
  let (fraction, text) ← readFraction text
  let (exponent, text) ← readExponent text
  return (whole ++ fraction ++ exponent, text)

/-- A number. -/
def readNumber : List Char → Option (Json × List Char)
  | '-' :: text => do
      let (digits, rest) ← readUnsigned text
      return (number (String.ofList ('-' :: digits)), rest)
  | text => do
      let (digits, rest) ← readUnsigned text
      return (number (String.ofList digits), rest)

/-- The rest of a list behind one of its items. -/
def readItems (readValue : List Char → Option (Json × List Char)) :
    Nat → List Char → Option (List Json × List Char)
  | 0, _ => none
  | bound + 1, text =>
      match skipBlanks text with
      | ']' :: rest => some ([], rest)
      | ',' :: text => do
          let (item, text) ← readValue text
          let (items, rest) ← readItems readValue bound text
          return (item :: items, rest)
      | _ => none

/-- A key with its colon and its value. -/
def readMember (readValue : List Char → Option (Json × List Char)) (text : List Char) :
    Option ((Option String × Json) × List Char) :=
  match skipBlanks text with
  | '"' :: text => do
      let (key, text) ← readString text
      match skipBlanks text with
      | ':' :: text => do
          let (value, rest) ← readValue text
          return ((key, value), rest)
      | _ => none
  | _ => none

/-- The rest of an object behind one of its members. -/
def readMembers (readValue : List Char → Option (Json × List Char)) :
    Nat → List Char → Option (List (Option String × Json) × List Char)
  | 0, _ => none
  | bound + 1, text =>
      match skipBlanks text with
      | '\x7d' :: rest => some ([], rest)
      | ',' :: text => do
          let (member, text) ← readMember readValue text
          let (members, rest) ← readMembers readValue bound text
          return (member :: members, rest)
      | _ => none

/-- A value that is nested less than the given number of levels deep. -/
def readValue : Nat → List Char → Option (Json × List Char)
  | 0, _ => none
  | level + 1, text =>
      match skipBlanks text with
      | 'n' :: 'u' :: 'l' :: 'l' :: rest => some (null, rest)
      | 't' :: 'r' :: 'u' :: 'e' :: rest => some (bool true, rest)
      | 'f' :: 'a' :: 'l' :: 's' :: 'e' :: rest => some (bool false, rest)
      | '"' :: text => do
          let (text?, rest) ← readString text
          return (string text?, rest)
      | '[' :: text =>
          match skipBlanks text with
          | ']' :: rest => some (array [], rest)
          | text => do
              let (item, text) ← readValue level text
              let (items, rest) ← readItems (readValue level) text.length.succ text
              return (array (item :: items), rest)
      | '\x7b' :: text =>
          match skipBlanks text with
          | '\x7d' :: rest => some (object [], rest)
          | text => do
              let (member, text) ← readMember (readValue level) text
              let (members, rest) ← readMembers (readValue level) text.length.succ text
              return (object (member :: members), rest)
      | text => readNumber text

/-- The value that the whole text spells. -/
def read? (text : String) : Option Json := do
  let (value, rest) ← readValue text.toList.length.succ text.toList
  guard (skipBlanks rest).isEmpty
  return value

end RouteScope.Json
