/-!
# Layout of TOML text

What stands between the parts of a TOML document: blanks, line breaks and
comments.  A line is ended by a line feed, with or without a carriage return in
front of it.  A comment goes up to the end of its line and holds no control
characters but tabs.
-/

namespace RouteScope.Toml

/-- Whether the character separates the parts of a line. -/
def isBlank (c : Char) : Bool :=
  c == ' ' || c == '\t'

/-- Whether the character may stand for itself: it is a tab or no control
character of ASCII. -/
def isPlain (c : Char) : Bool :=
  c == '\t' || (32 ≤ c.toNat && c.toNat != 127)

/-- The text behind the blanks at its front. -/
def skipBlanks (text : List Char) : List Char :=
  text.dropWhile isBlank

/-- The text behind a line break at its front. -/
def newLine? : List Char → Option (List Char)
  | '\n' :: text => some text
  | '\r' :: '\n' :: text => some text
  | _ => none

/-- The text behind a comment at its front, if there is one. -/
def skipComment : List Char → List Char
  | '#' :: text => text.dropWhile isPlain
  | text => text

/-- The text behind the rest of a line, which must hold nothing but blanks and
a comment. -/
def lineEnd? (text : List Char) : Option (List Char) :=
  match skipComment (skipBlanks text) with
  | [] => some []
  | text => newLine? text

/-- The text behind blanks, line breaks and comments at its front.  The flag
tells whether the text begins inside a comment. -/
def skipSpace (comment : Bool) : List Char → List Char
  | [] => []
  | '\r' :: '\n' :: text => skipSpace false text
  | c :: text =>
      if c = '\n' then
        skipSpace false text
      else if comment then
        if isPlain c then skipSpace true text else c :: text
      else if isBlank c then
        skipSpace false text
      else if c = '#' then
        skipSpace true text
      else
        c :: text

end RouteScope.Toml
