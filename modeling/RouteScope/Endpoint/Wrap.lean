import RouteScope.Text.Split

/-!
# Wrapping at a separator

A long text is shown on several lines, broken only in front of a separator.
The text is cut into tokens at the separator.  A line is a run of tokens, and
its width is the number of characters of its tokens; the separators that are
put back between them do not count.  A token opens a new line when the line so
far has some width and would grow beyond the limit.  A token is never cut, so
one that is too long by itself stands alone or behind empty tokens.
-/

namespace RouteScope.Endpoint

/-- A run of tokens that are shown on one line. -/
abbrev Line := List (List Char)

/-- Distributes tokens over the line in progress, which is `used` characters
wide, and over further lines. -/
def fill (limit : Nat) : Nat → List (List Char) → Line × List Line
  | _, [] => ([], [])
  | used, token :: tokens =>
      if 0 < used ∧ limit < used + token.length then
        let (line, lines) := fill limit token.length tokens
        ([], (token :: line) :: lines)
      else
        let (line, lines) := fill limit (used + token.length) tokens
        (token :: line, lines)

/-- The lines that hold the tokens in their order, none of them empty. -/
def lines (limit : Nat) : List (List Char) → List Line
  | [] => []
  | token :: tokens =>
      let (line, lines) := fill limit token.length tokens
      (token :: line) :: lines

/-- The text of a line other than the first: each token has the separator in
front of it. -/
def continued (separator : List Char) (line : Line) : List Char :=
  line.flatMap (separator ++ ·)

/-- The text of each line; only the first token of all has no separator in
front of it. -/
def lineTexts (separator : List Char) : List Line → List (List Char)
  | [] => []
  | line :: lines => separator.intercalate line :: lines.map (continued separator)

/-- The lines of a text that is wrapped at `separator`.  Nothing is wrapped at
an empty separator. -/
def wrapLines (separator : String) (limit : Nat) (text : String) : List String :=
  if separator.isEmpty then
    [text]
  else
    (lineTexts separator.toList
      (lines limit (Text.pieces separator.toList text.toList))).map String.ofList

/-- The text with `lineBreak` between its lines. -/
def wrap (separator lineBreak : String) (limit : Nat) (text : String) : String :=
  lineBreak.intercalate (wrapLines separator limit text)

end RouteScope.Endpoint
