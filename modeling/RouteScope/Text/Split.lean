/-!
# Cutting text at a separator

`pieces` cuts a text at the occurrences of a separator, found from left to
right and without overlap.  The text between two occurrences is a piece, so
`n` occurrences give `n + 1` pieces and there is always at least one.  An
empty separator stands before, between and behind all characters: it gives an
empty piece at either end and a piece for each character.

`split` is the same on strings.  `splitFirst?` and `afterLast` cut a string
once, at the first or the last occurrence of a character.
-/

namespace RouteScope.Text

/-- The pieces of a text at a separator that is not empty.  The number says how
many characters of the occurrence found last are still to be passed over. -/
def cut (separator : List Char) : Nat → List Char → List (List Char)
  | _, [] => [[]]
  | pass + 1, _ :: rest => cut separator pass rest
  | 0, c :: rest =>
      if separator.isPrefixOf (c :: rest) then
        [] :: cut separator (separator.length - 1) rest
      else
        (cut separator 0 rest).modifyHead (c :: ·)

/-- The pieces of a text at a separator. -/
def pieces (separator text : List Char) : List (List Char) :=
  if separator.isEmpty then
    [] :: text.map (fun c => [c]) ++ [[]]
  else
    cut separator 0 text

/-- The pieces of a string at a separator. -/
def split (separator text : String) : List String :=
  (pieces separator.toList text.toList).map String.ofList

/-- The parts of a string before and behind its first `mark`, or `none` if
`mark` does not occur in it. -/
def splitFirst? (mark : Char) (text : String) : Option (String × String) :=
  match text.toList.span (· != mark) with
  | (_, []) => none
  | (front, _ :: rest) => some (String.ofList front, String.ofList rest)

/-- The part of a string behind its last `mark`; the whole string if `mark`
does not occur in it. -/
def afterLast (mark : Char) (text : String) : String :=
  String.ofList (text.toList.reverse.takeWhile (· != mark)).reverse

theorem cut_ne_nil (separator : List Char) (pass : Nat) (text : List Char) :
    cut separator pass text ≠ [] := by
  induction text generalizing pass with
  | nil => simp [cut]
  | cons c rest ih =>
      cases pass with
      | succ pass => simpa [cut] using ih pass
      | zero =>
          simp only [cut]
          split
          · simp
          · intro h
            exact ih 0 (by simpa using congrArg List.isEmpty h)

theorem pieces_ne_nil (separator text : List Char) :
    pieces separator text ≠ [] := by
  unfold pieces
  split
  · simp
  · exact cut_ne_nil separator 0 text

end RouteScope.Text
