import RouteScope.Toml.Value

/-!
# TOML dates and times

A moment is a date, a time of day, or a date with a time and perhaps its
distance from universal time.  A date exists in the calendar, and a minute may
have a sixty-first second.
-/

namespace RouteScope.Toml

/-- The number that two decimal digits spell. -/
def twoDigits? (a b : Char) : Option Nat :=
  if a.isDigit && b.isDigit then some (10 * (a.toNat - 48) + (b.toNat - 48)) else none

/-- Whether the year has a leap day. -/
def isLeapYear (year : Nat) : Bool :=
  year % 4 == 0 && (year % 100 != 0 || year % 400 == 0)

/-- The number of days of a month. -/
def daysIn (year month : Nat) : Nat :=
  if month = 2 then (if isLeapYear year then 29 else 28)
  else if month ∈ [4, 6, 9, 11] then 30
  else 31

/-- The text behind a date at its front. -/
def skipDate? : List Char → Option (List Char)
  | y₁ :: y₂ :: y₃ :: y₄ :: '-' :: m₁ :: m₂ :: '-' :: d₁ :: d₂ :: rest => do
      let century ← twoDigits? y₁ y₂
      let year ← twoDigits? y₃ y₄
      let month ← twoDigits? m₁ m₂
      let day ← twoDigits? d₁ d₂
      guard (1 ≤ month ∧ month ≤ 12)
      guard (1 ≤ day ∧ day ≤ daysIn (100 * century + year) month)
      return rest
  | _ => none

/-- The text behind a fraction of a second at its front, if there is one. -/
def skipFraction? : List Char → Option (List Char)
  | '.' :: c :: text => if c.isDigit then some (text.dropWhile Char.isDigit) else none
  | '.' :: [] => none
  | text => some text

/-- The text behind a time of day at its front. -/
def skipTime? : List Char → Option (List Char)
  | h₁ :: h₂ :: ':' :: m₁ :: m₂ :: ':' :: s₁ :: s₂ :: rest => do
      let hour ← twoDigits? h₁ h₂
      let minute ← twoDigits? m₁ m₂
      let second ← twoDigits? s₁ s₂
      guard (hour ≤ 23 ∧ minute ≤ 59 ∧ second ≤ 60)
      skipFraction? rest
  | _ => none

/-- The text behind a distance from universal time at its front, if there is
one. -/
def skipOffset? : List Char → Option (List Char)
  | [] => some []
  | c :: text =>
      if c = 'Z' ∨ c = 'z' then
        some text
      else if c = '+' ∨ c = '-' then
        match text with
        | h₁ :: h₂ :: ':' :: m₁ :: m₂ :: rest => do
            let hour ← twoDigits? h₁ h₂
            let minute ← twoDigits? m₁ m₂
            guard (hour ≤ 23 ∧ minute ≤ 59)
            return rest
        | _ => none
      else
        some (c :: text)

/-- The text behind the time that belongs to a date, if there is one.  A blank
belongs to the moment only if a digit follows it. -/
def skipTimeOfDate? : List Char → Option (List Char)
  | c :: d :: text =>
      if c = 'T' ∨ c = 't' ∨ (c = ' ' ∧ d.isDigit) then
        (skipTime? (d :: text)).bind skipOffset?
      else
        some (c :: d :: text)
  | [c] => if c = 'T' ∨ c = 't' then none else some [c]
  | [] => some []

/-- Whether the text begins like a date. -/
def beginsDate : List Char → Bool
  | y₁ :: y₂ :: y₃ :: y₄ :: '-' :: _ => [y₁, y₂, y₃, y₄].all Char.isDigit
  | _ => false

/-- Whether the text begins like a time of day. -/
def beginsTime : List Char → Bool
  | h₁ :: h₂ :: ':' :: _ => h₁.isDigit && h₂.isDigit
  | _ => false

/-- A moment.  It is given by its written form. -/
def readMoment (text : List Char) : Option (Value × List Char) := do
  let rest ← if beginsDate text then (skipDate? text).bind skipTimeOfDate? else skipTime? text
  return (.moment (String.ofList (text.take (text.length - rest.length))), rest)

end RouteScope.Toml
