import RouteScope.Toml.Value

/-!
# TOML numbers

A whole number is written in decimal digits with an optional sign, or without a
sign in base 16, 8 or 2.  An underscore may stand between two digits.  A
fraction needs a digit on both sides of the point.  Whole numbers take 64 bits
with a sign.  A number with a fraction or an exponent is rounded to the nearest
one with a binary significand of 53 bits; it is refused if that overflows above
all of them.
-/

namespace RouteScope.Toml

/-- The digits behind a first one.  An underscore counts only between two
digits. -/
def readMoreDigits (isDigit : Char → Bool) : List Char → Option (List Char × List Char)
  | [] => some ([], [])
  | '_' :: c :: text =>
      if isDigit c then do
        let (digits, rest) ← readMoreDigits isDigit text
        return (c :: digits, rest)
      else
        none
  | c :: text =>
      if isDigit c then do
        let (digits, rest) ← readMoreDigits isDigit text
        return (c :: digits, rest)
      else if c = '_' then
        none
      else
        some ([], c :: text)

/-- One or more digits. -/
def readDigits (isDigit : Char → Bool) : List Char → Option (List Char × List Char)
  | [] => none
  | c :: text =>
      if isDigit c then do
        let (digits, rest) ← readMoreDigits isDigit text
        return (c :: digits, rest)
      else
        none

/-- The digits of a whole number, of which the first is zero only if it is
alone. -/
def readWhole : List Char → Option (List Char × List Char)
  | '0' :: text => some (['0'], text)
  | text => readDigits Char.isDigit text

/-- The value of a digit in a base up to sixteen. -/
def digitValue (c : Char) : Nat :=
  if c.isDigit then c.toNat - 48
  else if 'a' ≤ c ∧ c ≤ 'f' then c.toNat - 87
  else c.toNat - 55

/-- The number that digits spell in a base. -/
def ofDigits (base : Nat) (digits : List Char) : Nat :=
  digits.foldl (fun value c => base * value + digitValue c) 0

/-- The whole number with the given sign, if it takes no more than 64 bits. -/
def integer? (negative : Bool) (magnitude : Nat) : Option Value :=
  let value : Int := if negative then -magnitude else magnitude
  if Int64.minValue.toInt ≤ value ∧ value ≤ Int64.maxValue.toInt then
    some (.integer (.ofInt value))
  else
    none

/-- A whole number in another base, behind its two leading characters. -/
def readInBase (base : Nat) (isDigit : Char → Bool) (text : List Char) :
    Option (Value × List Char) := do
  let (digits, rest) ← readDigits isDigit text
  return (← integer? false (ofDigits base digits), rest)

/-- The digits behind the point, and the sign and the digits of the exponent. -/
structure Decimals where
  fraction : List Char := []
  negative : Bool := false
  exponent : List Char := []

/-- An exponent, if there is one. -/
def readExponent (decimals : Decimals) : List Char → Option (Decimals × List Char)
  | c :: text =>
      if c = 'e' ∨ c = 'E' then do
        let (negative, text) := match text with
          | '-' :: text => (true, text)
          | '+' :: text => (false, text)
          | text => (false, text)
        let (exponent, rest) ← readDigits Char.isDigit text
        return ({ decimals with negative, exponent }, rest)
      else
        some (decimals, c :: text)
  | [] => some (decimals, [])

/-- A fraction and an exponent, as far as they are there. -/
def readDecimals : List Char → Option (Decimals × List Char)
  | '.' :: text => do
      let (fraction, text) ← readDigits Char.isDigit text
      readExponent { fraction } text
  | text => readExponent {} text

/-- Whether `significand * 10 ^ scale` is so large that the nearest binary
number with 53 bits would need an exponent above 1023.  `digits` is the number
of digits of the significand. -/
def overflows (significand digits : Nat) (scale : Int) : Bool :=
  let limit := Nat.pow 2 1024 - Nat.pow 2 970
  if significand = 0 then false
  else if 400 ≤ scale then true
  else if 0 ≤ scale then limit ≤ significand * Nat.pow 10 scale.toNat
  else if (digits : Int) ≤ -scale then false
  else limit * Nat.pow 10 (-scale).toNat ≤ significand

/-- The number with the given whole part and decimals, unless it overflows
above all numbers. -/
def float? (negative : Bool) (whole : List Char) (decimals : Decimals) : Option Value :=
  let digits := whole ++ decimals.fraction
  let exponent : Int := ofDigits 10 decimals.exponent
  let scale := (if decimals.negative then -exponent else exponent) - decimals.fraction.length
  if !negative && overflows (ofDigits 10 digits) digits.length scale then
    none
  else
    some (.float (String.ofList (
      (if negative then ['-'] else []) ++ whole ++ ['.'] ++ decimals.fraction ++ ['e'] ++
        (if decimals.negative then ['-'] else []) ++ decimals.exponent)))

def readUnsigned (negative : Bool) : List Char → Option (Value × List Char)
  | 'i' :: 'n' :: 'f' :: rest => some (.float (if negative then "-inf" else "inf"), rest)
  | 'n' :: 'a' :: 'n' :: rest => some (.float "nan", rest)
  | text => do
      let (whole, text) ← readWhole text
      let (decimals, rest) ← readDecimals text
      if decimals.fraction.isEmpty && decimals.exponent.isEmpty then
        return (← integer? negative (ofDigits 10 whole), rest)
      else
        return (← float? negative whole decimals, rest)

def readNumber : List Char → Option (Value × List Char)
  | '+' :: text => readUnsigned false text
  | '-' :: text => readUnsigned true text
  | '0' :: 'x' :: text =>
      readInBase 16 (fun c => c.isDigit || ('a' ≤ c && c ≤ 'f') || ('A' ≤ c && c ≤ 'F')) text
  | '0' :: 'o' :: text => readInBase 8 (fun c => '0' ≤ c && c ≤ '7') text
  | '0' :: 'b' :: text => readInBase 2 (fun c => c == '0' || c == '1') text
  | text => readUnsigned false text

end RouteScope.Toml
