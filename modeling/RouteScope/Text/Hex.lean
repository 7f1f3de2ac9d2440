/-!
# Hexadecimal digits

The digits beyond nine are letters.  A reader takes them in either case, and a
writer says with which letter its digit for ten is written.
-/

namespace RouteScope.Text

/-- The value of a hexadecimal digit. -/
def hexValue? (c : Char) : Option Nat :=
  if '0' ≤ c ∧ c ≤ '9' then some (c.toNat - 48)
  else if 'a' ≤ c ∧ c ≤ 'f' then some (c.toNat - 87)
  else if 'A' ≤ c ∧ c ≤ 'F' then some (c.toNat - 55)
  else none

/-- The hexadecimal digit of a number below 16, where `ten` is that of ten. -/
def hexDigit (ten : Char) (n : Nat) : Char :=
  if n < 10 then Char.ofNat (48 + n) else Char.ofNat (ten.toNat + (n - 10))

theorem hexValue?_hexDigit {ten : Char} (hten : ten = 'a' ∨ ten = 'A') :
    ∀ n < 16, hexValue? (hexDigit ten n) = some n := by
  rcases hten with rfl | rfl <;> decide

end RouteScope.Text
