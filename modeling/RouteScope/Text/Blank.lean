/-!
# Blank characters

The characters with the Unicode property `White_Space`, twenty-five in all.
-/

namespace RouteScope.Text

/-- The code points with the Unicode property `White_Space`, as closed ranges
in ascending order. -/
def blankRanges : List (Nat × Nat) :=
  [(0x09, 0x0D), (0x20, 0x20), (0x85, 0x85), (0xA0, 0xA0), (0x1680, 0x1680),
    (0x2000, 0x200A), (0x2028, 0x2029), (0x202F, 0x202F), (0x205F, 0x205F),
    (0x3000, 0x3000)]

/-- Whether the character has the Unicode property `White_Space`. -/
def isBlank (c : Char) : Bool :=
  blankRanges.any fun range => range.1 ≤ c.toNat && c.toNat ≤ range.2

/-- The text without its blank characters. -/
def withoutBlanks (text : String) : String :=
  String.ofList (text.toList.filter fun c => !isBlank c)

end RouteScope.Text
