/-!
# Letter case

Comparison of names without regard to the case of the letters `A` to `Z`.
All other characters, letters of other scripts included, compare as they are.
-/

namespace RouteScope.Text

/-- The text with the letters `A` to `Z` in lower case. -/
def lower (text : String) : List Char :=
  text.toList.map Char.toLower

/-- Whether two texts differ at most in the case of the letters `A` to `Z`. -/
def sameLetters (a b : String) : Bool :=
  lower a == lower b

end RouteScope.Text
