import RouteScope.Text.Case

/-!
# Expression languages

A language may be written under several names.  `canonical` gives the one name
that stands for all of them.
-/

namespace RouteScope.Language

/-- The one name of a language: every name that begins with `tokenize` stands
for `tokenize`, and `js` and `javascript` in any case for `javaScript`; any
other name stands for itself. -/
def canonical (name : String) : String :=
  if "tokenize".toList.isPrefixOf name.toList then
    "tokenize"
  else if Text.sameLetters name "js" || Text.sameLetters name "javascript" then
    "javaScript"
  else
    name

/-- Whether two names stand for the same language. -/
def same (a b : String) : Bool :=
  canonical a == canonical b

end RouteScope.Language
