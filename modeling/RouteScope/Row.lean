/-!
# Rows of a table

A row of tabular data, such as one option of a component, maps keys to texts.
A key that is missing reads as the empty text.
-/

namespace RouteScope

/-- The cells of a row, by key. -/
abbrev Row := List (String × String)

/-- The cell of the first row that has the key, or the empty text. -/
def cell (key : String) (rows : List Row) : String :=
  (rows.findSome? (·.lookup key)).getD ""

end RouteScope
