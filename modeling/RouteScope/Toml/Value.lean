/-!
# TOML values

The values of a TOML document.  Numbers with a fraction and points in time keep
their written form.  The entries of a table have distinct keys.
-/

namespace RouteScope.Toml

/-- A value of a TOML document.  A whole number takes 64 bits with its sign; other
numbers, and points in time, are kept as they are written. -/
inductive Value where
  | string (text : String)
  | integer (value : Int64)
  | float (digits : String)
  | boolean (value : Bool)
  | moment (digits : String)
  | array (items : List Value)
  | table (entries : List (String × Value))

end RouteScope.Toml
