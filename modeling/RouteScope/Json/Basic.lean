/-!
# JSON values

A JSON value as it is written: numbers keep their digits, and objects keep
their members in order, repeated keys included.  The escapes of a string may
spell half of a surrogate pair.  Such a string is well-formed JSON and still no
text, so its text is missing.
-/

namespace RouteScope

/-- A JSON value.  A number is kept as it is written, and a string may be no text. -/
inductive Json where
  | null
  | bool (value : Bool)
  | number (digits : String)
  | string (text? : Option String)
  | array (items : List Json)
  | object (members : List (Option String × Json))

namespace Json

def text (value : String) : Json := string (some value)

def natural (value : Nat) : Json := number (toString value)

def texts (values : List String) : Json := array (values.map text)

def optional (value? : Option Json) : Json := value?.getD null

def record (members : List (String × Json)) : Json :=
  object (members.map fun (key, value) => (some key, value))

def text? : Json → Option String
  | string text? => text?
  | _ => none

/-- The natural number that is written in digits only. -/
def natural? : Json → Option Nat
  | number digits => if digits.toList.all Char.isDigit then digits.toNat? else none
  | _ => none

def items? : Json → Option (List Json)
  | array items => some items
  | _ => none

end Json

end RouteScope
