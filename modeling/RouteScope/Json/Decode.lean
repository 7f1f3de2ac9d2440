import RouteScope.Json.Basic

/-!
# Reading records off JSON values

A record is an object with a fixed set of fields.  Other fields are passed
over, but no field of the set may occur twice.  A record may also be given as
the list of its fields in their fixed order, where the last ones may be missing
and there must not be more.
-/

namespace RouteScope.Json

/-- The only value among members with the same key, if there is any; fails if
there are several. -/
def field? (members : List (Option String × Json)) (name : String) :
    Option (Option Json) :=
  match members.filter (·.1 == some name) with
  | [] => some none
  | [(_, value)] => some (some value)
  | _ => none

/-- The values of the named fields, given as an object or as a list. -/
def fields? (names : List String) : Json → Option (List (Option Json))
  | object members =>
      if members.all (·.1.isSome) then names.mapM (field? members) else none
  | array items =>
      if items.length ≤ names.length then
        some (items.map some ++ List.replicate (names.length - items.length) none)
      else
        none
  | _ => none

/-- A list whose items are read one by one. -/
def listOf? {α : Type} (item? : Json → Option α) (value : Json) : Option (List α) := do
  (← value.items?).mapM item?

/-- A list that may be missing and then is empty. -/
def listFieldOf? {α : Type} (item? : Json → Option α) :
    Option Json → Option (List α)
  | some value => listOf? item? value
  | none => some []

/-- A value that may be missing or `null`. -/
def optionFieldOf? {α : Type} (item? : Json → Option α) :
    Option Json → Option (Option α)
  | some null => some none
  | some value => (item? value).map some
  | none => some none

end RouteScope.Json
