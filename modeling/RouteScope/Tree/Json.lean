import RouteScope.Json.Decode
import RouteScope.Tree.Flat

/-!
# Flat trees as JSON

A flat tree is written as the list of its nodes.  A node is a list of the
position of its parent, the kind, one or zero for named or not, the offsets of
the first byte and just past the last one, the row, and the name of the field
if there is one.  The root has minus one as the position of its parent.
-/

namespace RouteScope

open Json

def FlatNode.parentOfJson? : Json → Option (Option Nat)
  | number "-1" => some none
  | value => value.natural?.map some

def FlatNode.ofJson? : Json → Option FlatNode
  | array (parent :: kind :: named :: start :: stop :: row :: field) => do
      let field? ← match field with
        | [] => some none
        | [name] => name.text?.map some
        | _ => none
      return { parent? := ← parentOfJson? parent
               kind := ← kind.text?
               named := (← named.natural?) != 0
               start := ← start.natural?
               stop := ← stop.natural?
               row := ← row.natural?
               field? }
  | _ => none

/-- The tree over a source that a value spells. -/
def Tree.ofJson? (source : String) (value : Json) : Option Tree := do
  ofFlat? source (← listOf? FlatNode.ofJson? value)

end RouteScope
