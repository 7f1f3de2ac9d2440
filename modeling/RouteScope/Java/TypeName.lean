import RouteScope.Text.Blank
import RouteScope.Tree.Basic

/-!
# Written type names

The name of a type as it is written in an `extends` or `implements` clause,
without blanks and without generic arguments.  The arguments are left out only
around a name as a whole: a generic type stands for the first named part of
it, which may be generic again.
-/

namespace RouteScope.Java

mutual

/-- The name that a type is written with. -/
def typeName : Tree → String
  | .node label children =>
      if label.kind == "generic_type" then
        firstTypeName children
      else
        Text.withoutBlanks label.text

/-- The name that the first named tree of a list is written with; empty if
there is none. -/
def firstTypeName : List Tree → String
  | [] => ""
  | tree :: trees => if tree.label.named then typeName tree else firstTypeName trees

end

end RouteScope.Java
