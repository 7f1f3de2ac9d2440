import RouteScope.Text.Bytes
import RouteScope.Tree.Basic

/-!
# Flat trees

A syntax tree is handed over as the list of its nodes in document order, where
each node names its parent by the parent's position in the list.  `ofFlat?`
puts the tree together again.  It goes through the list from the back: the
subtrees that have been put together and still wait for their parent are in
document order, so the children of a node are the first ones that wait.
-/

namespace RouteScope

/-- A node of a flat tree.  The parent is named by its position in the list, and the text
by its range of bytes; `stop` is just past the last one. -/
structure FlatNode where
  parent? : Option Nat
  kind : String
  named : Bool
  start : Nat
  stop : Nat
  row : Nat
  field? : Option String

namespace FlatNode

/-- The label of the node.  A range that is no part of the source covers the
empty text. -/
def label (source : List Char) (node : FlatNode) : Label where
  kind := node.kind
  named := node.named
  text := String.ofList ((Text.byteRange? source node.start node.stop).getD [])
  start := node.start
  row := node.row
  field? := node.field?

end FlatNode

namespace Tree

/-- Puts the node at position `index` on top of the waiting subtrees that name
it as their parent. -/
def gather (source : List Char) (flat : FlatNode × Nat)
    (waiting : List (Option Nat × Tree)) : List (Option Nat × Tree) :=
  let (children, others) := waiting.span (·.1 == some flat.2)
  (flat.1.parent?, .node (flat.1.label source) (children.map (·.2))) :: others

/-- The tree of a flat list of nodes; `none` unless all nodes hang together
below one root. -/
def ofFlat? (source : String) (flat : List FlatNode) : Option Tree :=
  match flat.zipIdx.foldr (gather source.toList) [] with
  | [(none, tree)] => some tree
  | _ => none

end Tree

end RouteScope
