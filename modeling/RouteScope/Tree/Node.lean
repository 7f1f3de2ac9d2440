import RouteScope.Ancestry
import RouteScope.Tree.Basic

/-!
# Nodes

A node is a place in a syntax tree: the subtree at that place, and the way back
to the top.  Every step of the way holds the label of a parent and the siblings
on both sides, so a node knows the whole tree around it, and a value of the
type cannot point outside its tree.
-/

namespace RouteScope

/-- One step from a node up to its parent, with the siblings before the node, the nearest
first, and those behind it. -/
structure Frame where
  label : Label
  before : List Tree
  after : List Tree

namespace Frame

/-- The parent's tree, with the given tree between the siblings. -/
def plug (frame : Frame) (tree : Tree) : Tree :=
  .node frame.label (frame.before.reverse ++ tree :: frame.after)

end Frame

/-- A place in a syntax tree: the subtree there, and the steps up to the top, the nearest
first. -/
structure Node where
  tree : Tree
  path : List Frame

namespace Tree

/-- The place at the top of a tree. -/
def root (tree : Tree) : Node := ⟨tree, []⟩

end Tree

namespace Node

def kind (node : Node) : String := node.tree.label.kind

def text (node : Node) : String := node.tree.label.text

/-- The number of the line on which the construct begins, counted from one. -/
def line (node : Node) : Nat := node.tree.label.row + 1

def parent? : Node → Option Node
  | ⟨_, []⟩ => none
  | ⟨tree, frame :: path⟩ => some ⟨frame.plug tree, path⟩

instance : Ancestry Node where
  parent? := parent?
  depth node := node.path.length
  depth_lt {node parent} h := by
    rcases node with ⟨tree, _ | ⟨frame, path⟩⟩
    · simp [parent?] at h
    · obtain rfl : ⟨frame.plug tree, path⟩ = parent := by simpa [parent?] using h
      simp

/-- The places of the given trees below a parent, behind the siblings that come
before them. -/
def siblings (label : Label) (path : List Frame) : List Tree → List Tree → List Node
  | _, [] => []
  | before, tree :: after =>
      ⟨tree, ⟨label, before, after⟩ :: path⟩ :: siblings label path (tree :: before) after

/-- The places right below, in order; tokens are among them. -/
def children (node : Node) : List Node :=
  siblings node.tree.label node.path [] node.tree.children

def namedChildren (node : Node) : List Node :=
  node.children.filter (·.tree.label.named)

/-- The place below that the field holds. -/
def field? (node : Node) (name : String) : Option Node :=
  node.children.find? (·.tree.label.field? == some name)

/-- The first named place right below with the kind. -/
def childOfKind? (node : Node) (kind : String) : Option Node :=
  node.namedChildren.find? (·.kind == kind)

/-- The parent, if it has the kind. -/
def parentOfKind? (node : Node) (kind : String) : Option Node :=
  node.parent?.filter (·.kind == kind)

/-- The numbers of earlier siblings on the way to the top, the nearest step
first.  Within one tree they single out a place. -/
def position (node : Node) : List Nat :=
  node.path.map (·.before.length)

/-- Whether two nodes of one tree are the same place. -/
def isSame (m n : Node) : Bool :=
  m.position == n.position

/-- The place at the top of a path above a tree. -/
def top (tree : Tree) : List Frame → Node
  | [] => ⟨tree, []⟩
  | frame :: path => top (frame.plug tree) path

/-- The place at the top of the tree that the node stands in. -/
def root (node : Node) : Node :=
  top node.tree node.path

/-- How many nodes of the tree come before this one in document order: at every
step, the parent and all of the earlier siblings' subtrees. -/
def index (node : Node) : Nat :=
  node.path.foldr (fun frame count => 1 + Tree.forestSize frame.before + count) 0

end Node

end RouteScope
