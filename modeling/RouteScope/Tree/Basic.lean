/-!
# Syntax trees

A syntax tree is an ordered tree of labels.  A label tells the kind of a
construct in the grammar, whether the construct is named or a mere token, the
text that it covers and where that text stands, and the field under which the
parent knows it.  Comments and the remains of broken text are nodes like all
others.
-/

namespace RouteScope

/-- What a syntax tree tells about one construct: its kind in the grammar, which for an
unnamed token is its text; the source text that it covers, with the offset of its first
byte and the number of line breaks in front of it; and the field of the parent that
holds it. -/
structure Label where
  kind : String
  named : Bool
  text : String
  start : Nat
  row : Nat
  field? : Option String
deriving DecidableEq, Repr

/-- A syntax tree: a construct with its parts, in the order of the source. -/
inductive Tree where
  | node (label : Label) (children : List Tree)

namespace Tree

def label : Tree → Label
  | node label _ => label

def children : Tree → List Tree
  | node _ children => children

mutual

def size : Tree → Nat
  | node _ children => 1 + forestSize children

def forestSize : List Tree → Nat
  | [] => 0
  | tree :: trees => size tree + forestSize trees

end

theorem size_pos (tree : Tree) : 0 < tree.size := by
  cases tree with
  | node label children => simp only [size]; omega

@[simp] theorem forestSize_nil : forestSize [] = 0 := rfl

@[simp] theorem forestSize_cons (tree : Tree) (trees : List Tree) :
    forestSize (tree :: trees) = tree.size + forestSize trees := rfl

@[simp] theorem size_node (label : Label) (children : List Tree) :
    (node label children).size = 1 + forestSize children := rfl

end Tree

end RouteScope
