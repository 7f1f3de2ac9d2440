import RouteScope.Tree.Node

/-!
# Walking through a tree

A cursor walks through the subtree of the node on which it was set up.  It
moves one step at a time, to a first child, to the next sibling or to the
parent, and it never leaves that subtree.  `walk` goes down as far as it can,
then on to the next sibling, and climbs when there is none; it lists each node
when it comes down to it, so parents come before their children and earlier
siblings before later ones.

* `Node.descendants`: the nodes of a subtree, its top included.
* `Tree.nodes`: the nodes of a whole tree.
-/

namespace RouteScope

/-- A place of a walk: the subtree there, the steps back to where the walk began, and
those from there up to the top of the tree. -/
structure Cursor where
  tree : Tree
  inner : List Frame
  outer : List Frame

namespace Cursor

/-- A cursor that begins its walk at the node. -/
def ofNode (node : Node) : Cursor := ⟨node.tree, [], node.path⟩

def node (cursor : Cursor) : Node := ⟨cursor.tree, cursor.inner ++ cursor.outer⟩

def firstChild? (cursor : Cursor) : Option Cursor :=
  match cursor.tree with
  | .node _ [] => none
  | .node label (tree :: after) =>
      some { cursor with tree, inner := ⟨label, [], after⟩ :: cursor.inner }

/-- The cursor at the next sibling, if there is one within the walk. -/
def nextSibling? (cursor : Cursor) : Option Cursor :=
  match cursor.inner with
  | ⟨label, before, tree :: after⟩ :: inner =>
      some { cursor with tree, inner := ⟨label, cursor.tree :: before, after⟩ :: inner }
  | _ => none

/-- The cursor at the parent, if that lies within the walk. -/
def parent? (cursor : Cursor) : Option Cursor :=
  match cursor.inner with
  | [] => none
  | frame :: inner => some { cursor with tree := frame.plug cursor.tree, inner }

/-- The number of nodes behind the cursor's subtree that the walk has still to
come to. -/
def ahead (cursor : Cursor) : Nat :=
  cursor.inner.foldr (fun frame count => Tree.forestSize frame.after + count) 0

/-- The number of nodes that the walk has still to come to.  A cursor that
climbs has left its subtree behind. -/
def pending (climbing : Bool) (cursor : Cursor) : Nat :=
  (if climbing then 0 else cursor.tree.size) + cursor.ahead

theorem pending_firstChild? {cursor child : Cursor} (h : cursor.firstChild? = some child) :
    child.pending false + 1 = cursor.pending false := by
  rcases cursor with ⟨⟨label, _ | ⟨tree, after⟩⟩, inner, outer⟩
  · simp [firstChild?] at h
  · obtain rfl : _ = child := by simpa [firstChild?] using h
    simp [pending, ahead]
    omega

theorem pending_nextSibling? {cursor sibling : Cursor}
    (h : cursor.nextSibling? = some sibling) :
    sibling.pending false = cursor.pending true := by
  rcases cursor with ⟨tree, _ | ⟨⟨label, before, _ | ⟨next, after⟩⟩, inner⟩, outer⟩
  · simp [nextSibling?] at h
  · simp [nextSibling?] at h
  · obtain rfl : _ = sibling := by simpa [nextSibling?] using h
    simp [pending, ahead]
    omega

theorem pending_parent? {cursor parent : Cursor} (h : cursor.parent? = some parent) :
    parent.pending true ≤ cursor.pending true ∧
      parent.inner.length < cursor.inner.length := by
  rcases cursor with ⟨tree, _ | ⟨frame, inner⟩, outer⟩
  · simp [parent?] at h
  · obtain rfl : _ = parent := by simpa [parent?] using h
    simp [pending, ahead]

/-- The nodes that the walk comes to from here on.  A climbing cursor has come
back to a node whose subtree is done. -/
def walk (climbing : Bool) (cursor : Cursor) : List Node :=
  match climbing with
  | false =>
      cursor.node ::
        match _down : cursor.firstChild? with
        | some child => walk false child
        | none => walk true cursor
  | true =>
      match _next : cursor.nextSibling? with
      | some sibling => walk false sibling
      | none =>
          match _up : cursor.parent? with
          | some parent => walk true parent
          | none => []
termination_by (cursor.pending climbing, climbing.toNat, cursor.inner.length)
decreasing_by
  · have := pending_firstChild? _down
    exact Prod.Lex.left _ _ (by omega)
  · have := cursor.tree.size_pos
    exact Prod.Lex.left _ _ (by simp only [pending]; simp; omega)
  · rw [pending_nextSibling? _next]
    exact Prod.Lex.right _ (Prod.Lex.left _ _ (by simp))
  · obtain ⟨hle, hlt⟩ := pending_parent? _up
    rcases Nat.lt_or_eq_of_le hle with h | h
    · exact Prod.Lex.left _ _ h
    · rw [h]
      exact Prod.Lex.right _ (Prod.Lex.right _ hlt)

end Cursor

namespace Node

/-- The nodes of the subtree at a node, itself included, in document order. -/
def descendants (node : Node) : List Node :=
  (Cursor.ofNode node).walk false

end Node

namespace Tree

/-- All nodes of a tree in document order. -/
def nodes (tree : Tree) : List Node :=
  tree.root.descendants

/-- The nodes of a kind, in document order. -/
def nodesOfKind (tree : Tree) (kind : String) : List Node :=
  tree.nodes.filter (·.kind == kind)

end Tree

end RouteScope
