import RouteScope.Proofs.Ancestry
import RouteScope.Proofs.Tree.Place
import RouteScope.Tree.Walk

/-!
# Document order

A walk through a tree moves a cursor step by step, and has to climb back to
parents in order to go on.  `preorder` lists the same nodes by recursion over
the tree: a node, and then the subtrees below it from the first to the last.

* `walk_eq_preorder`: from a node on, a walk lists its subtree, and then does
  what it would have done if it had come back to the node.
* `descendants_eq_preorder`: a whole walk.
* `mem_nodes_iff`: the nodes of a tree are the places from which the way up
  leads to its top.
-/

namespace RouteScope

namespace Tree

mutual

/-- The nodes of a tree that stands below the steps of a path, in document
order. -/
def preorder (path : List Frame) : Tree → List Node
  | node label children =>
      ⟨node label children, path⟩ :: forestPreorder label path [] children

/-- The nodes of the trees below a parent, behind the siblings that come before
them, in document order. -/
def forestPreorder (label : Label) (path : List Frame) : List Tree → List Tree → List Node
  | _, [] => []
  | before, tree :: after =>
      preorder (⟨label, before, after⟩ :: path) tree ++
        forestPreorder label path (tree :: before) after

end

end Tree

open RouteScope.Tree (preorder forestPreorder)

/-! ## Walks -/

namespace Cursor

theorem walk_of_firstChild?_eq_none {cursor : Cursor} (h : cursor.firstChild? = none) :
    cursor.walk false = cursor.node :: cursor.walk true := by
  rw [walk]
  split <;> simp_all

theorem walk_of_firstChild?_eq_some {cursor child : Cursor}
    (h : cursor.firstChild? = some child) :
    cursor.walk false = cursor.node :: child.walk false := by
  rw [walk]
  split <;> simp_all

theorem walk_of_nextSibling?_eq_some {cursor sibling : Cursor}
    (h : cursor.nextSibling? = some sibling) : cursor.walk true = sibling.walk false := by
  conv => lhs; rw [walk]
  split <;> simp_all

theorem walk_of_parent?_eq_some {cursor parent : Cursor} (last : cursor.nextSibling? = none)
    (h : cursor.parent? = some parent) : cursor.walk true = parent.walk true := by
  rw [walk]
  split
  · simp_all
  · split <;> simp_all

theorem walk_of_parent?_eq_none {cursor : Cursor} (last : cursor.nextSibling? = none)
    (h : cursor.parent? = none) : cursor.walk true = [] := by
  rw [walk]
  split
  · simp_all
  · split <;> simp_all

mutual

/-- A walk that comes down to a tree lists its nodes, and goes on as if it had
come back to its top. -/
theorem walk_eq_preorder (inner outer : List Frame) : ∀ tree : Tree,
    walk false ⟨tree, inner, outer⟩ =
      preorder (inner ++ outer) tree ++ walk true ⟨tree, inner, outer⟩
  | .node label [] => by
    rw [walk_of_firstChild?_eq_none rfl]
    simp [preorder, forestPreorder, Cursor.node]
  | .node label (child :: after) => by
    rw [walk_of_firstChild?_eq_some rfl, walk_eq_preorder (⟨label, [], after⟩ :: inner) outer child,
      walk_eq_forestPreorder label inner outer child [] after]
    simp [preorder, forestPreorder, Cursor.node]

/-- A walk that comes back to a tree lists the nodes of the siblings behind it,
and goes on as if it had come back to the parent. -/
theorem walk_eq_forestPreorder (label : Label) (inner outer : List Frame) (tree : Tree)
    (before : List Tree) : ∀ after : List Tree,
    walk true ⟨tree, ⟨label, before, after⟩ :: inner, outer⟩ =
      forestPreorder label (inner ++ outer) (tree :: before) after ++
        walk true ⟨.node label (before.reverse ++ tree :: after), inner, outer⟩
  | [] => by
    rw [walk_of_parent?_eq_some rfl rfl]
    rfl
  | next :: after => by
    rw [walk_of_nextSibling?_eq_some rfl,
      walk_eq_preorder (⟨label, tree :: before, after⟩ :: inner) outer next,
      walk_eq_forestPreorder label inner outer next (tree :: before) after]
    simp [forestPreorder]

end

end Cursor

namespace Node

/-- The walk from a node on lists its subtree and does not leave it. -/
theorem descendants_eq_preorder (node : Node) :
    node.descendants = preorder node.path node.tree := by
  rw [descendants, Cursor.ofNode, Cursor.walk_eq_preorder,
    Cursor.walk_of_parent?_eq_none rfl rfl, List.append_nil, List.nil_append]

end Node

theorem Tree.nodes_eq_preorder (tree : Tree) : tree.nodes = preorder [] tree :=
  tree.root.descendants_eq_preorder

/-! ## Places of a tree -/

namespace Tree

mutual

/-- The way up from a node of a tree leads to the top. -/
theorem root_of_mem_preorder {node : Node} (path : List Frame) : ∀ tree : Tree,
    node ∈ preorder path tree → node.root = Node.top tree path
  | .node label children, h => by
    rw [preorder, List.mem_cons] at h
    rcases h with rfl | h
    · rfl
    · exact root_of_mem_forestPreorder label path [] children h

theorem root_of_mem_forestPreorder {node : Node} (label : Label) (path : List Frame)
    (before : List Tree) : ∀ trees : List Tree,
    node ∈ forestPreorder label path before trees →
      node.root = Node.top (.node label (before.reverse ++ trees)) path
  | [], h => by simp [forestPreorder] at h
  | tree :: after, h => by
    rw [forestPreorder, List.mem_append] at h
    rcases h with h | h
    · exact root_of_mem_preorder (⟨label, before, after⟩ :: path) tree h
    · simpa using root_of_mem_forestPreorder label path (tree :: before) after h

end

/-- The top of a tree comes first. -/
theorem mem_preorder_self (path : List Frame) (tree : Tree) : ⟨tree, path⟩ ∈ preorder path tree := by
  cases tree with
  | node label children => simp [preorder]

theorem mem_forestPreorder {node : Node} {label : Label} {path : List Frame} {tree : Tree}
    {after : List Tree} (start : List Tree) :
    ∀ before : List Tree,
      node ∈ preorder (⟨label, start.reverse ++ before, after⟩ :: path) tree →
        node ∈ forestPreorder label path before (start ++ tree :: after) := by
  induction start with
  | nil =>
    intro before h
    exact List.mem_append_left _ h
  | cons first start ih =>
    intro before h
    exact List.mem_append_right _ (ih (first :: before) (by simpa using h))

/-- A child is listed below its parent. -/
theorem mem_preorder_of_parent? {node parent : Node} (h : node.parent? = some parent) :
    node ∈ preorder parent.path parent.tree := by
  obtain ⟨tree, path⟩ := node
  cases path with
  | nil => exact absurd h (Option.some_ne_none parent).symm
  | cons frame path =>
    obtain rfl := Option.some.inj h
    refine List.mem_cons_of_mem _ (mem_forestPreorder frame.before.reverse [] ?_)
    simpa using mem_preorder_self (frame :: path) tree

mutual

/-- What is listed below a node of a tree is listed below the top. -/
theorem preorder_subset {node other : Node} (path : List Frame) : ∀ tree : Tree,
    node ∈ preorder path tree → other ∈ preorder node.path node.tree →
      other ∈ preorder path tree
  | .node label children, h, hother => by
    rw [preorder, List.mem_cons] at h
    rcases h with rfl | h
    · exact hother
    · exact List.mem_cons_of_mem _ (forestPreorder_subset label path [] children h hother)

theorem forestPreorder_subset {node other : Node} (label : Label) (path : List Frame)
    (before : List Tree) : ∀ trees : List Tree,
    node ∈ forestPreorder label path before trees → other ∈ preorder node.path node.tree →
      other ∈ forestPreorder label path before trees
  | [], h, _ => by simp [forestPreorder] at h
  | tree :: after, h, hother => by
    rw [forestPreorder, List.mem_append] at h ⊢
    exact h.imp (fun h => preorder_subset _ tree h hother)
      fun h => forestPreorder_subset label path (tree :: before) after h hother

end

/-- The nodes of a tree are the places from which the way up leads to its
top.  The induction is over that way. -/
theorem mem_nodes_iff {tree : Tree} {node : Node} : node ∈ tree.nodes ↔ node.root = tree.root := by
  rw [nodes_eq_preorder]
  constructor
  · exact fun h => root_of_mem_preorder [] tree h
  · obtain ⟨below, path⟩ := node
    intro h
    induction path generalizing below with
    | nil =>
      obtain rfl : below = tree := congrArg Node.tree h
      exact mem_preorder_self [] below
    | cons frame path ih =>
      exact preorder_subset [] tree (ih (frame.plug below) h) (mem_preorder_of_parent? rfl)

/-- The ancestors of a node of a tree are nodes of the tree. -/
theorem mem_nodes_of_mem_ancestors {tree : Tree} {node ancestor : Node} (h : node ∈ tree.nodes)
    (above : ancestor ∈ Ancestry.ancestors node) : ancestor ∈ tree.nodes := by
  have hroot : ancestor.root = node.root :=
    Ancestry.rel_of_mem_ancestors (fun above node => above.root = node.root)
      Node.root_of_parent? Eq.trans above
  rw [mem_nodes_iff, hroot, mem_nodes_iff.1 h]

end Tree

theorem mem_nodes_of_parent? {tree : Tree} {node parent : Node} (h : node ∈ tree.nodes)
    (hparent : node.parent? = some parent) : parent ∈ tree.nodes := by
  rw [Tree.mem_nodes_iff] at h ⊢
  rw [Node.root_of_parent? hparent, h]

theorem mem_nodes_of_mem_children {tree : Tree} {node child : Node} (h : node ∈ tree.nodes)
    (hchild : child ∈ node.children) : child ∈ tree.nodes := by
  rw [Tree.mem_nodes_iff] at h ⊢
  rw [← Node.root_of_parent? (Node.parent?_of_mem_children hchild), h]

end RouteScope
