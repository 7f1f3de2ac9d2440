import RouteScope.Proofs.Tree.Order

/-!
# What a walk lists

A walk goes through rounds: in each of them the cursor moves down, turns round,
moves on to a sibling or climbs, and the walk ends where it can do none of that.
`Walks` tells the rounds one by one, so a walk that it relates to a list comes to
an end.

Document order is told by the tree alone: a node stands in front of all that is
below it, and the subtree of an earlier sibling stands in front of the subtree
of a later one (`Precedes`).

* `walks_iff`: every walk ends, with the list that `walk` gives.
* `descendants_eq_cons`: a walk lists a subtree as the recursion over it does.
* `index_lt_of_precedes`: document order is an order.
* `pairwise_precedes_descendants`: a walk lists in document order.
* `descendants_in_document_order`: all of this of a node and of the whole tree.
-/

namespace RouteScope

open RouteScope.Tree (preorder forestPreorder)

/-! ## Rounds of a walk -/

namespace Cursor

/-- From here on the walk lists the nodes, and then it ends.  A climbing cursor
has come back to a node whose subtree is done. -/
inductive Walks : Bool → Cursor → List Node → Prop where
  | down {cursor child : Cursor} {nodes : List Node}
      (move : cursor.firstChild? = some child) (behind : Walks false child nodes) :
      Walks false cursor (cursor.node :: nodes)
  | turn {cursor : Cursor} {nodes : List Node}
      (leaf : cursor.firstChild? = none) (behind : Walks true cursor nodes) :
      Walks false cursor (cursor.node :: nodes)
  | next {cursor sibling : Cursor} {nodes : List Node}
      (move : cursor.nextSibling? = some sibling) (behind : Walks false sibling nodes) :
      Walks true cursor nodes
  | climb {cursor parent : Cursor} {nodes : List Node}
      (last : cursor.nextSibling? = none) (move : cursor.parent? = some parent)
      (behind : Walks true parent nodes) : Walks true cursor nodes
  | stop {cursor : Cursor} (last : cursor.nextSibling? = none) (top : cursor.parent? = none) :
      Walks true cursor []

/-- Every walk ends, and it has listed what `walk` gives. -/
theorem walks_iff {climbing : Bool} {cursor : Cursor} {nodes : List Node} :
    Walks climbing cursor nodes ↔ nodes = cursor.walk climbing := by
  constructor
  · intro walks
    induction walks with
    | down move _ ih => rw [walk_of_firstChild?_eq_some move, ih]
    | turn leaf _ ih => rw [walk_of_firstChild?_eq_none leaf, ih]
    | next move _ ih => rw [walk_of_nextSibling?_eq_some move, ih]
    | climb last move _ ih => rw [walk_of_parent?_eq_some last move, ih]
    | stop last top => rw [walk_of_parent?_eq_none last top]
  · rintro rfl
    induction climbing, cursor using walk.induct with
    | case1 cursor descending turning =>
      cases move : cursor.firstChild? with
      | some child =>
        rw [walk_of_firstChild?_eq_some move]
        exact .down move (descending child move)
      | none =>
        rw [walk_of_firstChild?_eq_none move]
        exact .turn move turning
    | case2 cursor sibling move ih =>
      rw [walk_of_nextSibling?_eq_some move]
      exact .next move ih
    | case3 cursor last parent move ih =>
      rw [walk_of_parent?_eq_some last move]
      exact .climb last move ih
    | case4 cursor last top =>
      rw [walk_of_parent?_eq_none last top]
      exact .stop last top

end Cursor

namespace Node

/-! ## Recursion over the tree -/

theorem forestPreorder_eq_flatMap (label : Label) (path : List Frame) :
    ∀ before after : List Tree,
      forestPreorder label path before after =
        (siblings label path before after).flatMap descendants
  | _, [] => rfl
  | before, tree :: after => by
    rw [forestPreorder, siblings, List.flatMap_cons, descendants_eq_preorder,
      forestPreorder_eq_flatMap label path (tree :: before) after]

/-- A subtree is listed as the recursion over it does: the node, and then the
subtrees of its children, one behind the other. -/
theorem descendants_eq_cons (node : Node) :
    node.descendants = node :: node.children.flatMap descendants := by
  obtain ⟨⟨label, trees⟩, path⟩ := node
  rw [descendants_eq_preorder, preorder, forestPreorder_eq_flatMap]
  rfl

/-- The way up from the node comes to the other one, or begins there. -/
def IsWithin (node top : Node) : Prop :=
  ∃ steps, Ancestry.climb parent? steps node = some top

theorem mem_descendants_iff_isWithin {node top : Node} :
    node ∈ top.descendants ↔ node.IsWithin top := by
  have hclimb : top ∈ Ancestry.ancestors node ++ [node] ↔ node.IsWithin top :=
    Ancestry.mem_ancestors_concat_iff
  rw [List.mem_append, List.mem_singleton, or_comm, eq_comm, ← mem_descendants_iff] at hclimb
  exact hclimb

/-! ## The top of the tree -/

theorem path_top (tree : Tree) : ∀ path : List Frame, (top tree path).path = []
  | [] => rfl
  | frame :: path => path_top (frame.plug tree) path

theorem root_eq_root_tree (node : Node) : node.root = node.root.tree.root :=
  congrArg (Node.mk node.root.tree) (path_top node.tree node.path)

/-- The top of the tree has no parent. -/
theorem parent?_root (node : Node) : node.root.parent? = none := by
  rw [root_eq_root_tree]
  rfl

/-- A node is one of the tree that it stands in. -/
theorem mem_nodes_root (node : Node) : node ∈ node.root.tree.nodes :=
  Tree.mem_nodes_iff.2 node.root_eq_root_tree

/-- The way up from a node ends at the top of the tree. -/
theorem isWithin_root (node : Node) : node.IsWithin node.root := by
  have hmem := node.mem_nodes_root
  rwa [Tree.nodes, ← node.root_eq_root_tree, mem_descendants_iff_isWithin] at hmem

/-! ## Document order -/

/-- One node stands in front of another: above it, or in the subtree of an
earlier sibling. -/
inductive Precedes : Node → Node → Prop where
  | above {first second : Node} (h : first ∈ Ancestry.ancestors second) : Precedes first second
  | beside {parent earlier later first second : Node}
      (order : [earlier, later].Sublist parent.children)
      (hfirst : first.IsWithin earlier) (hsecond : second.IsWithin later) :
      Precedes first second

/-- A later sibling comes behind the whole subtree of an earlier one. -/
theorem index_add_size_le_of_sublist {parent earlier later : Node}
    (order : [earlier, later].Sublist parent.children) :
    earlier.index + earlier.tree.size ≤ later.index := by
  have hearlier : earlier.parent? = some parent :=
    parent?_of_mem_children (order.subset List.mem_cons_self)
  have hlater : later.parent? = some parent :=
    parent?_of_mem_children (order.subset (List.mem_cons_of_mem _ List.mem_cons_self))
  have hlt : earlier.index < later.index :=
    List.pairwise_iff_forall_sublist.1 (pairwise_index_children parent) order
  have hout : later ∉ earlier.descendants := by
    rw [mem_descendants_iff, Ancestry.ancestors_of_parent?_eq_some hlater, List.mem_cons]
    rintro (rfl | rfl | habove)
    · exact Nat.lt_irrefl _ hlt
    · exact Nat.lt_irrefl _ (index_lt_of_parent? hearlier)
    · exact Nat.lt_asymm (index_lt_of_parent? hearlier) (index_lt_of_mem_ancestors habove)
  have htop : later.root = earlier.root :=
    (root_of_parent? hlater).symm.trans (root_of_parent? hearlier)
  have hmem : earlier ∈ earlier.root.tree.nodes := mem_nodes_root earlier
  have hmem' : later ∈ earlier.root.tree.nodes := htop ▸ mem_nodes_root later
  rw [mem_descendants_iff_index hmem' hmem] at hout
  omega

/-- The positions in a subtree are a run that begins at its top. -/
theorem IsWithin.index_bounds {node top : Node} (h : node.IsWithin top) :
    top.index ≤ node.index ∧ node.index < top.index + top.tree.size := by
  have hnode := mem_descendants_iff_isWithin.2 h
  have htop := top.mem_nodes_root
  exact (mem_descendants_iff_index (mem_descendants_trans hnode htop) htop).1 hnode

/-- Document order is the order of the positions, so no two nodes stand in front of
each other. -/
theorem index_lt_of_precedes {first second : Node} (h : Precedes first second) :
    first.index < second.index := by
  cases h with
  | above h => exact index_lt_of_mem_ancestors h
  | @beside parent earlier later _ _ order hfirst hsecond =>
    have hgap := index_add_size_le_of_sublist order
    have hfirst' := hfirst.index_bounds
    have hsecond' := hsecond.index_bounds
    omega

/-- A walk lists in document order.  The induction is over the subtrees: within
the one of a child by hypothesis, between two of them by the order of the
children. -/
theorem pairwise_precedes_descendants (node : Node) : node.descendants.Pairwise Precedes := by
  induction hsize : node.tree.size using Nat.strong_induction_on generalizing node with
  | _ size ih =>
    rw [descendants_eq_cons, List.pairwise_cons, List.pairwise_flatMap]
    refine ⟨fun other hother => ?_, fun child hchild => ?_, ?_⟩
    · obtain ⟨child, hchild, hmem⟩ := List.mem_flatMap.1 hother
      have hparent := parent?_of_mem_children hchild
      rcases mem_descendants_iff.1 hmem with rfl | habove
      · refine .above ?_
        rw [Ancestry.ancestors_of_parent?_eq_some hparent]
        exact List.mem_cons_self
      · exact .above (Ancestry.parent_mem_ancestors habove hparent)
    · exact ih child.tree.size (hsize ▸ size_lt_of_mem_children hchild) child rfl
    · exact List.pairwise_iff_forall_sublist.2 fun order first hfirst second hsecond =>
        .beside order (mem_descendants_iff_isWithin.1 hfirst)
          (mem_descendants_iff_isWithin.1 hsecond)

/-- From any node, the walk ends and has listed the nodes of its subtree, which are
those whose way up comes to it, each of them once and in document order, just as
the recursion over the tree lists them.  The nodes of a tree are listed in this
way from its top, which is where the way up from each of them ends. -/
theorem descendants_in_document_order (tree : Tree) (node : Node) :
    Cursor.Walks false (.ofNode node) node.descendants ∧
    (∀ other, other ∈ node.descendants ↔ other.IsWithin node) ∧
    node.descendants.Nodup ∧
    node.descendants.Pairwise Precedes ∧
    (∀ first second, Precedes first second → ¬ Precedes second first) ∧
    node.descendants = node :: node.children.flatMap descendants ∧
    tree.nodes = tree.root.descendants ∧
    (node ∈ tree.nodes ↔ node.root = tree.root) ∧
    node.IsWithin node.root ∧
    node.root.parent? = none := by
  have ordered := pairwise_precedes_descendants node
  have hnodup : node.descendants.Nodup :=
    Tree.nodup_of_pairwise_index (ordered.imp index_lt_of_precedes)
  have hasymm (first second : Node) (h : Precedes first second) : ¬ Precedes second first :=
    fun h' => Nat.lt_asymm (index_lt_of_precedes h) (index_lt_of_precedes h')
  exact ⟨Cursor.walks_iff.2 rfl, fun _ => mem_descendants_iff_isWithin, hnodup, ordered, hasymm,
    node.descendants_eq_cons, rfl, Tree.mem_nodes_iff, node.isWithin_root, node.parent?_root⟩

end Node

end RouteScope
