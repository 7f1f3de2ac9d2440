import Mathlib.Data.List.Nodup
import RouteScope.Proofs.Tree.Preorder

/-!
# Positions in document order

The position of a node is the number of nodes in front of it.  So the nodes of a
tree, listed in document order, have the positions from zero on, and the subtree of
a node is a run of them that begins with the node itself.

* `map_index_preorder`: the positions in a subtree.
* `pairwise_index_nodes`: document order is the order of the positions.
* `find?_nodes_eq_some_iff`: what a search through a tree finds.
* `mem_descendants_iff`, `mem_descendants_iff_index`: a subtree, told by the way up
  and by positions.
* `children_eq_filter`: the children of a node among all nodes of the tree.
* `index_lt_index_iff_of_parent?`: the order of two nodes and that of their children.
-/

namespace RouteScope

open RouteScope.Tree (preorder forestPreorder forestSize)

/-! ## Runs of positions -/

namespace Tree

/-- The position of the place at the end of a path. -/
def placeOf (path : List Frame) : Nat :=
  path.foldr (fun frame count => 1 + forestSize frame.before + count) 0

theorem index_eq (node : Node) : node.index = placeOf node.path := rfl

theorem placeOf_cons (frame : Frame) (path : List Frame) :
    placeOf (frame :: path) = 1 + forestSize frame.before + placeOf path := rfl

mutual

/-- The positions in a subtree begin with that of its top and go on without a
gap. -/
theorem map_index_preorder (path : List Frame) : ∀ tree : Tree,
    (preorder path tree).map Node.index = List.range' (placeOf path) tree.size
  | .node label children => by
    have hchildren := map_index_forestPreorder label path [] children
    rw [forestSize_nil, Nat.add_zero, Nat.add_comm 1] at hchildren
    rw [preorder, List.map_cons, hchildren, size_node, Nat.add_comm 1, List.range'_succ, index_eq]

theorem map_index_forestPreorder (label : Label) (path : List Frame) (before : List Tree) :
    ∀ trees : List Tree, (forestPreorder label path before trees).map Node.index =
      List.range' (1 + forestSize before + placeOf path) (forestSize trees)
  | [] => rfl
  | tree :: after => by
    have htree := map_index_preorder (⟨label, before, after⟩ :: path) tree
    have hafter := map_index_forestPreorder label path (tree :: before) after
    have hnext : 1 + forestSize (tree :: before) + placeOf path =
        1 + forestSize before + placeOf path + 1 * tree.size := by
      rw [forestSize_cons]
      omega
    rw [forestPreorder, List.map_append, htree, hafter, placeOf_cons, hnext, forestSize_cons,
      List.range'_append]

end

variable {tree : Tree}

theorem map_index_nodes (tree : Tree) : tree.nodes.map Node.index = List.range' 0 tree.size := by
  rw [nodes_eq_preorder]
  exact map_index_preorder [] tree

/-- Document order is the order of the positions. -/
theorem pairwise_index_nodes (tree : Tree) :
    tree.nodes.Pairwise fun first second => first.index < second.index := by
  rw [← List.pairwise_map, map_index_nodes]
  exact List.pairwise_lt_range'

/-- No two nodes of a tree have the same position. -/
theorem eq_of_index_eq {node other : Node} (hnode : node ∈ tree.nodes)
    (hother : other ∈ tree.nodes) (h : node.index = other.index) : node = other := by
  have hnodup : (tree.nodes.map Node.index).Nodup := by
    rw [map_index_nodes]
    exact List.nodup_range'
  exact List.inj_on_of_nodup_map hnodup hnode hother h

/-- In document order no node is listed twice. -/
theorem nodup_of_pairwise_index {nodes : List Node}
    (ordered : nodes.Pairwise fun first second => first.index < second.index) : nodes.Nodup :=
  ordered.imp fun hlt heq => Nat.ne_of_lt hlt (congrArg Node.index heq)

theorem nodup_nodes (tree : Tree) : tree.nodes.Nodup :=
  nodup_of_pairwise_index (pairwise_index_nodes tree)

/-- Two lists in document order are the same if the same nodes are listed. -/
theorem eq_of_mem_iff {nodes others : List Node}
    (ordered : nodes.Pairwise fun first second => first.index < second.index)
    (ordered' : others.Pairwise fun first second => first.index < second.index)
    (h : ∀ node, node ∈ nodes ↔ node ∈ others) : nodes = others := by
  have hperm := (List.perm_ext_iff_of_nodup (nodup_of_pairwise_index ordered)
    (nodup_of_pairwise_index ordered')).2 h
  exact hperm.eq_of_pairwise (fun _ _ _ _ hlt hgt => absurd hlt (Nat.lt_asymm hgt))
    ordered ordered'

/-- In a list in document order, what holds of the earlier and the later of two nodes
holds of any two nodes by their positions. -/
theorem pairwise_iff_of_index {nodes : List Node} {R : Node → Node → Prop}
    (ordered : nodes.Pairwise fun first second => first.index < second.index) :
    nodes.Pairwise R ↔
      ∀ first ∈ nodes, ∀ second ∈ nodes, first.index < second.index → R first second := by
  constructor
  · intro h first hfirst second hsecond hlt
    induction nodes with
    | nil => exact absurd hfirst List.not_mem_nil
    | cons node nodes ih =>
      rw [List.pairwise_cons] at h ordered
      rw [List.mem_cons] at hfirst hsecond
      rcases hfirst with rfl | hfirst <;> rcases hsecond with rfl | hsecond
      · exact absurd hlt (Nat.lt_irrefl _)
      · exact h.1 second hsecond
      · exact absurd hlt (Nat.lt_asymm (ordered.1 first hfirst))
      · exact ih ordered.2 h.2 hfirst hsecond
  · intro h
    exact ordered.imp_of_mem fun {first second} hfirst hsecond hlt =>
      h first hfirst second hsecond hlt

/-- A search through a tree finds the node that comes before all others. -/
theorem find?_nodes_eq_some_iff {test : Node → Bool} {node : Node} (hnode : node ∈ tree.nodes) :
    tree.nodes.find? test = some node ↔
      test node = true ∧ ∀ earlier ∈ tree.nodes, earlier.index < node.index →
        test earlier = false := by
  rw [List.find?_eq_some_iff_append]
  have ordered := pairwise_index_nodes tree
  constructor
  · rintro ⟨htest, front, back, hlist, hfront⟩
    refine ⟨htest, fun earlier hearlier hlt => ?_⟩
    rw [hlist, List.pairwise_append, List.pairwise_cons] at ordered
    rw [hlist, List.mem_append, List.mem_cons] at hearlier
    rcases hearlier with hearlier | rfl | hearlier
    · simpa using hfront earlier hearlier
    · exact absurd hlt (Nat.lt_irrefl _)
    · exact absurd (ordered.2.1.1 earlier hearlier) (Nat.lt_asymm hlt)
  · rintro ⟨htest, hfirst⟩
    obtain ⟨front, back, hlist⟩ := List.append_of_mem hnode
    refine ⟨htest, front, back, hlist, fun earlier hearlier => ?_⟩
    rw [hlist, List.pairwise_append] at ordered
    have hlt := ordered.2.2 earlier hearlier node List.mem_cons_self
    have hno := hfirst earlier (hlist ▸ List.mem_append_left _ hearlier) hlt
    simpa using hno

end Tree

/-! ## Subtrees -/

namespace Tree

mutual

/-- The way up from a node of a subtree comes through its top. -/
theorem mem_ancestors_of_mem_preorder {node : Node} (path : List Frame) : ∀ tree : Tree,
    node ∈ preorder path tree →
      node = ⟨tree, path⟩ ∨ (⟨tree, path⟩ : Node) ∈ Ancestry.ancestors node
  | .node label children, h => by
    rw [preorder, List.mem_cons] at h
    rcases h with rfl | h
    · exact .inl rfl
    · exact .inr (mem_ancestors_of_mem_forestPreorder label path [] children h)

theorem mem_ancestors_of_mem_forestPreorder {node : Node} (label : Label) (path : List Frame)
    (before : List Tree) : ∀ trees : List Tree,
    node ∈ forestPreorder label path before trees →
      (⟨.node label (before.reverse ++ trees), path⟩ : Node) ∈ Ancestry.ancestors node
  | [], h => by simp [forestPreorder] at h
  | tree :: after, h => by
    rw [forestPreorder, List.mem_append] at h
    rcases h with h | h
    · rcases mem_ancestors_of_mem_preorder (⟨label, before, after⟩ :: path) tree h with rfl | above
      · rw [Ancestry.ancestors_of_parent?_eq_some rfl]
        exact List.mem_cons_self
      · exact Ancestry.parent_mem_ancestors above rfl
    · have habove := mem_ancestors_of_mem_forestPreorder label path (tree :: before) after h
      rwa [List.reverse_cons, List.append_assoc] at habove

end

end Tree

namespace Node

open RouteScope.Tree (placeOf placeOf_cons)

theorem mem_descendants_of_parent? {node parent : Node} (h : node.parent? = some parent) :
    node ∈ parent.descendants := by
  rw [descendants_eq_preorder]
  exact Tree.mem_preorder_of_parent? h

theorem mem_descendants_trans {node middle top : Node} (h : node ∈ middle.descendants)
    (hmiddle : middle ∈ top.descendants) : node ∈ top.descendants := by
  rw [descendants_eq_preorder] at h hmiddle ⊢
  exact Tree.preorder_subset top.path top.tree hmiddle h

/-- A subtree holds its top and all nodes from which the way up comes through it. -/
theorem mem_descendants_iff {node top : Node} :
    node ∈ top.descendants ↔ node = top ∨ top ∈ Ancestry.ancestors node := by
  constructor
  · rw [descendants_eq_preorder]
    exact Tree.mem_ancestors_of_mem_preorder top.path top.tree
  · rintro (rfl | above)
    · rw [descendants_eq_preorder]
      exact Tree.mem_preorder_self node.path node.tree
    · exact Ancestry.rel_of_mem_ancestors (fun top node => node ∈ top.descendants)
        mem_descendants_of_parent? (fun htop hmiddle => mem_descendants_trans hmiddle htop) above

/-- A node of a tree stands in the subtree of another exactly if its position is one
of the run that begins there. -/
theorem mem_descendants_iff_index {tree : Tree} {node top : Node} (hnode : node ∈ tree.nodes)
    (htop : top ∈ tree.nodes) :
    node ∈ top.descendants ↔ top.index ≤ node.index ∧ node.index < top.index + top.tree.size := by
  have hrun := Tree.map_index_preorder top.path top.tree
  rw [← descendants_eq_preorder] at hrun
  rw [Tree.index_eq top, ← List.mem_range'_1, ← hrun]
  constructor
  · exact fun h => List.mem_map_of_mem h
  · intro h
    obtain ⟨same, hsame, hindex⟩ := List.mem_map.1 h
    have hmem : same ∈ tree.nodes := mem_descendants_trans hsame htop
    rw [← Tree.eq_of_index_eq hmem hnode hindex]
    exact hsame

/-! ## Parents and children -/

theorem siblings_sublist (label : Label) (path : List Frame) :
    ∀ before after : List Tree,
      (siblings label path before after).Sublist (forestPreorder label path before after)
  | _, [] => List.Sublist.refl _
  | before, tree :: after => by
    have htree : [(⟨tree, ⟨label, before, after⟩ :: path⟩ : Node)].Sublist
        (preorder (⟨label, before, after⟩ :: path) tree) :=
      List.singleton_sublist.2 (Tree.mem_preorder_self _ tree)
    exact htree.append (siblings_sublist label path (tree :: before) after)

/-- The children of a node come in document order. -/
theorem pairwise_index_children (node : Node) :
    node.children.Pairwise fun first second => first.index < second.index := by
  obtain ⟨⟨label, trees⟩, path⟩ := node
  have hrun := Tree.map_index_preorder path (.node label trees)
  have ordered : (preorder path (.node label trees)).Pairwise
      fun first second => first.index < second.index := by
    rw [← List.pairwise_map, hrun]
    exact List.pairwise_lt_range'
  exact ordered.sublist ((siblings_sublist label path [] trees).cons _)

open Classical in
/-- The children of a node are the nodes of the tree that have it as their parent, in
document order. -/
theorem children_eq_filter {tree : Tree} {node : Node} (hnode : node ∈ tree.nodes) :
    node.children = tree.nodes.filter fun child => child.parent? = some node := by
  refine Tree.eq_of_mem_iff (pairwise_index_children node)
    ((Tree.pairwise_index_nodes tree).filter _) fun child => ?_
  rw [List.mem_filter, decide_eq_true_iff]
  constructor
  · exact fun h => ⟨mem_nodes_of_mem_children hnode h, parent?_of_mem_children h⟩
  · exact fun h => mem_children_of_parent? h.2

/-- A parent comes before its children. -/
theorem index_lt_of_parent? {node parent : Node} (h : node.parent? = some parent) :
    parent.index < node.index := by
  obtain ⟨tree, path⟩ := node
  cases path with
  | nil => exact absurd h (Option.some_ne_none parent).symm
  | cons frame path =>
    obtain rfl := Option.some.inj h
    show placeOf path < placeOf (frame :: path)
    rw [placeOf_cons]
    omega

/-- What stands above a node comes before it. -/
theorem index_lt_of_mem_ancestors {node above : Node} (h : above ∈ Ancestry.ancestors node) :
    above.index < node.index :=
  Ancestry.rel_of_mem_ancestors (fun above node => above.index < node.index) index_lt_of_parent?
    Nat.lt_trans h

/-- Of two nodes, let one come before the other.  Then its child comes before the
child of the other, unless the other stands below it and in front of its child. -/
theorem index_lt_index_iff_of_parent? {tree : Tree} {first second child other : Node}
    (hfirst : first ∈ tree.nodes) (hsecond : second ∈ tree.nodes)
    (hlt : first.index < second.index) (hchild : child.parent? = some first)
    (hother : other.parent? = some second) :
    child.index < other.index ↔
      ¬ (first ∈ Ancestry.ancestors second ∧ second.index < child.index) := by
  have hchildMem := mem_nodes_of_mem_children hfirst (mem_children_of_parent? hchild)
  have hotherMem := mem_nodes_of_mem_children hsecond (mem_children_of_parent? hother)
  have hbehind : second.index < other.index := index_lt_of_parent? hother
  have hchildRun := (mem_descendants_iff_index hchildMem hfirst).1
    (mem_descendants_of_parent? hchild)
  have hotherRun := (mem_descendants_iff_index hotherMem hsecond).1
    (mem_descendants_of_parent? hother)
  have hne : second ≠ first := fun heq => Nat.ne_of_lt hlt (congrArg Node.index heq.symm)
  by_cases hbelow : first ∈ Ancestry.ancestors second
  · by_cases hfront : second.index < child.index
    · have hout : child ∉ second.descendants := by
        rw [mem_descendants_iff, Ancestry.ancestors_of_parent?_eq_some hchild, List.mem_cons]
        rintro (rfl | heq | habove)
        · exact Nat.lt_irrefl _ hfront
        · exact hne heq
        · exact Nat.lt_asymm hlt (index_lt_of_mem_ancestors habove)
      rw [mem_descendants_iff_index hchildMem hsecond] at hout
      refine iff_of_false ?_ (not_not.2 ⟨hbelow, hfront⟩)
      omega
    · exact iff_of_true (by omega) fun h => hfront h.2
  · have hout : second ∉ first.descendants := by
      rw [mem_descendants_iff]
      exact fun h => h.elim hne hbelow
    rw [mem_descendants_iff_index hsecond hfirst] at hout
    exact iff_of_true (by omega) fun h => hbelow h.1

end Node

end RouteScope
