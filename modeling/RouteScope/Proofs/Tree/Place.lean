import RouteScope.Tree.Node

/-!
# Places in a tree

The places right below a node have it as their parent, and the way up from a
node and from its parent lead to the same top.  Within one tree, the numbers of
earlier siblings on the way up tell two places apart.

* `parent?_of_mem_children`: the way down and the way up agree.
* `ancestors_eq_above`: the way up follows the steps of the path.
* `root_of_parent?`: one step up stays in the tree.
* `isSame_iff`: in one tree, to be at the same position is to be the same.
-/

namespace RouteScope.Node

/-! ## Up and down -/

theorem parent?_of_mem_siblings {label : Label} {path : List Frame} {child : Node} :
    ∀ before after : List Tree, child ∈ siblings label path before after →
      child.parent? = some ⟨.node label (before.reverse ++ after), path⟩
  | before, [], h => absurd h List.not_mem_nil
  | before, tree :: after, h => by
    rw [siblings, List.mem_cons] at h
    rcases h with rfl | h
    · rfl
    · have hparent := parent?_of_mem_siblings (tree :: before) after h
      rw [hparent, List.reverse_cons, List.append_assoc]
      rfl

theorem parent?_of_mem_children {node child : Node} (h : child ∈ node.children) :
    child.parent? = some node := by
  obtain ⟨⟨label, trees⟩, path⟩ := node
  exact parent?_of_mem_siblings [] trees h

theorem mem_siblings (label : Label) (path : List Frame) (tree : Tree) (after : List Tree)
    (start : List Tree) : ∀ before : List Tree,
    ⟨tree, ⟨label, start.reverse ++ before, after⟩ :: path⟩ ∈
      siblings label path before (start ++ tree :: after) := by
  induction start with
  | nil => exact fun before => List.mem_cons_self
  | cons first start ih =>
    intro before
    rw [List.reverse_cons, List.append_assoc, List.singleton_append]
    exact List.mem_cons_of_mem _ (ih (first :: before))

theorem mem_children_of_parent? {node child : Node} (h : child.parent? = some node) :
    child ∈ node.children := by
  obtain ⟨tree, path⟩ := child
  cases path with
  | nil => exact absurd h (Option.some_ne_none node).symm
  | cons frame path =>
    obtain rfl := Option.some.inj h
    have hmem := mem_siblings frame.label path tree frame.after frame.before.reverse []
    rwa [List.reverse_reverse, List.append_nil] at hmem

theorem parent?_of_mem_namedChildren {node child : Node} (h : child ∈ node.namedChildren) :
    child.parent? = some node :=
  parent?_of_mem_children (List.mem_filter.1 h).1

theorem parent?_of_field? {node child : Node} {name : String}
    (h : node.field? name = some child) : child.parent? = some node :=
  parent?_of_mem_children (List.mem_of_find?_eq_some h)

theorem root_of_parent? {node parent : Node} (h : node.parent? = some parent) :
    parent.root = node.root := by
  obtain ⟨tree, path⟩ := node
  cases path with
  | nil => exact absurd h (Option.some_ne_none parent).symm
  | cons frame path =>
    obtain rfl := Option.some.inj h
    rfl

/-- A child has fewer nodes in its subtree than the parent. -/
theorem size_lt_of_mem_children {node child : Node} (h : child ∈ node.children) :
    child.tree.size < node.tree.size := by
  have hparent := parent?_of_mem_children h
  obtain ⟨tree, path⟩ := child
  cases path with
  | nil => exact absurd hparent (Option.some_ne_none node).symm
  | cons frame path =>
    obtain rfl := Option.some.inj hparent
    show tree.size < 1 + Tree.forestSize (frame.before.reverse ++ tree :: frame.after)
    induction frame.before.reverse with
    | nil =>
      rw [List.nil_append, Tree.forestSize_cons]
      omega
    | cons sibling siblings ih =>
      rw [List.cons_append, Tree.forestSize_cons]
      omega

/-- The places above a tree that stands below the steps of a path, the nearest
first. -/
def above (tree : Tree) : List Frame → List Node
  | [] => []
  | frame :: path => ⟨frame.plug tree, path⟩ :: above (frame.plug tree) path

theorem ancestors_eq_above (node : Node) : Ancestry.ancestors node = above node.tree node.path := by
  obtain ⟨tree, path⟩ := node
  induction path generalizing tree with
  | nil => exact Ancestry.ancestors_of_parent?_eq_none rfl
  | cons frame path ih =>
    rw [Ancestry.ancestors_of_parent?_eq_some rfl, ih]
    rfl

/-! ## Positions -/

/-- A frame can be taken off a tree in one way only, if it is known how many
siblings come before. -/
theorem plug_inj {frame other : Frame} {tree below : Tree}
    (hlength : frame.before.length = other.before.length)
    (h : frame.plug tree = other.plug below) : frame = other ∧ tree = below := by
  obtain ⟨label, before, after⟩ := frame
  obtain ⟨label', before', after'⟩ := other
  simp only [Frame.plug, Tree.node.injEq] at h
  obtain ⟨rfl, happend⟩ := h
  have hreverse : before.reverse.length = before'.reverse.length := by
    rw [List.length_reverse, List.length_reverse]
    exact hlength
  obtain ⟨hbefore, hcons⟩ := List.append_inj happend hreverse
  obtain rfl := List.reverse_inj.1 hbefore
  obtain ⟨rfl, rfl⟩ := List.cons.inj hcons
  exact ⟨rfl, rfl⟩

theorem top_inj {tree below : Tree} {path way : List Frame}
    (hposition : path.map (·.before.length) = way.map (·.before.length))
    (h : top tree path = top below way) : tree = below ∧ path = way := by
  induction path generalizing tree below way with
  | nil =>
    obtain rfl : way = [] := List.map_eq_nil_iff.1 hposition.symm
    exact ⟨congrArg Node.tree h, rfl⟩
  | cons frame path ih =>
    cases way with
    | nil => exact absurd hposition (List.cons_ne_nil _ _)
    | cons other way =>
      rw [List.map_cons, List.map_cons, List.cons.injEq] at hposition
      obtain ⟨hplug, rfl⟩ := ih hposition.2 h
      obtain ⟨rfl, rfl⟩ := plug_inj hposition.1 hplug
      exact ⟨rfl, rfl⟩

/-- Within one tree, two nodes at the same position are the same. -/
theorem isSame_iff {node other : Node} (h : node.root = other.root) :
    node.isSame other = true ↔ node = other := by
  obtain ⟨tree, path⟩ := node
  obtain ⟨below, way⟩ := other
  unfold isSame
  rw [beq_iff_eq]
  constructor
  · intro hposition
    obtain ⟨rfl, rfl⟩ := top_inj hposition h
    rfl
  · intro heq
    rw [heq]

end RouteScope.Node
