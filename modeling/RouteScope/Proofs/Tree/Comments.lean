import RouteScope.Proofs.Tree.Preorder

/-!
# Trees without comments

A comment is a node of the tree and may stand between any two others.  This
module takes the comments out of a tree and says which ways through the tree
lead to the same places as before.

* `Node.withoutComments`: the place of a node in the tree without comments.
* `HasPlainComments`: comments have no parts and belong to no field.
* `nodes_withoutComments`: the nodes that are left, in document order.
* `ancestors_withoutComments`: the way up.
* `withoutComments_inj`: different nodes stay different.
-/

namespace RouteScope

/-- Whether nodes of the kind are comments. -/
def isCommentKind (kind : String) : Bool :=
  kind == "line_comment" || kind == "block_comment"

/-! ## Taking the comments out -/

namespace Tree

/-- Whether the tree is a comment. -/
def isComment (tree : Tree) : Bool := isCommentKind tree.label.kind

mutual

/-- The tree without the comments below its top. -/
def withoutComments : Tree → Tree
  | node label children => node label (dropComments children)

/-- The trees of a list that are no comments, without the comments in them. -/
def dropComments : List Tree → List Tree
  | [] => []
  | tree :: trees =>
      if tree.isComment then dropComments trees
      else withoutComments tree :: dropComments trees

end

@[simp] theorem label_withoutComments (tree : Tree) : tree.withoutComments.label = tree.label := by
  cases tree with
  | node label children => rfl

theorem dropComments_eq (trees : List Tree) :
    dropComments trees = (trees.filter (!·.isComment)).map withoutComments := by
  induction trees with
  | nil => rfl
  | cons tree trees ih =>
    rw [dropComments, ih]
    cases h : tree.isComment <;> simp [h]

theorem dropComments_of_isComment {tree : Tree} (h : tree.isComment = true) (trees : List Tree) :
    dropComments (tree :: trees) = dropComments trees := by
  rw [dropComments, if_pos h]

theorem dropComments_of_not_isComment {tree : Tree} (h : tree.isComment = false)
    (trees : List Tree) :
    dropComments (tree :: trees) = tree.withoutComments :: dropComments trees := by
  rw [dropComments, if_neg (by simp [h])]

end Tree

namespace Frame

/-- The step with no comments among the siblings. -/
def withoutComments (frame : Frame) : Frame :=
  ⟨frame.label, Tree.dropComments frame.before, Tree.dropComments frame.after⟩

/-- A tree that is no comment stays between the siblings that are left. -/
theorem plug_withoutComments (frame : Frame) {tree : Tree} (h : tree.isComment = false) :
    frame.withoutComments.plug tree.withoutComments = (frame.plug tree).withoutComments := by
  rw [plug, plug, Tree.withoutComments, withoutComments, Tree.dropComments_eq,
    Tree.dropComments_eq, Tree.dropComments_eq]
  simp [h]

end Frame

namespace Node

/-- Whether the node is a comment. -/
def isComment (node : Node) : Bool := node.tree.isComment

/-- The node in the tree without comments. -/
def withoutComments (node : Node) : Node :=
  ⟨node.tree.withoutComments, node.path.map Frame.withoutComments⟩

@[simp] theorem kind_withoutComments (node : Node) : node.withoutComments.kind = node.kind :=
  congrArg Label.kind (Tree.label_withoutComments node.tree)

@[simp] theorem text_withoutComments (node : Node) : node.withoutComments.text = node.text :=
  congrArg Label.text (Tree.label_withoutComments node.tree)

@[simp] theorem line_withoutComments (node : Node) : node.withoutComments.line = node.line :=
  congrArg (fun label : Label => label.row + 1) (Tree.label_withoutComments node.tree)

theorem isComment_eq (node : Node) : node.isComment = isCommentKind node.kind := rfl

/-- The parent is still the parent. -/
theorem parent?_withoutComments {node : Node} (h : node.isComment = false) :
    node.withoutComments.parent? = node.parent?.map withoutComments := by
  obtain ⟨tree, path⟩ := node
  cases path with
  | nil => rfl
  | cons frame path =>
    exact congrArg (fun tree => some (⟨tree, path.map Frame.withoutComments⟩ : Node))
      (frame.plug_withoutComments h)

theorem siblings_withoutComments (label : Label) (path : List Frame) (before after : List Tree) :
    siblings label (path.map Frame.withoutComments) (Tree.dropComments before)
        (Tree.dropComments after) =
      ((siblings label path before after).filter (!·.isComment)).map withoutComments := by
  induction after generalizing before with
  | nil => rfl
  | cons tree after ih =>
    rw [siblings]
    cases h : tree.isComment with
    | true =>
      have hbefore := ih (tree :: before)
      rw [Tree.dropComments_of_isComment h] at hbefore ⊢
      rw [hbefore, List.filter_cons_of_neg (by simp [isComment, h])]
    | false =>
      have hbefore := ih (tree :: before)
      rw [Tree.dropComments_of_not_isComment h] at hbefore ⊢
      rw [siblings, hbefore, List.filter_cons_of_pos (by simp [isComment, h]), List.map_cons]
      rfl

/-- The children that are no comments are still the children. -/
theorem children_withoutComments (node : Node) :
    node.withoutComments.children =
      (node.children.filter (!·.isComment)).map withoutComments := by
  obtain ⟨⟨label, trees⟩, path⟩ := node
  exact siblings_withoutComments label path [] trees

theorem namedChildren_withoutComments (node : Node) :
    node.withoutComments.namedChildren =
      (node.namedChildren.filter (!·.isComment)).map withoutComments := by
  rw [namedChildren, children_withoutComments, List.filter_map, namedChildren, List.filter_filter,
    List.filter_filter]
  congr 1
  refine List.filter_congr fun child _ => ?_
  rw [Function.comp_apply, Bool.and_comm]
  show (_ && child.tree.withoutComments.label.named) = _
  rw [Tree.label_withoutComments]

end Node

/-! ## The nodes that are left -/

/-- The nodes of a tree that are no comments, in document order. -/
def Tree.code (tree : Tree) : List Node :=
  tree.nodes.filter (!·.isComment)

/-- What every parser promises of comments: the top of a tree is none, and a comment
has no parts and belongs to no field of its parent. -/
structure HasPlainComments (tree : Tree) : Prop where
  top : tree.isComment = false
  childless : ∀ node ∈ tree.nodes, node.isComment = true → node.tree.children = []
  fieldless : ∀ node ∈ tree.nodes, node.isComment = true → node.tree.label.field? = none

variable {tree : Tree}

theorem mem_code_iff {node : Node} :
    node ∈ tree.code ↔ node ∈ tree.nodes ∧ node.isComment = false := by
  rw [Tree.code, List.mem_filter, Bool.not_eq_true']

theorem mem_nodes_of_mem_code {node : Node} (h : node ∈ tree.code) : node ∈ tree.nodes :=
  (mem_code_iff.1 h).1

theorem isComment_of_mem_code {node : Node} (h : node ∈ tree.code) : node.isComment = false :=
  (mem_code_iff.1 h).2

namespace Tree

mutual

/-- Below a node that is no comment, the nodes that are left are those that are no
comments.  The induction is over the tree; a comment on the way has nothing below
it. -/
theorem preorder_withoutComments (path : List Frame) : ∀ tree : Tree,
    tree.isComment = false →
    (∀ node ∈ preorder path tree, node.isComment = true → node.tree.children = []) →
    preorder (path.map Frame.withoutComments) tree.withoutComments =
      ((preorder path tree).filter (!·.isComment)).map Node.withoutComments
  | .node label children, htop, childless => by
    have hforest := forestPreorder_withoutComments label path [] children
      fun node hnode => childless node (List.mem_cons_of_mem _ hnode)
    rw [withoutComments, preorder, preorder,
      List.filter_cons_of_pos (by simp [Node.isComment, htop]), List.map_cons, ← hforest]
    rfl

theorem forestPreorder_withoutComments (label : Label) (path : List Frame)
    (before : List Tree) : ∀ trees : List Tree,
    (∀ node ∈ forestPreorder label path before trees,
      node.isComment = true → node.tree.children = []) →
    forestPreorder label (path.map Frame.withoutComments) (dropComments before)
        (dropComments trees) =
      ((forestPreorder label path before trees).filter (!·.isComment)).map Node.withoutComments
  | [], _ => rfl
  | tree :: after, childless => by
    have hrest := forestPreorder_withoutComments label path (tree :: before) after
      fun node hnode => childless node (List.mem_append_right _ hnode)
    have hbelow : ∀ node ∈ preorder (⟨label, before, after⟩ :: path) tree,
        node.isComment = true → node.tree.children = [] :=
      fun node hnode => childless node (List.mem_append_left _ hnode)
    rw [forestPreorder, List.filter_append, List.map_append, ← hrest]
    cases h : tree.isComment with
    | true =>
      obtain ⟨treeLabel, children⟩ := tree
      obtain rfl : children = [] := hbelow _ (mem_preorder_self _ _) h
      rw [dropComments_of_isComment h, dropComments_of_isComment h, preorder, forestPreorder,
        List.filter_cons_of_neg (by simp [Node.isComment, h])]
      rfl
    | false =>
      rw [dropComments_of_not_isComment h, dropComments_of_not_isComment h, forestPreorder,
        ← preorder_withoutComments _ tree h hbelow]
      rfl

end

end Tree

namespace HasPlainComments

variable (plain : HasPlainComments tree)

include plain

theorem nodes_withoutComments :
    tree.withoutComments.nodes = tree.code.map Node.withoutComments := by
  rw [Tree.code, Tree.nodes_eq_preorder, Tree.nodes_eq_preorder]
  refine Tree.preorder_withoutComments [] tree plain.top fun node hnode => ?_
  rw [← Tree.nodes_eq_preorder] at hnode
  exact plain.childless node hnode

theorem withoutComments_mem_nodes {node : Node} (h : node ∈ tree.code) :
    node.withoutComments ∈ tree.withoutComments.nodes := by
  rw [plain.nodes_withoutComments]
  exact List.mem_map_of_mem h

/-- A comment has no parts, so no parent is one. -/
theorem parent_mem_code {node parent : Node} (h : node ∈ tree.nodes)
    (hparent : node.parent? = some parent) : parent ∈ tree.code := by
  have hmem := mem_nodes_of_parent? h hparent
  refine mem_code_iff.2 ⟨hmem, Bool.eq_false_iff.2 fun hcomment => ?_⟩
  have hchildren := plain.childless parent hmem hcomment
  obtain ⟨below, path⟩ := node
  cases path with
  | nil => exact absurd hparent (Option.some_ne_none parent).symm
  | cons frame path =>
    obtain rfl := Option.some.inj hparent
    exact absurd hchildren (by simp [Frame.plug, Tree.children])

theorem ancestors_mem_code {node above : Node} (h : node ∈ tree.nodes)
    (habove : above ∈ Ancestry.ancestors node) : above ∈ tree.code := by
  refine Ancestry.rel_of_mem_ancestors (fun above node => node ∈ tree.nodes → above ∈ tree.code)
    ?_ ?_ habove h
  · exact fun hparent hnode => plain.parent_mem_code hnode hparent
  · exact fun htop hmiddle hnode => htop (mem_nodes_of_mem_code (hmiddle hnode))

/-- The way up is the same. -/
theorem ancestors_withoutComments {node : Node} (h : node ∈ tree.code) :
    Ancestry.ancestors node.withoutComments =
      (Ancestry.ancestors node).map Node.withoutComments := by
  obtain ⟨below, path⟩ := node
  induction path generalizing below with
  | nil =>
    rw [Ancestry.ancestors_of_parent?_eq_none rfl, Ancestry.ancestors_of_parent?_eq_none rfl]
    rfl
  | cons frame path ih =>
    have hparent := plain.parent_mem_code (mem_nodes_of_mem_code h) rfl
    have hsame : Ancestry.parent? (⟨below, frame :: path⟩ : Node).withoutComments =
        some (⟨frame.plug below, path⟩ : Node).withoutComments :=
      Node.parent?_withoutComments (isComment_of_mem_code h)
    have hup : Ancestry.ancestors (⟨below, frame :: path⟩ : Node) =
        ⟨frame.plug below, path⟩ :: Ancestry.ancestors (⟨frame.plug below, path⟩ : Node) :=
      Ancestry.ancestors_of_parent?_eq_some rfl
    rw [Ancestry.ancestors_of_parent?_eq_some hsame, ih (frame.plug below) hparent, hup,
      List.map_cons]

theorem root_withoutComments {node : Node} (h : node ∈ tree.code) :
    node.withoutComments.root = tree.withoutComments.root :=
  Tree.mem_nodes_iff.1 (plain.withoutComments_mem_nodes h)

end HasPlainComments

/-! ## Different nodes -/

/-- Two ways to split a list at an element that passes a test are the same if as many
elements in front of it pass. -/
theorem length_eq_of_append_cons {α : Type} {p : α → Bool} {front back front' back' : List α}
    {x y : α} (hx : p x = true) (hy : p y = true)
    (hcount : (front.filter p).length = (front'.filter p).length)
    (h : front ++ x :: back = front' ++ y :: back') : front.length = front'.length := by
  rcases List.append_eq_append_iff.1 h with ⟨between, rfl, hback⟩ | ⟨between, rfl, hback⟩
  · cases between with
    | nil => rw [List.append_nil]
    | cons z between =>
      obtain ⟨rfl, -⟩ := List.cons.inj hback
      rw [List.filter_append, List.filter_cons_of_pos hx, List.length_append,
        List.length_cons] at hcount
      omega
  · cases between with
    | nil => rw [List.append_nil]
    | cons z between =>
      obtain ⟨rfl, -⟩ := List.cons.inj hback
      rw [List.filter_append, List.filter_cons_of_pos hy, List.length_append,
        List.length_cons] at hcount
      omega

theorem length_dropComments (trees : List Tree) :
    (Tree.dropComments trees).length = (trees.filter (!·.isComment)).length := by
  rw [Tree.dropComments_eq, List.length_map]

namespace HasPlainComments

variable (plain : HasPlainComments tree)

include plain

/-- Different nodes stay different when the comments are gone.  The induction is over
the way up: with the same parent and as many siblings in front that are no
comments, the nodes are the same. -/
theorem withoutComments_inj {node other : Node} (hnode : node ∈ tree.code)
    (hother : other ∈ tree.code) (h : node.withoutComments = other.withoutComments) :
    node = other := by
  obtain ⟨below, path⟩ := node
  obtain ⟨under, way⟩ := other
  have hway : path.map Frame.withoutComments = way.map Frame.withoutComments :=
    congrArg Node.path h
  induction path generalizing below under way with
  | nil =>
    obtain rfl : way = [] := List.map_eq_nil_iff.1 hway.symm
    have hbelow := Tree.mem_nodes_iff.1 (mem_nodes_of_mem_code hnode)
    have hunder := Tree.mem_nodes_iff.1 (mem_nodes_of_mem_code hother)
    exact hbelow.trans hunder.symm
  | cons frame path ih =>
    cases way with
    | nil => exact absurd hway (List.cons_ne_nil _ _)
    | cons step way =>
      rw [List.map_cons, List.map_cons, List.cons.injEq] at hway
      have htree : below.withoutComments = under.withoutComments := congrArg Node.tree h
      have hbelow : below.isComment = false := isComment_of_mem_code hnode
      have hunder : under.isComment = false := isComment_of_mem_code hother
      have hparents : (⟨frame.plug below, path⟩ : Node).withoutComments =
          (⟨step.plug under, way⟩ : Node).withoutComments := by
        rw [Node.withoutComments, Node.withoutComments, ← Frame.plug_withoutComments frame hbelow,
          ← Frame.plug_withoutComments step hunder, hway.1, htree, hway.2]
      have hframe := plain.parent_mem_code (mem_nodes_of_mem_code hnode) rfl
      have hstep := plain.parent_mem_code (mem_nodes_of_mem_code hother) rfl
      have hparent := ih (frame.plug below) hframe (step.plug under) way hstep hparents hway.2
      obtain ⟨hplug, rfl⟩ := Node.mk.inj hparent
      have hsiblings : frame.before.reverse ++ below :: frame.after =
          step.before.reverse ++ under :: step.after := congrArg Tree.children hplug
      have hcount : (frame.before.filter (!·.isComment)).length =
          (step.before.filter (!·.isComment)).length := by
        rw [← length_dropComments, ← length_dropComments]
        exact congrArg (fun frame : Frame => frame.before.length) hway.1
      have hlength := length_eq_of_append_cons (p := (!·.isComment)) (by simp [hbelow])
        (by simp [hunder]) (by simpa using hcount) hsiblings
      obtain ⟨rfl, rfl⟩ := Node.plug_inj (by simpa using hlength) hplug
      rfl

theorem isSame_withoutComments {node other : Node} (hnode : node ∈ tree.code)
    (hother : other ∈ tree.code) :
    node.withoutComments.isSame other.withoutComments = node.isSame other := by
  have hroot := Tree.mem_nodes_iff.1 (mem_nodes_of_mem_code hnode)
  have hroot' := Tree.mem_nodes_iff.1 (mem_nodes_of_mem_code hother)
  rw [Bool.eq_iff_iff, Node.isSame_iff (hroot.trans hroot'.symm), Node.isSame_iff
    ((plain.root_withoutComments hnode).trans (plain.root_withoutComments hother).symm)]
  constructor
  · exact plain.withoutComments_inj hnode hother
  · exact congrArg Node.withoutComments

end HasPlainComments

end RouteScope
