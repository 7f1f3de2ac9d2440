import Mathlib.Data.List.Basic
import Mathlib.Data.List.Find
import RouteScope.Proofs.Tree.Comments

/-!
# Searches that pass over comments

A search in a tree and the same search in the tree without comments come to the
same place, as long as no step of it is meant for a comment.  `Corresponds` says
so of two searches, and there is a lemma for each way to go on: to the parent, to
a field, to a child of a kind, or to the first named child where that is no
comment.

* `Corresponds.bind`, `Corresponds.filter`, `Corresponds.orElse`: searches from
  searches.
* `Corresponds.map_eq`, `Corresponds.any_eq`: what is read off the node that is
  found is the same in both trees.
* `filterMap_withoutComments`: what is read off many nodes.
-/

namespace RouteScope

variable {tree : Tree}

/-- A search in the tree finds a node that is no comment, and the same search in the
tree without comments finds its place there; or neither finds anything. -/
structure Corresponds (tree : Tree) (found left : Option Node) : Prop where
  eq_map : left = found.map Node.withoutComments
  mem_code : ∀ node, found = some node → node ∈ tree.code

namespace Corresponds

variable {found left other otherLeft : Option Node}

theorem nothing : Corresponds tree none none :=
  ⟨rfl, fun _ h => absurd h (Option.some_ne_none _).symm⟩

theorem place {node : Node} (h : node ∈ tree.code) :
    Corresponds tree (some node) (some node.withoutComments) :=
  ⟨rfl, fun _ heq => Option.some.inj heq ▸ h⟩

/-- A search may go on from the node that is found. -/
theorem bind (h : Corresponds tree found left) {next nextLeft : Node → Option Node}
    (hnext : ∀ node ∈ tree.code, found = some node →
      Corresponds tree (next node) (nextLeft node.withoutComments)) :
    Corresponds tree (found.bind next) (left.bind nextLeft) := by
  obtain ⟨rfl, hmem⟩ := h
  cases found with
  | none => exact nothing
  | some node => exact hnext node (hmem node rfl) rfl

theorem filter (h : Corresponds tree found left) {test testLeft : Node → Bool}
    (htest : ∀ node ∈ tree.code, testLeft node.withoutComments = test node) :
    Corresponds tree (found.filter test) (left.filter testLeft) := by
  obtain ⟨rfl, hmem⟩ := h
  cases found with
  | none => exact nothing
  | some node =>
    have hnode := hmem node rfl
    rw [Option.map_some, Option.filter_some, Option.filter_some, htest node hnode]
    cases test node with
    | true => exact place hnode
    | false => exact nothing

theorem orElse (h : Corresponds tree found left) (h' : Corresponds tree other otherLeft) :
    Corresponds tree (found <|> other) (left <|> otherLeft) := by
  obtain ⟨rfl, hmem⟩ := h
  cases found with
  | none => exact h'
  | some node => exact place (hmem node rfl)

/-- A node may take the place of one that is not found. -/
theorem getD (h : Corresponds tree found left) {node : Node} (hnode : node ∈ tree.code) :
    left.getD node.withoutComments = (found.getD node).withoutComments ∧
      found.getD node ∈ tree.code := by
  obtain ⟨rfl, hmem⟩ := h
  cases found with
  | none => exact ⟨rfl, hnode⟩
  | some other => exact ⟨rfl, hmem other rfl⟩

/-- What is read off the node that is found is the same. -/
theorem bind_eq (h : Corresponds tree found left) {α : Type} {read readLeft : Node → Option α}
    (hread : ∀ node ∈ tree.code, found = some node →
      readLeft node.withoutComments = read node) :
    left.bind readLeft = found.bind read := by
  obtain ⟨rfl, hmem⟩ := h
  cases found with
  | none => rfl
  | some node => exact hread node (hmem node rfl) rfl

theorem map_eq (h : Corresponds tree found left) {α : Type} {read readLeft : Node → α}
    (hread : ∀ node ∈ tree.code, found = some node →
      readLeft node.withoutComments = read node) :
    left.map readLeft = found.map read := by
  obtain ⟨rfl, hmem⟩ := h
  cases found with
  | none => rfl
  | some node => exact congrArg Option.some (hread node (hmem node rfl) rfl)

theorem any_eq (h : Corresponds tree found left) {test testLeft : Node → Bool}
    (htest : ∀ node ∈ tree.code, found = some node →
      testLeft node.withoutComments = test node) :
    left.any testLeft = found.any test := by
  obtain ⟨rfl, hmem⟩ := h
  cases found with
  | none => rfl
  | some node => exact htest node (hmem node rfl) rfl

theorem all_eq (h : Corresponds tree found left) {test testLeft : Node → Bool}
    (htest : ∀ node ∈ tree.code, found = some node →
      testLeft node.withoutComments = test node) :
    left.all testLeft = found.all test := by
  obtain ⟨rfl, hmem⟩ := h
  cases found with
  | none => rfl
  | some node => exact htest node (hmem node rfl) rfl

end Corresponds

/-! ## Searches among nodes -/

/-- Among some nodes of the tree, comments are never what is searched for. -/
theorem Corresponds.find? {nodes : List Node} (hnodes : ∀ node ∈ nodes, node ∈ tree.nodes)
    {test testLeft : Node → Bool}
    (hcomment : ∀ node ∈ nodes, node.isComment = true → test node = false)
    (htest : ∀ node ∈ tree.code, testLeft node.withoutComments = test node) :
    Corresponds tree (nodes.find? test)
      (((nodes.filter (!·.isComment)).map Node.withoutComments).find? testLeft) := by
  have hfind : (nodes.filter (!·.isComment)).find? (testLeft ∘ Node.withoutComments) =
      nodes.find? test := by
    rw [List.find?_filter]
    refine List.find?_congr fun node hnode => ?_
    cases h : node.isComment with
    | true => simp [hcomment node hnode h]
    | false => simp [htest node (mem_code_iff.2 ⟨hnodes node hnode, h⟩)]
  constructor
  · rw [List.find?_map, hfind]
  · intro node hfound
    have hmem := List.mem_of_find?_eq_some hfound
    refine mem_code_iff.2 ⟨hnodes node hmem, Bool.eq_false_iff.2 fun h => ?_⟩
    have htrue := List.find?_some hfound
    rw [hcomment node hmem h] at htrue
    exact absurd htrue Bool.false_ne_true

/-- What is read off the nodes one by one is the same if nothing is read off
comments. -/
theorem filterMap_withoutComments {α : Type} {nodes : List Node}
    (hnodes : ∀ node ∈ nodes, node ∈ tree.nodes) {read readLeft : Node → Option α}
    (hcomment : ∀ node ∈ nodes, node.isComment = true → read node = none)
    (hread : ∀ node ∈ tree.code, readLeft node.withoutComments = read node) :
    ((nodes.filter (!·.isComment)).map Node.withoutComments).filterMap readLeft =
      nodes.filterMap read := by
  rw [List.filterMap_map, List.filterMap_filter]
  refine List.filterMap_congr fun node hnode => ?_
  cases h : node.isComment with
  | true => rw [hcomment node hnode h]; rfl
  | false => exact hread node (mem_code_iff.2 ⟨hnodes node hnode, h⟩)

/-- So is what passes a test that no comment passes. -/
theorem filter_withoutComments {nodes : List Node} (hnodes : ∀ node ∈ nodes, node ∈ tree.nodes)
    {test testLeft : Node → Bool}
    (hcomment : ∀ node ∈ nodes, node.isComment = true → test node = false)
    (htest : ∀ node ∈ tree.code, testLeft node.withoutComments = test node) :
    ((nodes.filter (!·.isComment)).map Node.withoutComments).filter testLeft =
      (nodes.filter test).map Node.withoutComments := by
  rw [List.filter_map, List.filter_filter]
  congr 1
  refine List.filter_congr fun node hnode => ?_
  cases h : node.isComment with
  | true => simp [hcomment node hnode h]
  | false => simp [htest node (mem_code_iff.2 ⟨hnodes node hnode, h⟩)]

namespace HasPlainComments

variable (plain : HasPlainComments tree)

include plain

/-- What is read off all nodes of a tree. -/
theorem filterMap_nodes {α : Type} {read readLeft : Node → Option α}
    (hcomment : ∀ node, node.isComment = true → read node = none)
    (hread : ∀ node ∈ tree.code, readLeft node.withoutComments = read node) :
    tree.withoutComments.nodes.filterMap readLeft = tree.nodes.filterMap read := by
  rw [plain.nodes_withoutComments, Tree.code]
  exact filterMap_withoutComments (fun _ h => h) (fun node _ h => hcomment node h) hread

theorem filter_nodes {test testLeft : Node → Bool}
    (hcomment : ∀ node, node.isComment = true → test node = false)
    (htest : ∀ node ∈ tree.code, testLeft node.withoutComments = test node) :
    tree.withoutComments.nodes.filter testLeft =
      (tree.nodes.filter test).map Node.withoutComments := by
  rw [plain.nodes_withoutComments, Tree.code]
  exact filter_withoutComments (fun _ h => h) (fun node _ h => hcomment node h) htest

end HasPlainComments

/-- A node of a kind that is none of comments is no comment. -/
theorem isComment_of_kind {node : Node} {kind : String} (hkind : isCommentKind kind = false)
    (h : node.kind = kind) : node.isComment = false := by
  rw [Node.isComment_eq, h, hkind]

theorem kind_ne_of_isComment {node : Node} {kind : String} (hkind : isCommentKind kind = false)
    (h : node.isComment = true) : (node.kind == kind) = false := by
  rw [beq_eq_false_iff_ne]
  intro heq
  rw [isComment_of_kind hkind heq] at h
  exact absurd h Bool.false_ne_true

/-- The first named node below is a comment. -/
def Node.OpensWithComment (node : Node) : Prop :=
  ∃ first, node.namedChildren.head? = some first ∧ first.isComment = true

instance (node : Node) : Decidable node.OpensWithComment :=
  decidable_of_iff _ (Option.any_eq_true (·.isComment) node.namedChildren.head?)

theorem mem_nodes_of_mem_namedChildren {node child : Node} (h : node ∈ tree.nodes)
    (hchild : child ∈ node.namedChildren) : child ∈ tree.nodes :=
  mem_nodes_of_mem_children h (List.mem_filter.1 hchild).1

namespace Corresponds

section Ways

variable {node : Node} (hnode : node ∈ tree.code)

include hnode

/-! ## Down -/

/-- A search among the named nodes below, for what is never a comment. -/
theorem find?_namedChildren {test testLeft : Node → Bool}
    (hcomment : ∀ child, child.isComment = true → test child = false)
    (htest : ∀ child, testLeft child.withoutComments = test child) :
    Corresponds tree (node.namedChildren.find? test)
      (node.withoutComments.namedChildren.find? testLeft) := by
  rw [Node.namedChildren_withoutComments]
  exact .find? (fun child => mem_nodes_of_mem_namedChildren (mem_nodes_of_mem_code hnode))
    (fun child _ => hcomment child) fun child _ => htest child

theorem childOfKind? {kind : String} (hkind : isCommentKind kind = false) :
    Corresponds tree (node.childOfKind? kind) (node.withoutComments.childOfKind? kind) :=
  find?_namedChildren hnode (fun _ h => kind_ne_of_isComment hkind h) fun child => by
    rw [Node.kind_withoutComments]

/-- The first named node below is the same if it is no comment. -/
theorem head?_namedChildren (hopens : ¬ node.OpensWithComment) :
    Corresponds tree node.namedChildren.head? node.withoutComments.namedChildren.head? := by
  rw [Node.namedChildren_withoutComments]
  cases hnamed : node.namedChildren with
  | nil => exact .nothing
  | cons first rest =>
    have hfirst : first.isComment = false := Bool.eq_false_iff.2 fun h =>
      hopens ⟨first, by rw [hnamed]; rfl, h⟩
    have hmem : first ∈ tree.code := mem_code_iff.2 ⟨mem_nodes_of_mem_namedChildren
      (mem_nodes_of_mem_code hnode) (hnamed ▸ List.mem_cons_self), hfirst⟩
    rw [List.filter_cons_of_pos (by simp [hfirst])]
    exact .place hmem

variable (plain : HasPlainComments tree)

include plain

theorem field? (name : String) :
    Corresponds tree (node.field? name) (node.withoutComments.field? name) := by
  have hnodes : ∀ child ∈ node.children, child ∈ tree.nodes := fun child hchild =>
    mem_nodes_of_mem_children (mem_nodes_of_mem_code hnode) hchild
  rw [Node.field?, Node.field?, Node.children_withoutComments]
  refine .find? hnodes (fun child hchild h => ?_) fun child _ => ?_
  · rw [plain.fieldless child (hnodes child hchild) h]
    rfl
  · show (child.tree.withoutComments.label.field? == _) = _
    rw [Tree.label_withoutComments]

/-! ## Up -/

theorem parent? : Corresponds tree node.parent? node.withoutComments.parent? :=
  ⟨Node.parent?_withoutComments (isComment_of_mem_code hnode),
    fun _ h => plain.parent_mem_code (mem_nodes_of_mem_code hnode) h⟩

theorem parentOfKind? (kind : String) :
    Corresponds tree (node.parentOfKind? kind) (node.withoutComments.parentOfKind? kind) :=
  (parent? hnode plain).filter fun parent _ => by rw [Node.kind_withoutComments]

end Ways

end Corresponds

end RouteScope
