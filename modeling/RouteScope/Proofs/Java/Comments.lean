import RouteScope.Java.Recognizer
import RouteScope.Proofs.Java.Description
import RouteScope.Proofs.Tree.Search

/-!
# Comments in a Java file

Almost everything that is read off a Java file is found by kinds and fields, which
comments do not have.  There are three places where the next named node is taken
whatever it is: behind `extends`, in the list behind `implements`, and as the first
argument of a call of `language`.  `CommentsStandAside` says that no comment stands
there, and then the class index of the file and the answers about its nodes are
what they are without comments.
-/

namespace RouteScope.Java

/-- What the grammar promises, besides plain comments: a generic type and a class
literal begin with a type, string literals are named, and the list of arguments of a
call is its field. -/
structure HasJavaShape (tree : Tree) : Prop extends HasPlainComments tree where
  generic : ∀ node ∈ tree.nodes, node.kind = "generic_type" → ¬ node.OpensWithComment
  literal : ∀ node ∈ tree.nodes, node.kind = "class_literal" → ¬ node.OpensWithComment
  named : ∀ node ∈ tree.nodes, isLiteral node = true → node.tree.label.named = true
  arguments : ∀ list ∈ tree.nodes, list.kind = "argument_list" →
    ∀ call ∈ list.parentOfKind? "method_invocation", call.field? "arguments" = some list

/-- No comment stands where the next named node is taken for a type or for the name
of a language. -/
structure CommentsStandAside (tree : Tree) : Prop where
  superclass : ∀ node ∈ tree.nodes, ∀ clause ∈ node.field? "superclass",
    ¬ clause.OpensWithComment
  interfaces : ∀ list ∈ tree.nodes, list.kind = "type_list" →
    ∀ part ∈ list.namedChildren, part.isComment = false
  language : ∀ call ∈ tree.nodes, isCallOf ["language"] call = true →
    ∀ list ∈ call.field? "arguments", ¬ list.OpensWithComment

variable {tree : Tree} (shape : HasJavaShape tree) {node : Node}

/-! ## Names -/

section Names

variable (hnode : node ∈ tree.code)

include hnode shape

theorem declaredName?_withoutComments :
    declaredName? node.withoutComments = declaredName? node :=
  (Corresponds.field? hnode shape.toHasPlainComments "name").map_eq fun name _ _ =>
    Node.text_withoutComments name

theorem methodName?_withoutComments : methodName? node.withoutComments = methodName? node :=
  (Corresponds.field? hnode shape.toHasPlainComments "name").map_eq fun name _ _ =>
    Node.text_withoutComments name

theorem isCallOf_withoutComments (methods : List String) :
    isCallOf methods node.withoutComments = isCallOf methods node := by
  rw [isCallOf, isCallOf, methodName?_withoutComments shape hnode]

omit shape hnode in
theorem isDeclaration_withoutComments (node : Node) :
    isDeclaration node.withoutComments = isDeclaration node := by
  rw [isDeclaration, isDeclaration, Node.kind_withoutComments]

omit shape hnode in
theorem isName_withoutComments (node : Node) : isName node.withoutComments = isName node := by
  rw [isName, isName, Node.kind_withoutComments]

omit shape hnode in
theorem isName_of_isComment (h : node.isComment = true) : isName node = false := by
  rw [isName, kind_ne_of_isComment (by decide) h, kind_ne_of_isComment (by decide) h]
  rfl

end Names

theorem isDeclaration_of_isComment (h : node.isComment = true) : isDeclaration node = false := by
  have hkinds : ∀ kind ∈ declarationKinds, isCommentKind kind = false := by decide
  refine Bool.eq_false_iff.2 fun hdeclares => ?_
  have hkind := List.contains_iff_mem.1 hdeclares
  rw [isComment_of_kind (hkinds node.kind hkind) rfl] at h
  exact absurd h Bool.false_ne_true

theorem mem_code_of_isDeclaration (hmem : node ∈ tree.nodes)
    (declares : isDeclaration node = true) : node ∈ tree.code := by
  refine mem_code_iff.2 ⟨hmem, Bool.eq_false_iff.2 fun hcomment => ?_⟩
  rw [isDeclaration_of_isComment hcomment] at declares
  exact absurd declares Bool.false_ne_true

/-! ## Types -/

/-- The first named tree of a list, as a node. -/
theorem firstTypeName_eq (label : Label) (path : List Frame) (before trees : List Tree) :
    firstTypeName trees =
      (((Node.siblings label path before trees).filter (·.tree.label.named)).head?.map
        (typeName ·.tree)).getD "" := by
  induction trees generalizing before with
  | nil => rw [firstTypeName]; rfl
  | cons tree trees ih =>
    rw [firstTypeName, Node.siblings]
    cases h : tree.label.named with
    | true => rw [if_pos rfl, List.filter_cons_of_pos (by simpa using h)]; rfl
    | false =>
      rw [if_neg Bool.false_ne_true, List.filter_cons_of_neg (by simp [h]), ih (tree :: before)]

theorem typeName_eq (node : Node) :
    typeName node.tree =
      if node.kind == "generic_type" then
        (node.namedChildren.head?.map (typeName ·.tree)).getD ""
      else Text.withoutBlanks node.text := by
  obtain ⟨⟨label, children⟩, path⟩ := node
  rw [typeName, firstTypeName_eq label path [] children]
  rfl

include shape

/-- The name of a type is the same.  The induction is over the size of the type. -/
theorem typeName_withoutComments (hnode : node ∈ tree.code) :
    typeName node.withoutComments.tree = typeName node.tree := by
  induction hsize : node.tree.size using Nat.strong_induction_on generalizing node with
  | _ size ih =>
    rw [typeName_eq, typeName_eq, Node.kind_withoutComments, Node.text_withoutComments]
    cases hgeneric : node.kind == "generic_type" with
    | false => rfl
    | true =>
      have hopens := shape.generic node (mem_nodes_of_mem_code hnode) (beq_iff_eq.1 hgeneric)
      have hhead : node.withoutComments.namedChildren.head?.map (typeName ·.tree) =
          node.namedChildren.head?.map (typeName ·.tree) :=
        (Corresponds.head?_namedChildren hnode hopens).map_eq fun first hfirst hfound => by
          have hchild := (List.mem_filter.1 (List.mem_of_mem_head? hfound)).1
          exact ih first.tree.size (hsize ▸ Node.size_lt_of_mem_children hchild) hfirst rfl
      rw [if_pos rfl, if_pos rfl, hhead]

/-! ## Headers -/

/-- The types in a list of a clause, which has no comments. -/
theorem typeList_withoutComments (aside : CommentsStandAside tree) {clause? left? : Option Node}
    (h : Corresponds tree clause? left?) : typeList left? = typeList clause? := by
  have hlist : Corresponds tree (clause?.bind (·.childOfKind? "type_list"))
      (left?.bind (·.childOfKind? "type_list")) :=
    h.bind fun clause hclause _ => .childOfKind? hclause (by decide)
  obtain ⟨hmap, hmem⟩ := hlist
  rw [typeList, typeList, hmap]
  cases hfound : clause?.bind (·.childOfKind? "type_list") with
  | none => rfl
  | some list =>
    have hcode := hmem list hfound
    obtain ⟨clause, -, hchild⟩ := Option.bind_eq_some_iff.1 hfound
    have hkind : list.kind = "type_list" := by simpa using List.find?_some hchild
    have hparts := aside.interfaces list (mem_nodes_of_mem_code hcode) hkind
    show list.withoutComments.namedChildren.map (typeName ·.tree) =
      list.namedChildren.map (typeName ·.tree)
    rw [Node.namedChildren_withoutComments, List.filter_eq_self.2 (by simpa using hparts),
      List.map_map]
    refine List.map_congr_left fun part hpart => ?_
    have hpartCode := mem_code_iff.2 ⟨mem_nodes_of_mem_namedChildren
      (mem_nodes_of_mem_code hcode) hpart, hparts part hpart⟩
    exact typeName_withoutComments shape hpartCode

theorem header_withoutComments (aside : CommentsStandAside tree) (hnode : node ∈ tree.code) :
    header node.withoutComments = header node := by
  have hsuperclass : (do
      let clause ← node.withoutComments.field? "superclass"
      let type ← clause.namedChildren.head?
      return typeName type.tree) = (do
      let clause ← node.field? "superclass"
      let type ← clause.namedChildren.head?
      return typeName type.tree) := by
    refine (Corresponds.field? hnode shape.toHasPlainComments "superclass").bind_eq
      fun clause hclause hfound => ?_
    have hopens := aside.superclass node (mem_nodes_of_mem_code hnode) clause hfound
    exact (Corresponds.head?_namedChildren hclause hopens).bind_eq fun type htype _ =>
      congrArg some (typeName_withoutComments shape htype)
  have hinterfaces := typeList_withoutComments shape aside
    (Corresponds.field? hnode shape.toHasPlainComments "interfaces")
  have hclause : Corresponds tree (node.childOfKind? "extends_interfaces")
      (node.withoutComments.childOfKind? "extends_interfaces") := .childOfKind? hnode (by decide)
  have hextends := typeList_withoutComments shape aside hclause
  rw [header, header, Node.kind_withoutComments, hsuperclass, hinterfaces, hextends]

/-! ## Annotations and methods -/

theorem annotationNames_withoutComments (hnode : node ∈ tree.code) :
    annotationNames node.withoutComments = annotationNames node := by
  have hmodifiers : Corresponds tree (node.childOfKind? "modifiers")
      (node.withoutComments.childOfKind? "modifiers") := .childOfKind? hnode (by decide)
  obtain ⟨hmap, hmem⟩ := hmodifiers
  rw [annotationNames, annotationNames, hmap]
  cases hfound : node.childOfKind? "modifiers" with
  | none => rfl
  | some modifiers =>
    have hnodes := mem_nodes_of_mem_code (hmem modifiers hfound)
    simp only [Option.map_some, List.filterMap_filter, Node.namedChildren_withoutComments]
    refine filterMap_withoutComments (fun part hpart => mem_nodes_of_mem_namedChildren hnodes hpart)
      (fun part _ h => ?_) fun part hpart => ?_
    · rw [kind_ne_of_isComment (by decide) h, kind_ne_of_isComment (by decide) h]
      rfl
    · rw [Node.kind_withoutComments, declaredName?_withoutComments shape hpart]

/-- The methods are the same nodes, and none of them is a comment. -/
theorem methodDeclarations_withoutComments (hnode : node ∈ tree.code) :
    methodDeclarations node.withoutComments =
        (methodDeclarations node).map Node.withoutComments ∧
      ∀ method ∈ methodDeclarations node, method ∈ tree.code := by
  obtain ⟨hmap, hmem⟩ := Corresponds.field? hnode shape.toHasPlainComments "body"
  rw [methodDeclarations, methodDeclarations, hmap]
  cases hfound : node.field? "body" with
  | none => exact ⟨rfl, fun _ h => absurd h List.not_mem_nil⟩
  | some body =>
    have hbody := hmem body hfound
    have hpart : Corresponds tree (body.childOfKind? "enum_body_declarations")
        (body.withoutComments.childOfKind? "enum_body_declarations") :=
      .childOfKind? hbody (by decide)
    obtain ⟨hleft, hpartCode⟩ := hpart.getD hbody
    have hnodes : ∀ part ∈ ((body.childOfKind? "enum_body_declarations").getD body).namedChildren,
        part ∈ tree.nodes := fun part hpart =>
      mem_nodes_of_mem_namedChildren (mem_nodes_of_mem_code hpartCode) hpart
    have hcomment : ∀ part : Node, part.isComment = true →
        (part.kind == "method_declaration") = false := fun part h =>
      kind_ne_of_isComment (by decide) h
    simp only [Option.map_some]
    rw [hleft, Node.namedChildren_withoutComments]
    refine ⟨filter_withoutComments hnodes (fun part _ h => hcomment part h) fun part _ => by
      rw [Node.kind_withoutComments], fun method hmethod => ?_⟩
    obtain ⟨hmethod, hkind⟩ := List.mem_filter.1 hmethod
    refine mem_code_iff.2 ⟨hnodes method hmethod, Bool.eq_false_iff.2 fun h => ?_⟩
    rw [hcomment method h] at hkind
    exact absurd hkind Bool.false_ne_true

/-! ## Declarations of a file -/

omit shape in
theorem mapM_map_eq {α β γ : Type} {f : β → Option γ} {g : α → Option γ} {h : α → β} {xs : List α}
    (heq : ∀ x ∈ xs, f (h x) = g x) : (xs.map h).mapM f = xs.mapM g := by
  induction xs with
  | nil => rfl
  | cons x xs ih =>
    rw [List.map_cons, List.mapM_cons, List.mapM_cons, heq x List.mem_cons_self,
      ih fun other hother => heq other (List.mem_cons_of_mem _ hother)]

theorem nestingPath?_withoutComments (hnode : node ∈ tree.code) :
    nestingPath? node.withoutComments = nestingPath? node := by
  have habove : ∀ above ∈ node :: (Ancestry.ancestors node).filter isDeclaration,
      declaredName? above.withoutComments = declaredName? above := by
    intro above hmem
    refine declaredName?_withoutComments shape ?_
    rcases List.mem_cons.1 hmem with rfl | hmem
    · exact hnode
    · exact shape.ancestors_mem_code (mem_nodes_of_mem_code hnode) (List.mem_filter.1 hmem).1
  have hways : node.withoutComments ::
      (Ancestry.ancestors node.withoutComments).filter isDeclaration =
        (node :: (Ancestry.ancestors node).filter isDeclaration).map Node.withoutComments := by
    rw [shape.ancestors_withoutComments hnode, List.filter_map, List.map_cons]
    congr 2
    exact List.filter_congr fun above _ => isDeclaration_withoutComments above
  rw [nestingPath?, nestingPath?, hways, mapM_map_eq habove]

omit shape in
theorem packageName?_withoutComments (hnode : node ∈ tree.code) :
    packageName? node.withoutComments = packageName? node := by
  have hdeclaration : Corresponds tree (node.childOfKind? "package_declaration")
      (node.withoutComments.childOfKind? "package_declaration") := .childOfKind? hnode (by decide)
  refine hdeclaration.bind_eq fun declaration hmem _ => ?_
  refine (Corresponds.find?_namedChildren hmem (fun _ h => isName_of_isComment h)
    isName_withoutComments).bind_eq fun name _ _ => ?_
  rw [Node.text_withoutComments]

omit shape in
/-- An import is static or on demand by tokens of its own. -/
theorem importedName?_withoutComments (hnode : node ∈ tree.code) :
    importedName? node.withoutComments = importedName? node := by
  have hparts : (node.withoutComments.children.any fun part =>
      part.kind == "static" || part.kind == "asterisk") =
        node.children.any fun part => part.kind == "static" || part.kind == "asterisk" := by
    rw [Node.children_withoutComments, List.any_map, List.any_filter]
    refine congrArg node.children.any (funext fun part => ?_)
    rw [Function.comp_apply, Node.kind_withoutComments]
    cases h : part.isComment with
    | true =>
      rw [kind_ne_of_isComment (by decide) h, kind_ne_of_isComment (by decide) h]
      rfl
    | false => exact Bool.true_and _
  unfold importedName?
  rw [Node.kind_withoutComments, hparts]
  refine bind_congr fun _ => bind_congr fun _ => ?_
  refine (Corresponds.find?_namedChildren hnode (fun _ h => isName_of_isComment h)
    isName_withoutComments).bind_eq fun name _ _ => ?_
  rw [Node.text_withoutComments]

omit shape in
theorem importedNames_withoutComments (hnode : node ∈ tree.code) :
    importedNames node.withoutComments = importedNames node := by
  have hnodes := mem_nodes_of_mem_code hnode
  rw [importedNames, importedNames, Node.namedChildren_withoutComments]
  refine filterMap_withoutComments (fun part hpart => mem_nodes_of_mem_namedChildren hnodes hpart)
    (fun part _ h => ?_) fun part hpart => importedName?_withoutComments hpart
  rw [importedName?, kind_ne_of_isComment (by decide) h]
  rfl

/-- The declaration in the tree without comments. -/
def Declaration.withoutComments (declaration : Declaration) : Declaration :=
  ⟨declaration.node.withoutComments, declaration.path⟩

omit shape in
theorem node_mem_code_of_mem_declarations {declaration : Declaration}
    (h : declaration ∈ declarations tree.root) : declaration.node ∈ tree.code := by
  obtain ⟨node, hmem, hpath⟩ := List.mem_filterMap.1 h
  obtain ⟨path, -, rfl⟩ := Option.map_eq_some_iff.1 hpath
  obtain ⟨hmem, hdeclares⟩ := List.mem_filter.1 hmem
  exact mem_code_of_isDeclaration hmem hdeclares

theorem declarations_withoutComments :
    declarations tree.withoutComments.root =
      (declarations tree.root).map Declaration.withoutComments := by
  have hnodes : tree.withoutComments.root.descendants.filter isDeclaration =
      (tree.root.descendants.filter isDeclaration).map Node.withoutComments :=
    shape.filter_nodes (fun _ h => isDeclaration_of_isComment h) fun node _ =>
      isDeclaration_withoutComments node
  rw [declarations, hnodes, declarations, List.filterMap_map, List.map_filterMap]
  refine List.filterMap_congr fun node hmem => ?_
  obtain ⟨hmem, hdeclares⟩ := List.mem_filter.1 hmem
  have hcode := mem_code_of_isDeclaration hmem hdeclares
  rw [Function.comp_apply, nestingPath?_withoutComments shape hcode, Option.map_map]
  rfl

/-! ## The class index -/

theorem describe_withoutComments (aside : CommentsStandAside tree) (hnode : node ∈ tree.code)
    (scope : Scope) (graph : ClassGraph) :
    scope.describe graph node.withoutComments = scope.describe graph node := by
  have hannotations {node : Node} (hnode : node ∈ tree.code) :
      scope.annotations node.withoutComments = scope.annotations node := by
    rw [Scope.annotations, annotationNames_withoutComments shape hnode]
    rfl
  have hmethods : scope.methods node.withoutComments = scope.methods node := by
    obtain ⟨hmap, hmem⟩ := methodDeclarations_withoutComments shape hnode
    rw [Scope.methods, Scope.methods, hmap, List.filterMap_map]
    refine List.filterMap_congr fun method hmethod => ?_
    rw [Function.comp_apply, declaredName?_withoutComments shape (hmem method hmethod),
      hannotations (hmem method hmethod)]
  unfold Scope.describe
  rw [header_withoutComments shape aside hnode, hannotations hnode, hmethods]

theorem describeAll_withoutComments (aside : CommentsStandAside tree) (scope : Scope)
    (graph : ClassGraph) {numbered : List (ClassId × Declaration)}
    (hcode : ∀ p ∈ numbered, p.2.node ∈ tree.code) :
    ClassIndex.describeAll scope graph (numbered.map (Prod.map id Declaration.withoutComments)) =
      ClassIndex.describeAll scope graph numbered := by
  induction numbered generalizing graph with
  | nil => rfl
  | cons p numbered ih =>
    obtain ⟨id, declaration⟩ := p
    have hone : ClassIndex.describeOne scope graph id declaration.withoutComments =
        ClassIndex.describeOne scope graph id declaration := by
      have hnode := hcode _ List.mem_cons_self
      have hdescribe := describe_withoutComments shape aside hnode scope graph
      unfold ClassIndex.describeOne
      rw [Declaration.withoutComments, hdescribe]
    show ClassIndex.describeAll scope
      (ClassIndex.describeOne scope graph id declaration.withoutComments) _ = _
    rw [hone, ih _ fun q hq => hcode q (List.mem_cons_of_mem _ hq), ClassIndex.describeAll]

/-- The class index of a file is that of the file without comments. -/
theorem ofTree_withoutComments (aside : CommentsStandAside tree) :
    ClassIndex.ofTree tree.withoutComments = ClassIndex.ofTree tree := by
  have hroot : tree.root ∈ tree.code := mem_code_iff.2 ⟨Tree.mem_nodes_iff.2 rfl, shape.top⟩
  have hdeclarations := declarations_withoutComments shape
  have hdeclared : (ClassIndex.ofTree tree.withoutComments).declared =
      (ClassIndex.ofTree tree).declared := by
    show List.range' _ (declarations tree.withoutComments.root).length = _
    rw [hdeclarations, List.length_map]
    rfl
  have hnumbered : ClassIndex.numbered tree.withoutComments =
      (ClassIndex.numbered tree).map (Prod.map id Declaration.withoutComments) := by
    rw [ClassIndex.numbered, hdeclared, hdeclarations, List.zip_map_right]
    rfl
  have hscope : ClassIndex.scopeOf tree.withoutComments = ClassIndex.scopeOf tree := by
    have himports : importedNames tree.withoutComments.root = importedNames tree.root :=
      importedNames_withoutComments hroot
    rw [ClassIndex.scopeOf, ClassIndex.scopeOf, Scope.ofFile, hnumbered, himports,
      List.flatMap_map]
    rfl
  have hempty : ClassIndex.declaredGraph tree.withoutComments = ClassIndex.declaredGraph tree := by
    have hpackage : packageName? tree.withoutComments.root = packageName? tree.root :=
      packageName?_withoutComments hroot
    rw [ClassIndex.declaredGraph, ClassIndex.declaredGraph, hpackage, hdeclarations,
      ClassIndex.declareAll, List.foldl_map]
    rfl
  have hgraph : (ClassIndex.ofTree tree.withoutComments).graph =
      (ClassIndex.ofTree tree).graph := by
    have hcode : ∀ p ∈ ClassIndex.numbered tree, p.2.node ∈ tree.code := fun p hp =>
      node_mem_code_of_mem_declarations (List.of_mem_zip hp).2
    rw [ClassIndex.graph_ofTree, ClassIndex.graph_ofTree, hscope, hempty, hnumbered,
      describeAll_withoutComments shape aside _ _ hcode]
  calc ClassIndex.ofTree tree.withoutComments
    _ = ⟨(ClassIndex.ofTree tree.withoutComments).graph,
          (ClassIndex.ofTree tree.withoutComments).declared⟩ := rfl
    _ = ⟨(ClassIndex.ofTree tree).graph, (ClassIndex.ofTree tree).declared⟩ := by
      rw [hgraph, hdeclared]
    _ = ClassIndex.ofTree tree := rfl

end RouteScope.Java
