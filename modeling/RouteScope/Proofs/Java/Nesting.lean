import Mathlib.Data.List.Induction
import RouteScope.Proofs.Ancestry
import RouteScope.Proofs.Java.WellFormed
import RouteScope.Proofs.Tree.Preorder

/-!
# Names of nested types

A nesting path is read off the way up from a declaration: the names of all
declarations there, put in reverse.  `QualifiedName` tells the same from the
outside in, one type at a time.  A type that stands in no other is called by its
name in the package, and any other is called after the nearest type around it,
however many methods or blocks stand between the two.

* `isSome_nestingPath?`: where every declaration has a name, all paths are
  complete.
* `nestingPath?_of_isAround`: the path of a nested type is that of the type
  around it, and its own name.
* `qualified_names_follow_nesting`: the names in the class index, when the types
  have been declared and when they have been described.
-/

namespace RouteScope.Java

/-- Every declaration of the file has a name. -/
def HasNames (tree : Tree) : Prop :=
  ∀ node ∈ tree.nodes, isDeclaration node = true → ∃ name, declaredName? node = some name

/-- The first declaration on the way up from the node. -/
def IsAround (outer node : Node) : Prop :=
  Ancestry.IsNearest Ancestry.parent? isDeclaration node outer

/-- The name in a package, if there is one. -/
def inPackage (package? : Option String) (name : String) : String :=
  match package? with
  | some package => package ++ "." ++ name
  | none => name

/-- The qualified name of the type that a node declares. -/
inductive QualifiedName (tree : Tree) : Node → String → Prop where
  | outermost {node : Node} {name : String} (own : declaredName? node = some name)
      (alone : ∀ above ∈ Ancestry.ancestors node, isDeclaration above = false) :
      QualifiedName tree node (inPackage (packageName? tree.root) name)
  | nested {node outer : Node} {name qualified : String} (own : declaredName? node = some name)
      (nearest : IsAround outer node) (around : QualifiedName tree outer qualified) :
      QualifiedName tree node (qualified ++ "." ++ name)

variable {tree : Tree}

/-! ## Nesting paths -/

theorem exists_mapM_eq_some {α β : Type} {f : α → Option β} {xs : List α}
    (h : ∀ x ∈ xs, ∃ y, f x = some y) : ∃ ys, xs.mapM f = some ys := by
  induction xs with
  | nil => exact ⟨[], rfl⟩
  | cons x xs ih =>
    obtain ⟨y, hy⟩ := h x List.mem_cons_self
    obtain ⟨ys, hys⟩ := ih fun other hother => h other (List.mem_cons_of_mem _ hother)
    exact ⟨y :: ys, by simp [List.mapM_cons, hy, hys]⟩

theorem exists_mem_of_mem_mapM {α β : Type} {f : α → Option β} {xs : List α} {ys : List β} {y : β}
    (h : xs.mapM f = some ys) (hy : y ∈ ys) : ∃ x ∈ xs, f x = some y := by
  induction xs generalizing ys with
  | nil =>
    obtain rfl : [] = ys := Option.some.inj h
    exact absurd hy List.not_mem_nil
  | cons x xs ih =>
    rw [List.mapM_cons] at h
    obtain ⟨first, hfirst, hrest⟩ := Option.bind_eq_some_iff.1 h
    obtain ⟨others, hothers, hcons⟩ := Option.bind_eq_some_iff.1 hrest
    obtain rfl : first :: others = ys := Option.some.inj hcons
    rcases List.mem_cons.1 hy with rfl | hy
    · exact ⟨x, List.mem_cons_self, hfirst⟩
    · obtain ⟨other, hother, hname⟩ := ih hothers hy
      exact ⟨other, List.mem_cons_of_mem _ hother, hname⟩

/-- Every name of a nesting path is that of a declaration in the file. -/
theorem exists_declaredName?_of_mem_path {node : Node} (hnode : node ∈ tree.nodes)
    (declares : isDeclaration node = true) {path : List String}
    (h : nestingPath? node = some path) {name : String} (hname : name ∈ path) :
    ∃ other ∈ tree.nodes, isDeclaration other = true ∧ declaredName? other = some name := by
  obtain ⟨names, hnames, rfl⟩ := Option.map_eq_some_iff.1 h
  obtain ⟨other, hother, hfound⟩ := exists_mem_of_mem_mapM hnames (List.mem_reverse.1 hname)
  rcases List.mem_cons.1 hother with rfl | hother
  · exact ⟨other, hnode, declares, hfound⟩
  · obtain ⟨above, hdeclares⟩ := List.mem_filter.1 hother
    exact ⟨other, Tree.mem_nodes_of_mem_ancestors hnode above, hdeclares, hfound⟩

/-- A nesting path ends with the name of the declaration itself. -/
theorem exists_eq_concat_of_nestingPath? {node : Node} {path : List String}
    (h : nestingPath? node = some path) :
    ∃ outer name, declaredName? node = some name ∧ path = outer ++ [name] := by
  rw [nestingPath?, List.mapM_cons] at h
  obtain ⟨names, hnames, rfl⟩ := Option.map_eq_some_iff.1 h
  obtain ⟨name, hname, hrest⟩ := Option.bind_eq_some_iff.1 hnames
  obtain ⟨inner, -, hcons⟩ := Option.bind_eq_some_iff.1 hrest
  obtain rfl : name :: inner = names := Option.some.inj hcons
  exact ⟨inner.reverse, name, hname, by simp⟩

theorem path_ne_nil {declaration : Declaration} (h : declaration ∈ declarations tree.root) :
    declaration.path ≠ [] := by
  obtain ⟨outer, name, -, hpath⟩ :=
    exists_eq_concat_of_nestingPath? (ClassIndex.nestingPath?_of_mem_declarations h)
  rw [hpath]
  exact List.concat_ne_nil name outer

/-- Where every declaration has a name, the nesting paths are complete. -/
theorem isSome_nestingPath? (named : HasNames tree) {node : Node}
    (hnode : node ∈ tree.nodes) (declares : isDeclaration node = true) :
    (nestingPath? node).isSome = true := by
  obtain ⟨names, hnames⟩ : ∃ names,
      (node :: (Ancestry.ancestors node).filter isDeclaration).mapM declaredName? =
        some names := by
    refine exists_mapM_eq_some fun other hother => ?_
    rcases List.mem_cons.1 hother with rfl | hother
    · exact named _ hnode declares
    · obtain ⟨above, hdeclares⟩ := List.mem_filter.1 hother
      exact named other (Tree.mem_nodes_of_mem_ancestors hnode above) hdeclares
  rw [nestingPath?, hnames]
  rfl

/-- Where every declaration has a name, each one declares a type. -/
theorem typeNodes_eq (named : HasNames tree) :
    typeNodes tree = tree.nodes.filter isDeclaration := by
  refine List.filter_congr fun node hnode => ?_
  cases hdeclares : isDeclaration node with
  | false => rfl
  | true => exact isSome_nestingPath? named hnode hdeclares

theorem nestingPath?_of_alone {node : Node}
    (alone : ∀ above ∈ Ancestry.ancestors node, isDeclaration above = false) :
    nestingPath? node = (declaredName? node).map ([·]) := by
  have hnone : (Ancestry.ancestors node).filter isDeclaration = [] :=
    List.filter_eq_nil_iff.2 fun above habove => by simp [alone above habove]
  rw [nestingPath?, hnone, List.mapM_cons, List.mapM_nil]
  cases declaredName? node <;> rfl

/-- A declaration that stands in another one is not alone. -/
theorem IsAround.not_alone {node outer : Node} (h : IsAround outer node) :
    ¬ ∀ above ∈ Ancestry.ancestors node, isDeclaration above = false := by
  obtain ⟨houter, front, hlist, -⟩ := Ancestry.IsNearest.exists_ancestors_eq h
  intro alone
  have hno := alone outer (by rw [hlist]; exact List.mem_append_right _ List.mem_cons_self)
  exact absurd (houter.symm.trans hno) (Bool.false_ne_true ∘ Eq.symm)

/-- The declarations around a declaration are the nearest one and those around
that. -/
theorem nestingPath?_of_isAround {node outer : Node} (h : IsAround outer node) :
    nestingPath? node =
      (declaredName? node).bind fun name => (nestingPath? outer).map (· ++ [name]) := by
  obtain ⟨houter, front, hlist, hfront⟩ := Ancestry.IsNearest.exists_ancestors_eq h
  have hnone : front.filter isDeclaration = [] :=
    List.filter_eq_nil_iff.2 fun other hother => by simp [hfront other hother]
  rw [nestingPath?, nestingPath?, hlist, List.filter_append, hnone, List.nil_append,
    List.filter_cons_of_pos houter, List.mapM_cons]
  cases declaredName? node with
  | none => rfl
  | some name =>
    cases (outer :: (Ancestry.ancestors outer).filter isDeclaration).mapM declaredName? with
    | none => rfl
    | some names => simp

/-- The declarations of a file by recursion over the tree and over the way up, in
place of a walk. -/
theorem declarations_root_eq (tree : Tree) :
    declarations tree.root = ((Tree.preorder [] tree).filter isDeclaration).filterMap fun node =>
      (((node :: (Node.above node.tree node.path).filter isDeclaration).mapM
        declaredName?).map List.reverse).map (⟨node, ·⟩) := by
  simp only [declarations, nestingPath?, Node.descendants_eq_preorder, Node.ancestors_eq_above]
  rfl

/-! ## Qualified names -/

/-- A nesting path behind the package is the qualified name.  The induction is over
the path from its end, where the name of the declaration itself stands. -/
theorem qualifiedName_of_nestingPath? {node : Node} {path : List String}
    (h : nestingPath? node = some path) :
    QualifiedName tree node (".".intercalate ((packageName? tree.root).toList ++ path)) := by
  induction path using List.reverseRecOn generalizing node with
  | nil =>
    obtain ⟨outer, name, -, hpath⟩ := exists_eq_concat_of_nestingPath? h
    exact absurd hpath.symm (List.concat_ne_nil name outer)
  | append_singleton outer name ih =>
    cases hfound : Ancestry.findAncestor? isDeclaration node with
    | none =>
      have alone : ∀ above ∈ Ancestry.ancestors node, isDeclaration above = false :=
        fun above habove => Bool.eq_false_iff.2 (List.find?_eq_none.1 hfound above habove)
      rw [nestingPath?_of_alone alone] at h
      obtain ⟨own, hown, hpath⟩ := Option.map_eq_some_iff.1 h
      obtain ⟨rfl, rfl⟩ : [] = outer ∧ own = name := by
        simpa using List.append_inj' (by simpa using hpath : [] ++ [own] = outer ++ [name]) rfl
      have hname : ".".intercalate ((packageName? tree.root).toList ++ ([] ++ [own])) =
          inPackage (packageName? tree.root) own := by
        cases packageName? tree.root with
        | none => rfl
        | some package =>
          show ".".intercalate [package, own] = package ++ "." ++ own
          rw [String.intercalate_cons_cons, String.intercalate_singleton]
      rw [hname]
      exact .outermost hown alone
    | some around =>
      have nearest : IsAround around node := Ancestry.findAncestor?_eq_some_iff.1 hfound
      rw [nestingPath?_of_isAround nearest] at h
      obtain ⟨own, hown, hrest⟩ := Option.bind_eq_some_iff.1 h
      obtain ⟨front, hfront, hpath⟩ := Option.map_eq_some_iff.1 hrest
      obtain ⟨rfl, rfl⟩ : front = outer ∧ own = name := by
        simpa using List.append_inj' hpath rfl
      obtain ⟨inner, last, -, hinner⟩ := exists_eq_concat_of_nestingPath? hfront
      have hne : (packageName? tree.root).toList ++ front ≠ [] := by simp [hinner]
      rw [← List.append_assoc, String.intercalate_append_of_ne_nil hne (List.cons_ne_nil _ _),
        String.intercalate_singleton]
      exact .nested hown nearest (ih hfront)

/-- A declaration has one qualified name. -/
theorem QualifiedName.unique {node : Node} {name other : String}
    (h : QualifiedName tree node name) (h' : QualifiedName tree node other) : name = other := by
  induction h generalizing other with
  | outermost own alone =>
    cases h' with
    | outermost own' _ => rw [Option.some.inj (own.symm.trans own')]
    | nested _ nearest _ => exact absurd alone nearest.not_alone
  | nested own nearest _ ih =>
    cases h' with
    | outermost _ alone => exact absurd alone nearest.not_alone
    | nested own' nearest' around =>
      obtain rfl := Ancestry.IsNearest.unique nearest nearest'
      rw [ih around, Option.some.inj (own.symm.trans own')]

/-- The declared types stand for the declarations of the file, one by one and in
document order.  Each is added under its qualified name, which tells the types
around it and the package, and keeps that name when it is described.  There is one
such name. -/
theorem qualified_names_follow_nesting (tree : Tree) (named : HasNames tree) :
    List.Forall₂
      (fun id node => ∃ qualified, QualifiedName tree node qualified ∧
        (ClassIndex.declaredGraph tree).nameOf? id = some qualified ∧
        (ClassIndex.ofTree tree).graph.nameOf? id = some qualified)
      (ClassIndex.ofTree tree).declared (tree.nodes.filter isDeclaration) ∧
    ∀ node name other, QualifiedName tree node name → QualifiedName tree node other →
      name = other := by
  constructor
  · rw [← typeNodes_eq named, ← ClassIndex.map_node_declarations,
      ← ClassIndex.map_snd_numbered, ← ClassIndex.map_fst_numbered, List.map_map,
      List.forall₂_map_left_iff, List.forall₂_map_right_iff, List.forall₂_same]
    intro p hp
    obtain ⟨hid, hdeclaration⟩ := List.of_mem_zip hp
    have hpath := ClassIndex.nestingPath?_of_mem_declarations hdeclaration
    have hname := ClassIndex.nameOf?_ofTree hp
    have hold := (ClassIndex.mem_declared_iff.1 hid).2
    refine ⟨_, qualifiedName_of_nestingPath? hpath, ?_, hname⟩
    rw [← (ClassIndex.ofTree_spec tree).1.nameOf?_eq p.1 hold]
    exact hname
  · exact fun node name other h h' => h.unique h'

/-- The class `B` in the method `f` of the class `A`, in the package `orders`. -/
def localClass : Node where
  tree := .node ⟨"class_declaration", true, "class B {}", 37, 0, none⟩
    [.node ⟨"class", false, "class", 37, 0, none⟩ [],
      .node ⟨"identifier", true, "B", 43, 0, some "name"⟩ [],
      .node ⟨"class_body", true, "{}", 45, 0, some "body"⟩ []]
  path :=
    [⟨⟨"block", true, "{ class B {} }", 35, 0, some "body"⟩, [], []⟩,
      ⟨⟨"method_declaration", true, "void f() { class B {} }", 26, 0, none⟩,
        [.node ⟨"identifier", true, "f", 31, 0, some "name"⟩ []], []⟩,
      ⟨⟨"class_body", true, "{ void f() { class B {} } }", 24, 0, some "body"⟩, [], []⟩,
      ⟨⟨"class_declaration", true, "class A { void f() { class B {} } }", 16, 0, none⟩,
        [.node ⟨"identifier", true, "A", 22, 0, some "name"⟩ [],
          .node ⟨"class", false, "class", 16, 0, none⟩ []], []⟩,
      ⟨⟨"program", true, "package orders; class A { void f() { class B {} } }", 0, 0, none⟩,
        [.node ⟨"package_declaration", true, "package orders;", 0, 0, none⟩
          [.node ⟨"identifier", true, "orders", 8, 0, none⟩ []]], []⟩]

/-- The file that the class stands in. -/
def localClassFile : Tree := localClass.root.tree

theorem hasNames_localClassFile : HasNames localClassFile := by
  have hsome : ∀ node ∈ Tree.preorder [] localClassFile, isDeclaration node = true →
      (declaredName? node).isSome = true := by
    decide
  intro node hnode declares
  rw [Tree.nodes_eq_preorder] at hnode
  exact Option.isSome_iff_exists.1 (hsome node hnode declares)

/-- A class in a method is called after the class around the method. -/
theorem qualified_names_follow_nesting_local :
    HasNames localClassFile ∧ (ClassIndex.ofTree localClassFile).declared = [9, 10] ∧
      (ClassIndex.ofTree localClassFile).graph.nameOf? 10 = some "orders.A.B" := by
  have hdeclared : (ClassIndex.ofTree localClassFile).declared = [9, 10] := by
    rw [ClassIndex.ofTree, declarations_root_eq]
    decide
  have hnodes : (localClassFile.nodes.filter isDeclaration)[1]? = some localClass := by
    rw [Tree.nodes_eq_preorder]
    rfl
  obtain ⟨hnames, unique⟩ :=
    qualified_names_follow_nesting localClassFile hasNames_localClassFile
  rw [hdeclared] at hnames
  obtain ⟨outer, inner, hlist⟩ : ∃ outer inner,
      localClassFile.nodes.filter isDeclaration = [outer, inner] :=
    List.length_eq_two.1 hnames.length_eq.symm
  rw [hlist] at hnames hnodes
  obtain rfl : inner = localClass := Option.some.inj hnodes
  obtain ⟨-, hinner⟩ := List.forall₂_cons.1 hnames
  obtain ⟨⟨qualified, hqualified, -, hname⟩, -⟩ := List.forall₂_cons.1 hinner
  have hpath : nestingPath? localClass = some ["A", "B"] := by
    rw [nestingPath?, Node.ancestors_eq_above]
    decide
  have hexpected : QualifiedName localClassFile localClass _ :=
    qualifiedName_of_nestingPath? hpath
  rw [unique _ _ _ hqualified hexpected] at hname
  exact ⟨hasNames_localClassFile, hdeclared, hname⟩

end RouteScope.Java
