import RouteScope.Proofs.Java.Argument
import RouteScope.Proofs.Java.Bean
import RouteScope.Proofs.Java.FullPath
import RouteScope.Proofs.Tree.Order

/-!
# Bean references to declared types

A bean reference names its class, and a nested class may be named after the
classes around it, as in `bean(Outer.Inner.class)`.  An `extends` clause with
such a name goes to the declared type that is called by it.  A bean reference
is cut down to the last name first, and goes to the first declared type with
that simple name.  The two differ where a type with the same simple name comes
before the one that is called by the whole name.

* `beanName?_of_pointsAt`: what is looked up, wherever in the call one asks.
* `IsCalled.afterLast_eq`: all names of a type end with its simple name.
* `beanClass?_of_isCalled`, `beanNode?_of_isCalled`: the class and the
  declaration that a reference to the type finds.
* `bean_reference_finds_iff`: both look-ups, beside the `extends` clause.
-/

namespace RouteScope.Java

/-- The call is one of `bean`, and the first class literal among its arguments
names a type in this way. -/
structure IsBeanCall (call : Node) (written : String) : Prop where
  kind : call.kind = "method_invocation"
  method : methodName? call = some "bean"
  class_literal : ∃ literal type,
    (arguments call).find? (·.kind == "class_literal") = some literal ∧
      literal.namedChildren.head? = some type ∧ type.text = written

/-- The node is one at which one may ask about the call: the call itself, its
name, or a string literal among its arguments. -/
inductive PointsAt (call : Node) : Node → Prop where
  | call : PointsAt call call
  | name {token : Node} (names : call.field? "name" = some token)
      (kind : token.kind = "identifier") : PointsAt call token
  | literal {literal : Node} (kind : literal.kind = "string_literal")
      (argument : IsArgument literal call) : PointsAt call literal
  | fragment {fragment literal : Node} (part : fragment.kind = "string_fragment")
      (inside : fragment.parent? = some literal) (kind : literal.kind = "string_literal")
      (argument : IsArgument literal call) : PointsAt call fragment

/-- Of the declared types of a file, the one at this place is called by the name,
and no other. -/
structure NamesOnly (tree : Tree) (written : String) (place : Nat) (target : Declaration) :
    Prop where
  stands : (declarations tree.root)[place]? = some target
  called : target.IsCalled written
  only : ∀ other declaration, (declarations tree.root)[other]? = some declaration →
    declaration.IsCalled written → other = place

/-- The last name of a type. -/
def Declaration.simpleName (declaration : Declaration) : String :=
  Text.afterLast '.' declaration.pathName

variable {tree : Tree}

/-! ## Asking about a call -/

section Call

variable {call node : Node} {written : String}

/-- Wherever one asks, the answer is about the call. -/
theorem callAt?_orElse_of_pointsAt (hcall : call.kind = "method_invocation")
    (points : PointsAt call node) : (callAt? node <|> callTakingLiteralAt? node) = some call := by
  cases points with
  | call => rw [callAt?_of_kind hcall]; rfl
  | name names kind => rw [callAt?_of_name hcall names kind]; rfl
  | literal kind argument =>
    have hnone : callAt? node = none :=
      callAt?_of_kind_ne (by rw [kind]; decide) (by rw [kind]; decide)
    rw [hnone, callTakingLiteralAt?, literalAt?_of_kind kind]
    exact callTaking?_eq_some_iff.2 argument
  | fragment part inside kind argument =>
    have hnone : callAt? node = none :=
      callAt?_of_kind_ne (by rw [part]; decide) (by rw [part]; decide)
    rw [hnone, callTakingLiteralAt?, literalAt?_of_fragment part inside kind]
    exact callTaking?_eq_some_iff.2 argument

/-- Of the written name, only the last part is looked up. -/
theorem beanName?_of_pointsAt (bean : IsBeanCall call written) (points : PointsAt call node) :
    beanName? node = some (Text.afterLast '.' written) := by
  obtain ⟨literal, type, hliteral, htype, rfl⟩ := bean.class_literal
  have hbean : isCallOf ["bean"] call = true :=
    isCallOf_iff.2 ⟨"bean", bean.method, List.mem_singleton_self _⟩
  unfold beanName?
  rw [callAt?_orElse_of_pointsAt bean.kind points]
  simp [hbean, hliteral, htype, guard]

theorem PointsAt.root_eq (points : PointsAt call node) : node.root = call.root := by
  cases points with
  | call => rfl
  | name names => exact (Node.root_of_parent? (Node.parent?_of_field? names)).symm
  | literal _ argument => exact argument.root_eq
  | fragment _ inside _ argument => exact (Node.root_of_parent? inside).symm.trans argument.root_eq

end Call

/-! ## Simple names -/

/-- All names by which a type is called end with its simple name. -/
theorem Declaration.IsCalled.afterLast_eq {declaration : Declaration} {written : String}
    (h : declaration.IsCalled written) : Text.afterLast '.' written = declaration.simpleName := by
  obtain ⟨suffix, hne, ⟨outer, hpath⟩, rfl⟩ := h
  rw [simpleName, pathName, ← hpath, Text.afterLast_intercalate_append outer hne]

/-- The package does not matter for the simple name. -/
theorem afterLast_qualifiedName {declaration : Declaration}
    (h : declaration ∈ declarations tree.root) (package? : Option String) :
    Text.afterLast '.' (declaration.qualifiedName package?) = declaration.simpleName :=
  Text.afterLast_intercalate_append package?.toList (path_ne_nil h)

/-! ## Look-ups -/

section Lookup

variable {call node : Node} {written : String} {place : Nat} {target : Declaration} {id : ClassId}

/-- In an `extends` clause the name goes to the only type that is called by it. -/
theorem NamesOnly.resolve_eq (names : NamesOnly tree written place target)
    (hid : (ClassIndex.ofTree tree).declared[place]? = some id) (graph : ClassGraph) :
    (ClassIndex.scopeOf tree).resolve graph written = (.resolved id, graph) := by
  have hlookup : (ClassIndex.scopeOf tree).declared.lookup written = some id :=
    lookup_declared_eq_some_iff.2 ⟨place, target, names.stands, names.called,
      fun earlier hlt other hother called =>
        Nat.ne_of_lt hlt (names.only earlier other hother called), hid⟩
  rw [Scope.resolve, hlookup]

theorem findDeclared?_simpleName_iff (htarget : (declarations tree.root)[place]? = some target)
    (hid : (ClassIndex.ofTree tree).declared[place]? = some id) :
    (ClassIndex.ofTree tree).findDeclared? target.simpleName = some id ↔
      ∀ earlier < place, ∀ other : Declaration, (declarations tree.root)[earlier]? = some other →
        other.simpleName ≠ target.simpleName := by
  have hown := afterLast_qualifiedName (List.mem_of_getElem? htarget) (packageName? tree.root)
  rw [ClassIndex.findDeclared?_eq_find?, ClassIndex.find?_numbered_iff_of_getElem?
    (fun declaration => Text.afterLast '.' (declaration.qualifiedName (packageName? tree.root)) ==
      target.simpleName) htarget hid (beq_iff_eq.2 hown)]
  refine forall₄_congr fun earlier _ other hother => ?_
  rw [beq_eq_false_iff_ne, afterLast_qualifiedName (List.mem_of_getElem? hother)]

theorem findDeclared?_simpleName_ne_none (h : target ∈ declarations tree.root) :
    (ClassIndex.ofTree tree).findDeclared? target.simpleName ≠ none := by
  rw [← ClassIndex.map_snd_numbered] at h
  obtain ⟨p, hp, rfl⟩ := List.mem_map.1 h
  rw [ClassIndex.findDeclared?_eq_find?, Ne, Option.map_eq_none_iff, List.find?_eq_none]
  intro hnone
  exact hnone p hp (beq_iff_eq.2 (afterLast_qualifiedName (List.of_mem_zip hp).2 _))

/-- Some declared type has the simple name, so no class from elsewhere is taken. -/
theorem beanClass?_of_isCalled (bean : IsBeanCall call written) (points : PointsAt call node)
    (h : target ∈ declarations tree.root) (called : target.IsCalled written) :
    beanClass? (ClassIndex.ofTree tree) node =
      (ClassIndex.ofTree tree).findDeclared? target.simpleName := by
  obtain ⟨found, hfound⟩ :=
    Option.ne_none_iff_exists'.1 (findDeclared?_simpleName_ne_none h)
  unfold beanClass?
  rw [beanName?_of_pointsAt bean points, called.afterLast_eq, Option.bind_eq_bind,
    Option.bind_some, hfound]
  rfl

/-- The declaration is found if it is the first one with its name. -/
theorem beanNode?_of_isCalled (hcall : call ∈ tree.nodes) (bean : IsBeanCall call written)
    (points : PointsAt call node) (h : target ∈ declarations tree.root)
    (called : target.IsCalled written) :
    beanNode? node = some target.node ↔
      declaredName? target.node = some target.simpleName ∧
        ∀ earlier ∈ tree.nodes, earlier.index < target.node.index →
          isDeclaration earlier = true → declaredName? earlier ≠ some target.simpleName := by
  have hroot : node.root.descendants = tree.nodes := by
    rw [points.root_eq, Tree.mem_nodes_iff.1 hcall]
    rfl
  have hnode : target.node ∈ typeNodes tree :=
    ClassIndex.map_node_declarations tree ▸ List.mem_map_of_mem h
  obtain ⟨hmem, htype⟩ := List.mem_filter.1 hnode
  have hdeclares : isDeclaration target.node = true := (Bool.and_eq_true_iff.1 htype).1
  unfold beanNode?
  rw [beanName?_of_pointsAt bean points, called.afterLast_eq, Option.bind_eq_bind,
    Option.bind_some, hroot, Tree.find?_nodes_eq_some_iff hmem, hdeclares, Bool.true_and,
    beq_iff_eq]
  refine and_congr_right fun _ => forall₃_congr fun earlier _ _ => ?_
  rw [Bool.and_eq_false_imp, beq_eq_false_iff_ne]

/-- If a dotted name is that of one declared type only, an `extends` clause goes
to that type.  A bean reference has it as its class exactly if no type with the
same simple name is declared before it, and finds its declaration exactly if no
declaration before it has that name. -/
theorem bean_reference_finds_iff (tree : Tree) (enabled : Bool) {call node : Node}
    {written : String} {place : Nat} {target : Declaration} {id : ClassId}
    (hcall : call ∈ tree.nodes) (bean : IsBeanCall call written) (points : PointsAt call node)
    (names : NamesOnly tree written place target)
    (hid : (ClassIndex.ofTree tree).declared[place]? = some id) :
    (∀ graph, ((ClassIndex.scopeOf tree).resolve graph written).1 = .resolved id) ∧
    ((recognizer enabled (ClassIndex.ofTree tree)).beanClass? node = some id ↔
      ∀ earlier < place, ∀ other : Declaration, (declarations tree.root)[earlier]? = some other →
        other.simpleName ≠ target.simpleName) ∧
    ((recognizer enabled (ClassIndex.ofTree tree)).beanNode? node = some target.node ↔
      declaredName? target.node = some target.simpleName ∧
        ∀ earlier ∈ tree.nodes, earlier.index < target.node.index →
          isDeclaration earlier = true → declaredName? earlier ≠ some target.simpleName) := by
  have htarget := List.mem_of_getElem? names.stands
  refine ⟨fun graph => ?_, ?_, ?_⟩
  · rw [names.resolve_eq hid]
  · show beanClass? (ClassIndex.ofTree tree) node = some id ↔ _
    rw [beanClass?_of_isCalled bean points htarget names.called]
    exact findDeclared?_simpleName_iff names.stands hid
  · exact beanNode?_of_isCalled hcall bean points htarget names.called

end Lookup

/-- A reference to a bean of the class `A.B`, in a file that declares a class `B`
before that one. -/
def maskedCall : Node where
  tree := .node ⟨"method_invocation", true, "a.bean(A.B.class)", 36, 1, none⟩
    [.node ⟨"identifier", true, "a", 36, 1, some "object"⟩ [],
      .node ⟨".", false, ".", 37, 1, none⟩ [],
      .node ⟨"identifier", true, "bean", 38, 1, some "name"⟩ [],
      .node ⟨"argument_list", true, "(A.B.class)", 42, 1, some "arguments"⟩
        [.node ⟨"class_literal", true, "A.B.class", 43, 1, none⟩
          [.node ⟨"scoped_type_identifier", true, "A.B", 43, 1, none⟩ []]]]
  path :=
    [⟨⟨"expression_statement", true, "a.bean(A.B.class);", 36, 1, none⟩, [], []⟩,
      ⟨⟨"block", true, "\x7ba.bean(A.B.class);\x7d", 35, 1, some "body"⟩, [], []⟩,
      ⟨⟨"method_declaration", true, "void f()\x7ba.bean(A.B.class);\x7d", 27, 1, none⟩,
        [.node ⟨"identifier", true, "f", 32, 1, some "name"⟩ []], []⟩,
      ⟨⟨"class_body", true, "\x7bclass B\x7b\x7dvoid f()…\x7d", 17, 1, some "body"⟩,
        [.node ⟨"class_declaration", true, "class B\x7b\x7d", 18, 1, none⟩
          [.node ⟨"identifier", true, "B", 24, 1, some "name"⟩ []]], []⟩,
      ⟨⟨"class_declaration", true, "class A\x7bclass B\x7b\x7dvoid f()…\x7d", 10, 1, none⟩,
        [.node ⟨"identifier", true, "A", 16, 1, some "name"⟩ []], []⟩,
      ⟨⟨"program", true, "class B\x7b\x7d\nclass A\x7bclass B\x7b\x7dvoid f()…\x7d", 0, 0, none⟩,
        [.node ⟨"class_declaration", true, "class B\x7b\x7d", 0, 0, none⟩
          [.node ⟨"identifier", true, "B", 6, 0, some "name"⟩ []]], []⟩]

/-- The file that the reference stands in. -/
def maskedFile : Tree := maskedCall.root.tree

theorem isBeanCall_maskedCall : IsBeanCall maskedCall "A.B" :=
  ⟨rfl, rfl, _, _, rfl, rfl, rfl⟩

theorem declared_maskedFile : (ClassIndex.ofTree maskedFile).declared = [9, 10, 11] := by
  rw [ClassIndex.ofTree, declarations_root_eq]
  decide

theorem paths_maskedFile :
    (declarations maskedFile.root).map (·.path) = [["B"], ["A"], ["A", "B"]] := by
  rw [declarations_root_eq]
  decide

theorem path_eq_of_maskedFile {place : Nat} {declaration : Declaration}
    (h : (declarations maskedFile.root)[place]? = some declaration) :
    [["B"], ["A"], ["A", "B"]][place]? = some declaration.path := by
  rw [← paths_maskedFile, List.getElem?_map, h, Option.map_some]

/-- The nested class `B` is the only one that is called `A.B`. -/
theorem exists_namesOnly_maskedFile : ∃ target, NamesOnly maskedFile "A.B" 2 target := by
  have hlength : 2 < (declarations maskedFile.root).length := by
    rw [← List.length_map, paths_maskedFile]
    decide
  have htarget := List.getElem?_eq_getElem hlength
  refine ⟨_, htarget, isCalled_iff.2 ?_, fun other declaration h called => ?_⟩
  · rw [← Option.some.inj (path_eq_of_maskedFile htarget)]
    decide
  · have hpath := path_eq_of_maskedFile h
    rw [isCalled_iff] at called
    match other with
    | 0 =>
      rw [← Option.some.inj hpath] at called
      exact absurd called (by decide)
    | 1 =>
      rw [← Option.some.inj hpath] at called
      exact absurd called (by decide)
    | 2 => rfl
    | other + 3 => exact absurd hpath (Option.some_ne_none _).symm

/-- The nested class `B` has the number 11, and the class of the bean is another
one, since the outer `B` has the same simple name. -/
theorem bean_reference_finds_iff_masked :
    (∃ target, NamesOnly maskedFile "A.B" 2 target) ∧ IsBeanCall maskedCall "A.B" ∧
      (ClassIndex.ofTree maskedFile).declared[2]? = some 11 ∧
      (recognizer true (ClassIndex.ofTree maskedFile)).beanClass? maskedCall ≠ some 11 := by
  obtain ⟨target, names⟩ := exists_namesOnly_maskedFile
  have hcall : maskedCall ∈ maskedFile.nodes := Tree.mem_nodes_iff.2 rfl
  have hid : (ClassIndex.ofTree maskedFile).declared[2]? = some 11 := by
    rw [declared_maskedFile]
    rfl
  refine ⟨⟨target, names⟩, isBeanCall_maskedCall, hid, fun hclass => ?_⟩
  obtain ⟨-, hfinds, -⟩ :=
    bean_reference_finds_iff maskedFile true hcall isBeanCall_maskedCall .call names hid
  have hfirst := hfinds.1 hclass
  have hlength : 0 < (declarations maskedFile.root).length := by
    rw [← List.length_map, paths_maskedFile]
    decide
  have houter := List.getElem?_eq_getElem hlength
  refine hfirst 0 (by decide) _ houter ?_
  rw [Declaration.simpleName, Declaration.pathName, Declaration.simpleName, Declaration.pathName,
    ← Option.some.inj (path_eq_of_maskedFile houter),
    ← Option.some.inj (path_eq_of_maskedFile names.stands)]
  decide

/-- The class of the bean is the outer `B`, and so is the declaration. -/
theorem bean_reference_maskedFile :
    (∃ target, NamesOnly maskedFile "A.B" 2 target) ∧ IsBeanCall maskedCall "A.B" ∧
      (ClassIndex.ofTree maskedFile).declared = [9, 10, 11] ∧
      (recognizer true (ClassIndex.ofTree maskedFile)).beanClass? maskedCall = some 9 ∧
      ((recognizer true (ClassIndex.ofTree maskedFile)).beanNode? maskedCall).map (·.line) =
        some 1 := by
  refine ⟨exists_namesOnly_maskedFile, isBeanCall_maskedCall, declared_maskedFile, ?_, ?_⟩
  · show beanClass? (ClassIndex.ofTree maskedFile) maskedCall = some 9
    simp only [ClassIndex.ofTree, declarations_root_eq]
    decide
  · show (beanNode? maskedCall).map (·.line) = some 1
    unfold beanNode?
    rw [Node.descendants_eq_preorder]
    decide

end RouteScope.Java
