import RouteScope.Proofs.Java.Method
import RouteScope.Proofs.Report.Classes

/-!
# Methods that handle messages

A report lists the methods that carry the annotation for message handlers, each
behind the qualified name of the type for which it counts.

* `handlerNodes`: the methods of one declaration.
* `handlersOf_eq`: what a declared type contributes to the list.
* `handlerMethods_eq`: the whole list of a report.
-/

namespace RouteScope.Report

open Java

open Classical in
/-- The methods of a declaration that handle messages, in document order. -/
noncomputable def handlerNodes (tree : Tree) (declaration : Node) : List Node :=
  tree.nodes.filter fun method => IsMethodOf declaration method ∧ HandlesMessages tree method

variable {tree : Tree}

theorem mem_handlerNodes_iff {declaration method : Node} :
    method ∈ handlerNodes tree declaration ↔
      method ∈ tree.nodes ∧ IsMethodOf declaration method ∧ HandlesMessages tree method := by
  simp [handlerNodes]

/-- The described methods that handle messages are those of the file. -/
theorem map_name_filter_isHandler {declaration : Node} (hdeclaration : declaration ∈ tree.nodes) :
    (((ClassIndex.scopeOf tree).methods declaration).filter (·.isHandler)).map (·.name) =
      (handlerNodes tree declaration).filterMap declaredName? := by
  classical
  have hnodes : handlerNodes tree declaration =
      (methodDeclarations declaration).filter fun method => HandlesMessages tree method := by
    rw [methodDeclarations_eq_filter hdeclaration, List.filter_filter, handlerNodes]
    simp only [Bool.decide_and, Bool.and_comm]
  rw [hnodes, Scope.methods]
  induction methodDeclarations declaration with
  | nil => rfl
  | cons method methods ih =>
    cases hname : declaredName? method with
    | none => by_cases h : HandlesMessages tree method <;> simp [hname, h, ih]
    | some name =>
      by_cases h : HandlesMessages tree method
      · simp [hname, h, (isHandler_iff name).2 h, ih]
      · have hno := Bool.eq_false_iff.2 fun hyes => h ((isHandler_iff name).1 hyes)
        simp [hname, h, hno, ih]

/-- What a declared type contributes to the list. -/
theorem handlersOf_eq {p : ClassId × Declaration} {entry : ClassEntry}
    (hp : p ∈ ClassIndex.numbered tree)
    (found : (ClassIndex.ofTree tree).graph.get? p.1 = some entry) :
    handlersOf entry = ((handlerNodes tree p.2.node).filterMap declaredName?).map fun name =>
      p.2.qualifiedName (packageName? tree.root) ++ "." ++ name := by
  obtain ⟨described, hget, hdescribes⟩ := (ClassIndex.ofTree_spec tree).2 p hp
  obtain rfl : described = entry := Option.some.inj (hget.symm.trans found)
  have hshown := map_shownName (ClassIndex.nameOf?_ofTree hp)
  rw [found, Option.map_some, Option.some.injEq] at hshown
  have hnode := (ClassIndex.mem_nodes_of_mem_declarations (List.of_mem_zip hp).2).1
  rw [handlersOf, hdescribes.methods, hshown, ← map_name_filter_isHandler hnode, List.map_map]
  rfl

theorem flatMap_handlersOf (tree : Tree) :
    ((ClassIndex.ofTree tree).declaredEntries.flatMap fun (_, entry) => handlersOf entry) =
      (declarations tree.root).flatMap fun declaration =>
        ((handlerNodes tree declaration.node).filterMap declaredName?).map fun name =>
          declaration.qualifiedName (packageName? tree.root) ++ "." ++ name := by
  rw [ClassIndex.declaredEntries, ← ClassIndex.map_fst_numbered, ← ClassIndex.map_snd_numbered,
    List.filterMap_eq_flatMap_toList, List.flatMap_assoc, List.flatMap_map, List.flatMap_map]
  refine List.flatMap_congr fun p hp => ?_
  obtain ⟨entry, found, -⟩ := (ClassIndex.ofTree_spec tree).2 p hp
  rw [found, ← handlersOf_eq hp found]
  simp

/-- A report lists the methods that handle messages by the declared types, and within
a type in the order in which they stand in its body.  No method is listed twice, and
each counts for the nearest type around it.  Those of an anonymous class or an enum
constant count for none. -/
theorem handlerMethods_eq (settings : Settings) (file : String) (tree : Tree) :
    (ofTree settings file tree).handlerMethods =
        ((declarations tree.root).flatMap fun declaration =>
          ((handlerNodes tree declaration.node).filterMap declaredName?).map fun name =>
            declaration.qualifiedName (packageName? tree.root) ++ "." ++ name) ∧
      (HasBodies tree →
        ((declarations tree.root).flatMap fun declaration =>
          handlerNodes tree declaration.node).Nodup ∧
        ∀ declaration ∈ declarations tree.root, ∀ method ∈ handlerNodes tree declaration.node,
          IsAround declaration.node method) ∧
      ∀ method body creator, method.parent? = some body → body.kind = "class_body" →
        body.parent? = some creator → isDeclaration creator = false →
        ∀ declaration ∈ declarations tree.root, method ∉ handlerNodes tree declaration.node := by
  refine ⟨flatMap_handlersOf tree, fun bodies => ?_, ?_⟩
  · have haround : ∀ declaration ∈ declarations tree.root,
        ∀ method ∈ handlerNodes tree declaration.node, IsAround declaration.node method := by
      intro declaration hdeclaration method hmethod
      obtain ⟨hnode, declares⟩ := ClassIndex.mem_nodes_of_mem_declarations hdeclaration
      exact isAround_of_isMethodOf bodies hnode declares (mem_handlerNodes_iff.1 hmethod).2.1
    refine ⟨List.nodup_flatMap.2 ⟨fun declaration _ => ?_, ?_⟩, haround⟩
    · exact (Tree.nodup_nodes tree).filter _
    · have distinct : ((declarations tree.root).map (·.node)).Nodup := by
        rw [ClassIndex.map_node_declarations]
        exact (Tree.nodup_nodes tree).filter _
      refine (List.pairwise_map.1 distinct).imp_of_mem fun {first second} hfirst hsecond hne => ?_
      intro method hmethod hmethod'
      exact hne (Ancestry.IsNearest.unique (haround first hfirst method hmethod)
        (haround second hsecond method hmethod'))
  · intro method body creator hbody hkind hcreator undeclared declaration hdeclaration hmethod
    have declares := (ClassIndex.mem_nodes_of_mem_declarations hdeclaration).2
    exact not_isMethodOf_of_classBody declares hbody hkind hcreator undeclared
      (mem_handlerNodes_iff.1 hmethod).2.1

/-- The class `B` in the class `A`, with a method `g` that carries the annotation. -/
def nestedHandlerFile : Tree :=
  .node ⟨"program", true, "", 0, 0, none⟩
    [.node ⟨"import_declaration", true, "import org.apache.camel.Handler;", 0, 0, none⟩
        [.node ⟨"scoped_identifier", true, "org.apache.camel.Handler", 7, 0, none⟩ []],
      .node ⟨"class_declaration", true, "class A { class B { @Handler void g() {} } }", 32, 0, none⟩
        [.node ⟨"identifier", true, "A", 38, 0, some "name"⟩ [],
          .node ⟨"class_body", true, "{ class B { @Handler void g() {} } }", 40, 0, some "body"⟩
            [.node ⟨"class_declaration", true, "class B { @Handler void g() {} }", 42, 0, none⟩
              [.node ⟨"identifier", true, "B", 48, 0, some "name"⟩ [],
                .node ⟨"class_body", true, "{ @Handler void g() {} }", 50, 0, some "body"⟩
                  [.node ⟨"method_declaration", true, "@Handler void g() {}", 52, 0, none⟩
                    [.node ⟨"modifiers", true, "@Handler", 52, 0, none⟩
                        [.node ⟨"marker_annotation", true, "@Handler", 52, 0, none⟩
                          [.node ⟨"identifier", true, "Handler", 53, 0, some "name"⟩ []]],
                      .node ⟨"identifier", true, "g", 66, 0, some "name"⟩ []]]]]]]

theorem hasBodies_nestedHandlerFile : HasBodies nestedHandlerFile := by
  have hbodies : ∀ node ∈ Tree.preorder [] nestedHandlerFile, isDeclaration node = true →
      ∀ body ∈ node.field? "body", isDeclaration body = false := by
    decide
  intro node hnode declares body hbody
  rw [Tree.nodes_eq_preorder] at hnode
  exact hbodies node hnode declares body hbody

/-- A method of a nested class is listed for that class alone. -/
theorem handlerMethods_nestedHandlerFile :
    HasBodies nestedHandlerFile ∧
      (ofTree {} "A.java" nestedHandlerFile).handlerMethods = ["A.B.g"] ∧
      ∃ declaration ∈ declarations nestedHandlerFile.root,
        ∃ method ∈ handlerNodes nestedHandlerFile declaration.node,
          IsAround declaration.node method := by
  obtain ⟨hlist, hattributed, -⟩ := handlerMethods_eq {} "A.java" nestedHandlerFile
  have hlisted : (ofTree {} "A.java" nestedHandlerFile).handlerMethods = ["A.B.g"] := by
    show ((ClassIndex.ofTree nestedHandlerFile).declaredEntries.flatMap fun (_, entry) =>
      handlersOf entry) = ["A.B.g"]
    simp only [ClassIndex.ofTree, declarations_root_eq]
    decide
  have hmem : "A.B.g" ∈ (ofTree {} "A.java" nestedHandlerFile).handlerMethods := by
    rw [hlisted]
    exact List.mem_singleton_self _
  rw [hlist] at hmem
  obtain ⟨declaration, hdeclaration, hname⟩ := List.mem_flatMap.1 hmem
  obtain ⟨name, hname, -⟩ := List.mem_map.1 hname
  obtain ⟨method, hmethod, -⟩ := List.mem_filterMap.1 hname
  exact ⟨hasBodies_nestedHandlerFile, hlisted, declaration, hdeclaration, method, hmethod,
    (hattributed hasBodies_nestedHandlerFile).2 declaration hdeclaration method hmethod⟩

end RouteScope.Report
