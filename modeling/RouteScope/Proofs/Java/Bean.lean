import Mathlib.Data.List.Find
import RouteScope.Java.Recognizer
import RouteScope.Proofs.Java.Argument
import RouteScope.Proofs.Java.Nesting
import RouteScope.Proofs.Text.Split

/-!
# Beans that the file declares

A bean reference is looked up twice: once for its class, among the names in the
class index, and once for its declaration, among the name tokens in the tree.
Both begin with the declared types and take the first one with the simple name,
so both end at the same declaration, as long as every declaration has a simple
name at all.

* `HasSimpleNames`: what the grammar promises about names.
* `firstDeclared?`: the declared type that both look-ups go for.
* `findDeclared?_eq` and `beanNode?_eq`: each of them finds that one.
* `beanNode?_eq_some_iff`: they agree.
-/

namespace RouteScope.Java

/-- Every declaration of the file has a name, and there is no dot in it. -/
def HasSimpleNames (tree : Tree) : Prop :=
  ∀ node ∈ tree.nodes, isDeclaration node = true →
    ∃ name, declaredName? node = some name ∧ '.' ∉ name.toList

variable {tree : Tree}

/-! ## Declarations -/

theorem HasSimpleNames.hasNames (named : HasSimpleNames tree) : HasNames tree := by
  intro node hnode declares
  obtain ⟨name, hname, -⟩ := named node hnode declares
  exact ⟨name, hname⟩

/-- The simple name of a declared type is the name in its declaration. -/
theorem declaredName?_eq_some_iff (named : HasSimpleNames tree) {declaration : Declaration}
    (h : declaration ∈ declarations tree.root) {name : String} :
    declaredName? declaration.node = some name ↔
      Text.afterLast '.' (declaration.qualifiedName (packageName? tree.root)) = name := by
  have hnode : declaration.node ∈ typeNodes tree :=
    ClassIndex.map_node_declarations tree ▸ List.mem_map_of_mem h
  obtain ⟨hmem, htype⟩ := List.mem_filter.1 hnode
  obtain ⟨own, hown, simple⟩ := named _ hmem (Bool.and_eq_true_iff.1 htype).1
  obtain ⟨outer, last, hlast, hpath⟩ :=
    exists_eq_concat_of_nestingPath? (ClassIndex.nestingPath?_of_mem_declarations h)
  obtain rfl : own = last := Option.some.inj (hown.symm.trans hlast)
  rw [Declaration.qualifiedName, hpath, ← List.append_assoc,
    Text.afterLast_intercalate_concat _ simple, hown, Option.some.injEq]

/-! ## The first declared type with a name -/

/-- The first declared type with the simple name. -/
def firstDeclared? (tree : Tree) (name : String) : Option (ClassId × Declaration) :=
  (ClassIndex.numbered tree).find? fun p => declaredName? p.2.node == some name

namespace ClassIndex

theorem bind_simpleName? (graph : ClassGraph) (id : ClassId) :
    (graph.get? id).bind (·.simpleName?) = (graph.nameOf? id).map (Text.afterLast '.') := by
  unfold ClassGraph.nameOf? ClassEntry.simpleName?
  cases graph.get? id <;> rfl

/-- In the index, the declared types are compared by the last part of their
qualified names. -/
theorem findDeclared?_eq_find? (tree : Tree) (name : String) :
    (ofTree tree).findDeclared? name = ((numbered tree).find? fun p =>
      Text.afterLast '.' (p.2.qualifiedName (packageName? tree.root)) == name).map (·.1) := by
  rw [findDeclared?, ← map_fst_numbered, List.find?_map]
  refine congrArg _ (List.find?_congr fun p hp => ?_)
  rw [Function.comp_apply, bind_simpleName?, nameOf?_ofTree hp, Bool.eq_iff_iff]
  simp

theorem findDeclared?_eq (named : HasSimpleNames tree) (name : String) :
    (ofTree tree).findDeclared? name = (firstDeclared? tree name).map (·.1) := by
  rw [findDeclared?_eq_find?, firstDeclared?]
  refine congrArg _ (List.find?_congr fun p hp => ?_)
  rw [Bool.eq_iff_iff, beq_iff_eq, beq_iff_eq,
    declaredName?_eq_some_iff named (List.of_mem_zip hp).2]

end ClassIndex

/-- In the tree, the declarations are compared by their names.  The search goes
through the whole tree, wherever in it the bean reference stands. -/
theorem beanNode?_eq (named : HasSimpleNames tree) {node : Node} (hnode : node ∈ tree.nodes) :
    beanNode? node = (beanName? node).bind fun name =>
      (firstDeclared? tree name).map (·.2.node) := by
  have hfind (name : String) : (node.root.descendants.find? fun declaration =>
      isDeclaration declaration && declaredName? declaration == some name) =
        (firstDeclared? tree name).map (·.2.node) := by
    rw [Tree.mem_nodes_iff.1 hnode]
    calc tree.nodes.find? (fun d => isDeclaration d && declaredName? d == some name)
      _ = (tree.nodes.filter isDeclaration).find? (declaredName? · == some name) := by
        rw [List.find?_filter]
        exact List.find?_congr fun d _ => by rw [Bool.eq_iff_iff]; simp
      _ = (((ClassIndex.numbered tree).map (·.2)).map (·.node)).find?
            (declaredName? · == some name) := by
        rw [← typeNodes_eq named.hasNames, ← ClassIndex.map_node_declarations,
          ClassIndex.map_snd_numbered]
      _ = (firstDeclared? tree name).map (·.2.node) := by
        rw [List.map_map, List.find?_map]
        rfl
  exact congrArg _ (funext hfind)

theorem beanClass?_eq (named : HasSimpleNames tree) (node : Node) :
    beanClass? (ClassIndex.ofTree tree) node = (beanName? node).bind fun name =>
      (firstDeclared? tree name).map (·.1) <|>
        (ClassIndex.ofTree tree).graph.findBySimpleName? name := by
  refine congrArg _ (funext fun name => ?_)
  rw [ClassIndex.findDeclared?_eq named]

/-- A call that refers to a bean is one of `bean`. -/
theorem methodName?_of_beanClass? {call : Node} {index : ClassIndex} {id : ClassId}
    (hkind : call.kind = "method_invocation") (h : beanClass? index call = some id) :
    methodName? call = some "bean" := by
  obtain ⟨name, hname, -⟩ := Option.bind_eq_some_iff.1 h
  obtain ⟨called, hcalled, hrest⟩ := Option.bind_eq_some_iff.1 hname
  obtain rfl : call = called := by
    rw [callAt?_of_kind hkind] at hcalled
    exact Option.some.inj hcalled
  obtain ⟨_, hguard, -⟩ := Option.bind_eq_some_iff.1 hrest
  obtain ⟨method, hmethod, hmem⟩ := isCallOf_iff.1 ((Option.guard_eq_some' _).1 hguard)
  rw [hmethod, List.mem_singleton.1 hmem]

/-! ## Agreement -/

/-- If any declared type has the simple name, one is the first. -/
theorem firstDeclared?_ne_none (named : HasSimpleNames tree) {declaration : Declaration}
    (h : declaration ∈ declarations tree.root) {name : String}
    (simple : Text.afterLast '.' (declaration.qualifiedName (packageName? tree.root)) = name) :
    firstDeclared? tree name ≠ none := by
  rw [← ClassIndex.map_snd_numbered] at h
  obtain ⟨p, hp, rfl⟩ := List.mem_map.1 h
  intro hnone
  refine List.find?_eq_none.1 hnone p hp (beq_iff_eq.2 ?_)
  exact (declaredName?_eq_some_iff named (List.of_mem_zip hp).2).2 simple

/-- A class that is found by its simple name has a name that ends with it. -/
theorem exists_nameOf?_of_findBySimpleName? {graph : ClassGraph} {id : ClassId} {name : String}
    (h : graph.findBySimpleName? name = some id) :
    ∃ qualified, graph.nameOf? id = some qualified ∧ Text.afterLast '.' qualified = name := by
  obtain ⟨hid, hname, -⟩ := List.findIdx?_eq_some_iff_getElem.1 h
  have hfound : graph.get? id = some graph.entries[id] := List.getElem?_eq_getElem hid
  have hsimple := ClassIndex.bind_simpleName? graph id
  rw [hfound, Option.bind_some, beq_iff_eq.1 hname] at hsimple
  exact Option.map_eq_some_iff.1 hsimple.symm

/-- A class that is found by its simple name alone is no declared one. -/
theorem not_mem_declared_of_firstDeclared?_eq_none (named : HasSimpleNames tree) {name : String}
    (none_first : firstDeclared? tree name = none) {id : ClassId}
    (found : (ClassIndex.ofTree tree).graph.findBySimpleName? name = some id) :
    id ∉ (ClassIndex.ofTree tree).declared := by
  intro hid
  obtain ⟨declaration, hp⟩ := ClassIndex.exists_mem_numbered hid
  obtain ⟨qualified, hname, simple⟩ := exists_nameOf?_of_findBySimpleName? found
  obtain rfl := Option.some.inj ((ClassIndex.nameOf?_ofTree hp).symm.trans hname)
  exact firstDeclared?_ne_none named (List.of_mem_zip hp).2 simple none_first

/-- The declaration that is found is the one to which the index gave the number
that is found. -/
theorem beanNode?_eq_some_iff (named : HasSimpleNames tree) {node : Node}
    (hnode : node ∈ tree.nodes) {found : Node} :
    beanNode? node = some found ↔
      ∃ p ∈ ClassIndex.numbered tree, p.2.node = found ∧
        beanClass? (ClassIndex.ofTree tree) node = some p.1 := by
  rw [beanNode?_eq named hnode, beanClass?_eq named]
  cases hbean : beanName? node with
  | none => simp
  | some name =>
    rw [Option.bind_some, Option.bind_some]
    cases hfirst : firstDeclared? tree name with
    | none =>
      refine iff_of_false (by simp) ?_
      rintro ⟨p, hp, -, hid⟩
      exact not_mem_declared_of_firstDeclared?_eq_none named hfirst hid (List.of_mem_zip hp).1
    | some p =>
      have hp := List.mem_of_find?_eq_some hfirst
      constructor
      · rintro ⟨⟩
        exact ⟨p, hp, rfl, rfl⟩
      · rintro ⟨q, hq, rfl, hid⟩
        have hnumber : p.1 = q.1 := Option.some.inj hid
        rw [ClassIndex.numbered_unique hp hq hnumber]
        rfl

/-- Where no declaration is found, no declared type is. -/
theorem not_mem_declared_of_beanNode?_eq_none (named : HasSimpleNames tree) {node : Node}
    (hnode : node ∈ tree.nodes) (none_found : beanNode? node = none) {id : ClassId}
    (hid : beanClass? (ClassIndex.ofTree tree) node = some id) :
    id ∉ (ClassIndex.ofTree tree).declared := by
  rw [beanNode?_eq named hnode] at none_found
  rw [beanClass?_eq named] at hid
  obtain ⟨name, hname, hfound⟩ := Option.bind_eq_some_iff.1 hid
  rw [hname, Option.bind_some, Option.map_eq_none_iff] at none_found
  rw [none_found] at hfound
  exact not_mem_declared_of_firstDeclared?_eq_none named none_found hfound

end RouteScope.Java
