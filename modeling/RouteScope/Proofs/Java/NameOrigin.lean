import RouteScope.Proofs.Java.Description

/-!
# Where the names of classes come from

A class index is put together in many steps, and each of them that adds a class gives
it a name: the known types have theirs from a table, the declared types from the file,
and the others from what a written supertype means.  So a property of all these is a
property of all names in the index.

* `NamesAll`: a property of all names in a graph.
* `namesAll_intern`: the step in which a class is added.
* `namesAll_resolveAll`, `namesAll_describeAll`: the steps for the supertypes of one
  declaration, and for all declarations.
* `namesAll_ofTree`: the class index of a file.
-/

namespace RouteScope

namespace ClassGraph

variable {P : String → Prop} {graph : ClassGraph}

/-- Every class that has a name has one with the property. -/
def NamesAll (P : String → Prop) (graph : ClassGraph) : Prop :=
  ∀ id name, graph.nameOf? id = some name → P name

theorem namesAll_intern (h : NamesAll P graph) {name : String} (hname : P name) :
    NamesAll P (graph.intern name).2 := by
  unfold intern
  split
  · exact h
  · intro id other hother
    by_cases hold : id < graph.size
    · rw [nameOf?, get?_add_of_lt _ hold] at hother
      exact h id other hother
    · have hlt := lt_size_of_nameOf?_eq_some hother
      rw [size_add] at hlt
      obtain rfl : id = graph.size :=
        Nat.le_antisymm (Nat.lt_succ_iff.1 hlt) (Nat.not_lt.1 hold)
      obtain rfl : name = other := by simpa [nameOf?, ClassEntry.named] using hother
      exact hname

end ClassGraph

namespace Java

open ClassGraph (NamesAll)

variable {P : String → Prop} {scope : Scope} {graph : ClassGraph}

/-! ## One declaration -/

namespace Scope

/-- Whatever the names mean has the property. -/
def MeanOnly (scope : Scope) (P : String → Prop) (names : List String) : Prop :=
  ∀ written ∈ names, ∀ name, scope.qualify? written = some name → P name

theorem namesAll_resolve (h : NamesAll P graph) {written : String}
    (means : ∀ name, scope.qualify? written = some name → P name) :
    NamesAll P (scope.resolve graph written).2 := by
  unfold resolve
  cases scope.declared.lookup written with
  | some id => exact h
  | none =>
    cases hmeans : scope.qualify? written with
    | none => exact h
    | some name => exact ClassGraph.namesAll_intern h (means name hmeans)

theorem namesAll_resolveAll {names : List String} (h : NamesAll P graph)
    (means : scope.MeanOnly P names) : NamesAll P (scope.resolveAll graph names).2 := by
  induction names generalizing graph with
  | nil => exact h
  | cons written names ih =>
    have hfirst := namesAll_resolve h (means written List.mem_cons_self)
    exact ih hfirst fun other hother => means other (List.mem_cons_of_mem _ hother)

theorem namesAll_describe {declaration : Node} (h : NamesAll P graph)
    (means : scope.MeanOnly P (header declaration).supertypes) :
    NamesAll P (scope.describe graph declaration).2 := by
  have hpart {names : List String} (hsub : names ⊆ (header declaration).supertypes)
      {graph : ClassGraph} (h : NamesAll P graph) : NamesAll P (scope.resolveAll graph names).2 :=
    namesAll_resolveAll h fun written hwritten => means written (hsub hwritten)
  have hsuper : (header declaration).superclass?.toList ⊆ (header declaration).supertypes :=
    fun _ hname => List.mem_append_left _ (List.mem_append_left _ hname)
  have hextended : (header declaration).extended ⊆ (header declaration).supertypes :=
    fun _ hname => List.mem_append_left _ (List.mem_append_right _ hname)
  have himplemented : (header declaration).implemented ⊆ (header declaration).supertypes :=
    fun _ hname => List.mem_append_right _ hname
  exact hpart himplemented (hpart hextended (hpart hsuper h))

end Scope

/-! ## All declarations of a file -/

namespace ClassIndex

/-- A described class keeps its name, so only what it refers to brings new names. -/
theorem namesAll_describeOne (id : ClassId) {declaration : Declaration} (h : NamesAll P graph)
    (means : scope.MeanOnly P (header declaration.node).supertypes) :
    NamesAll P (describeOne scope graph id declaration) := by
  have hset : ClassGraph.Grows [id] (scope.describe graph declaration.node).2
      (describeOne scope graph id declaration) := ClassGraph.grows_set rfl
  have hsize : (describeOne scope graph id declaration).size =
      (scope.describe graph declaration.node).2.size := ClassGraph.size_set _ _ _
  intro other name hname
  have hlt := ClassGraph.lt_size_of_nameOf?_eq_some hname
  rw [hset.nameOf?_eq other (hsize ▸ hlt)] at hname
  exact Scope.namesAll_describe h means other name hname

theorem namesAll_describeAll {numbered : List (ClassId × Declaration)} (h : NamesAll P graph)
    (means : ∀ p ∈ numbered, scope.MeanOnly P (header p.2.node).supertypes) :
    NamesAll P (describeAll scope graph numbered) := by
  induction numbered generalizing graph with
  | nil => exact h
  | cons p numbered ih =>
    have hone := namesAll_describeOne p.1 h (means p List.mem_cons_self)
    exact ih hone fun other hother => means other (List.mem_cons_of_mem _ hother)

variable {tree : Tree}

theorem namesAll_declaredGraph (known : ∀ p ∈ Camel.knownTypes, P p.1)
    (declared : ∀ declaration ∈ declarations tree.root,
      P (declaration.qualifiedName (packageName? tree.root))) :
    NamesAll P (declaredGraph tree) := by
  intro id name hname
  obtain ⟨entry, hget, hentry⟩ := Option.bind_eq_some_iff.1 hname
  have hmem := List.mem_of_getElem? hget
  rw [declaredGraph, entries_declareAll, List.mem_append] at hmem
  rcases hmem with hmem | hmem
  · obtain ⟨p, hp, rfl⟩ := List.mem_map.1 hmem
    obtain rfl := Option.some.inj hentry
    exact known p hp
  · obtain ⟨declaration, hdeclaration, rfl⟩ := List.mem_map.1 hmem
    obtain rfl := Option.some.inj hentry
    exact declared declaration hdeclaration

/-- A property of all names in a class index: it is enough that the known types and the
declared types have it, and whatever the written supertypes mean. -/
theorem namesAll_ofTree (known : ∀ p ∈ Camel.knownTypes, P p.1)
    (declared : ∀ declaration ∈ declarations tree.root,
      P (declaration.qualifiedName (packageName? tree.root)))
    (means : ∀ declaration ∈ declarations tree.root,
      (scopeOf tree).MeanOnly P (header declaration.node).supertypes) :
    NamesAll P (ofTree tree).graph := by
  rw [graph_ofTree]
  exact namesAll_describeAll (namesAll_declaredGraph known declared)
    fun p hp => means p.2 (mem_declarations_of_mem_numbered hp)

end ClassIndex

end Java

end RouteScope
