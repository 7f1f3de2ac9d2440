import Mathlib.Data.List.Forall2
import Mathlib.Data.List.Nodup
import RouteScope.Java.ClassIndex
import RouteScope.Proofs.ClassGraph.Derivation
import RouteScope.Proofs.ClassGraph.Growth

/-!
# Descriptions of declared types

Declared types are described one after the other, and every name that is looked
up may add a class to the graph.  This module says what each step gives in
terms of the graph that it leaves behind, and carries that over to the graph in
which all declared types are described.

* `Refers`: what a written name refers to in a graph that holds everything the
  name may refer to.  Unlike `Scope.resolve` it changes nothing.
* `Describes`: a descriptor has all its parts from a declaration, so its
  supertypes are what the declaration names (`Describes.mem_supertypes_iff`).
* `resolve_spec`, `resolveAll_spec` and `describe_spec`: one step, in the graph
  right after it.
* `describeAll_spec`: all steps, in the graph after the last one.
* `ofTree_spec`: the same for the class index of a file, whose declared types
  are `numbered` in document order.
-/

namespace RouteScope.Java

open ClassGraph (Grows)

/-- All supertypes that a declaration names: those that it extends and those that
it implements. -/
def Header.supertypes (header : Header) : List String :=
  header.superclass?.toList ++ header.extended ++ header.implemented

/-! ## What a name refers to -/

namespace Scope

variable {scope : Scope} {graph after : ClassGraph} {changed : List ClassId}

/-- The written name refers to this in the graph: to a declared type, to the first class
with the qualified name that is meant, or to nothing. -/
inductive Refers (scope : Scope) (graph : ClassGraph) : String → TypeRef → Prop where
  | declared {written : String} {id : ClassId}
      (known : scope.declared.lookup written = some id) :
      Refers scope graph written (.resolved id)
  | qualified {written name : String} {id : ClassId}
      (undeclared : scope.declared.lookup written = none)
      (means : scope.qualify? written = some name)
      (found : graph.find? name = some id) :
      Refers scope graph written (.resolved id)
  | nothing {written : String}
      (undeclared : scope.declared.lookup written = none)
      (meaningless : scope.qualify? written = none) :
      Refers scope graph written (.unresolved written)

/-- A name refers to the same class when the graph has grown. -/
theorem Refers.mono {written : String} {ref : TypeRef}
    (refers : Refers scope graph written ref) (grows : Grows changed graph after) :
    Refers scope after written ref := by
  cases refers with
  | declared known => exact .declared known
  | qualified undeclared means found =>
    exact .qualified undeclared means (grows.find?_eq found)
  | nothing undeclared meaningless => exact .nothing undeclared meaningless

/-- A name refers to one thing. -/
theorem Refers.unique {written : String} {ref other : TypeRef}
    (h : Refers scope graph written ref) (h' : Refers scope graph written other) :
    ref = other := by
  cases h <;> cases h' <;> simp_all

/-- What a name is resolved to is what it refers to in the graph that is left
behind. -/
theorem resolve_spec (scope : Scope) (graph : ClassGraph) (written : String) :
    Grows [] graph (scope.resolve graph written).2 ∧
      Refers scope (scope.resolve graph written).2 written
        (scope.resolve graph written).1 := by
  unfold resolve
  cases hdeclared : scope.declared.lookup written with
  | some id => exact ⟨.refl _ _, .declared hdeclared⟩
  | none =>
    cases hmeans : scope.qualify? written with
    | none => exact ⟨.refl _ _, .nothing hdeclared hmeans⟩
    | some name =>
      exact ⟨ClassGraph.grows_intern graph name,
        .qualified hdeclared hmeans (ClassGraph.find?_intern graph name)⟩

theorem resolveAll_spec (scope : Scope) (graph : ClassGraph) (names : List String) :
    Grows [] graph (scope.resolveAll graph names).2 ∧
      List.Forall₂ (Refers scope (scope.resolveAll graph names).2) names
        (scope.resolveAll graph names).1 := by
  induction names generalizing graph with
  | nil => exact ⟨.refl _ _, .nil⟩
  | cons written names ih =>
    obtain ⟨hfirst, hrefers⟩ := resolve_spec scope graph written
    obtain ⟨hrest, hall⟩ := ih (scope.resolve graph written).2
    exact ⟨hfirst.trans hrest (by simp), .cons (hrefers.mono hrest) hall⟩

/-! ## What a declaration says -/

/-- All parts of the descriptor but its name are what the declaration says.  The
superclass is among the types that a class extends. -/
structure Describes (scope : Scope) (graph : ClassGraph) (declaration : Node)
    (entry : ClassEntry) : Prop where
  superclass : List.Forall₂ (Refers scope graph) (header declaration).superclass?.toList
    entry.superclass?.toList
  extended : List.Forall₂ (Refers scope graph)
    ((header declaration).superclass?.toList ++ (header declaration).extended) entry.extended
  implemented : List.Forall₂ (Refers scope graph) (header declaration).implemented
    entry.implemented
  annotations : entry.annotations = scope.annotations declaration
  methods : entry.methods = scope.methods declaration

theorem Describes.mono {declaration : Node} {entry : ClassEntry}
    (describes : Describes scope graph declaration entry) (grows : Grows changed graph after) :
    Describes scope after declaration entry where
  superclass := describes.superclass.imp fun _ _ h => h.mono grows
  extended := describes.extended.imp fun _ _ h => h.mono grows
  implemented := describes.implemented.imp fun _ _ h => h.mono grows
  annotations := describes.annotations
  methods := describes.methods

/-- What a list is related to element by element are the things that its
elements are related to, if each is related to one thing only. -/
theorem mem_iff_of_forall₂ {α β : Type} {R : α → β → Prop} {xs : List α} {ys : List β}
    (h : List.Forall₂ R xs ys) (unique : ∀ x y z, R x y → R x z → y = z) {y : β} :
    y ∈ ys ↔ ∃ x ∈ xs, R x y := by
  induction h with
  | nil => simp
  | @cons x z xs ys hxz _ ih =>
    have hfirst : y = z ↔ R x y := ⟨fun heq => heq ▸ hxz, fun hxy => unique x y z hxy hxz⟩
    rw [List.mem_cons, ih, hfirst]
    simp

/-- The references to supertypes are what the written names refer to. -/
theorem Describes.mem_supertypes_iff {declaration : Node} {entry : ClassEntry} {ref : TypeRef}
    (describes : Describes scope graph declaration entry) :
    ref ∈ entry.supertypes ↔ ∃ written ∈ (header declaration).supertypes,
      Refers scope graph written ref := by
  have related {names : List String} {refs : List TypeRef}
      (h : List.Forall₂ (Refers scope graph) names refs) :
      ref ∈ refs ↔ ∃ written ∈ names, Refers scope graph written ref :=
    mem_iff_of_forall₂ h fun _ _ _ h h' => h.unique h'
  unfold ClassEntry.supertypes Header.supertypes
  rw [List.mem_append, List.mem_append, related describes.implemented,
    related describes.extended, related describes.superclass]
  constructor
  · rintro ((⟨written, hmem, refers⟩ | ⟨written, hmem, refers⟩) | ⟨written, hmem, refers⟩)
    · exact ⟨written, List.mem_append_right _ hmem, refers⟩
    · exact ⟨written, List.mem_append_left _ hmem, refers⟩
    · exact ⟨written, List.mem_append_left _ (List.mem_append_left _ hmem), refers⟩
  · rintro ⟨written, hmem, refers⟩
    rcases List.mem_append.1 hmem with hmem | hmem
    · exact .inl (.inr ⟨written, hmem, refers⟩)
    · exact .inl (.inl ⟨written, hmem, refers⟩)

theorem exists_of_mem_of_forall₂ {α β : Type} {R : α → β → Prop} {xs : List α} {ys : List β}
    (h : List.Forall₂ R xs ys) {x : α} (hx : x ∈ xs) : ∃ y, R x y := by
  induction h with
  | nil => exact absurd hx List.not_mem_nil
  | cons hxy _ ih =>
    rcases List.mem_cons.1 hx with rfl | hx
    · exact ⟨_, hxy⟩
    · exact ih hx

/-- Every written supertype refers to something. -/
theorem Describes.exists_refers {declaration : Node} {entry : ClassEntry} {written : String}
    (describes : Describes scope graph declaration entry)
    (h : written ∈ (header declaration).supertypes) : ∃ ref, Refers scope graph written ref := by
  rcases List.mem_append.1 h with h | h
  · exact exists_of_mem_of_forall₂ describes.extended h
  · exact exists_of_mem_of_forall₂ describes.implemented h

/-- The resolved supertypes are what the written names refer to. -/
theorem Describes.hasSupertype_iff {declaration : Node} {entry : ClassEntry} {super : ClassId}
    (describes : Describes scope graph declaration entry) :
    entry.HasSupertype super ↔ ∃ written ∈ (header declaration).supertypes,
      Refers scope graph written (.resolved super) := by
  rw [← describes.mem_supertypes_iff]
  simp [ClassEntry.HasSupertype, ClassEntry.supertypes]

/-- What at most one thing is related to is at most one thing. -/
theorem toList_head?_of_forall₂ {α β : Type} {R : α → β → Prop} {x? : Option α} {ys : List β}
    (h : List.Forall₂ R x?.toList ys) : ys.head?.toList = ys := by
  cases x? with
  | none =>
    obtain rfl : ys = [] := List.forall₂_nil_left_iff.1 h
    rfl
  | some x =>
    obtain ⟨y, rest, _, hrest, rfl⟩ := List.forall₂_cons_left_iff.1 h
    obtain rfl : rest = [] := List.forall₂_nil_left_iff.1 hrest
    rfl

theorem describe_spec (scope : Scope) (graph : ClassGraph) (declaration : Node) :
    Grows [] graph (scope.describe graph declaration).2 ∧
      Describes scope (scope.describe graph declaration).2 declaration
        (scope.describe graph declaration).1 := by
  obtain ⟨hsuper, hsuperRefs⟩ :=
    resolveAll_spec scope graph (header declaration).superclass?.toList
  obtain ⟨hextended, hextendedRefs⟩ := resolveAll_spec scope
    (scope.resolveAll graph (header declaration).superclass?.toList).2
    (header declaration).extended
  obtain ⟨himplemented, himplementedRefs⟩ := resolveAll_spec scope
    (scope.resolveAll
      (scope.resolveAll graph (header declaration).superclass?.toList).2
      (header declaration).extended).2
    (header declaration).implemented
  have hbehind := hextended.trans himplemented (by simp)
  have hsuperclass := hsuperRefs.imp fun _ _ h => h.mono hbehind
  have hlist := hextendedRefs.imp fun _ _ h => h.mono himplemented
  refine ⟨hsuper.trans hbehind (by simp), ?_, List.rel_append hsuperclass hlist,
    himplementedRefs, rfl, rfl⟩
  rw [describe, toList_head?_of_forall₂ hsuperRefs]
  exact hsuperclass

end Scope

/-! ## All declarations of a file -/

namespace ClassIndex

open Scope (Describes)

variable {scope : Scope} {graph : ClassGraph}

/-- When a declared type has been described, it has the descriptor that its
declaration says, and the classes that its supertypes refer to are there. -/
theorem describeOne_spec (scope : Scope) {id : ClassId} (hid : id < graph.size)
    (declaration : Declaration) :
    Grows [id] graph (describeOne scope graph id declaration) ∧
      ∃ entry, (describeOne scope graph id declaration).get? id = some entry ∧
        Describes scope (describeOne scope graph id declaration) declaration.node entry := by
  obtain ⟨hfirst, hdescribes⟩ := scope.describe_spec graph declaration.node
  have hset : Grows [id] (scope.describe graph declaration.node).2
      (describeOne scope graph id declaration) := ClassGraph.grows_set rfl
  refine ⟨hfirst.trans hset (by simpa using hid), _,
    ClassGraph.get?_set_self _ (Nat.lt_of_lt_of_le hid hfirst.size_le), ?_⟩
  obtain ⟨superclass, extended, implemented, annotations, methods⟩ := hdescribes.mono hset
  exact ⟨superclass, extended, implemented, annotations, methods⟩

/-- After all declared types have been described, each has the descriptor that
its declaration says.  The induction is over the declarations: a descriptor
that is in its place stays there, since no later declaration has its number. -/
theorem describeAll_spec (scope : Scope) (numbered : List (ClassId × Declaration))
    (distinct : (numbered.map (·.1)).Nodup) (graph : ClassGraph)
    (old : ∀ id ∈ numbered.map (·.1), id < graph.size) :
    Grows (numbered.map (·.1)) graph (describeAll scope graph numbered) ∧
      ∀ p ∈ numbered, ∃ entry, (describeAll scope graph numbered).get? p.1 = some entry ∧
        Describes scope (describeAll scope graph numbered) p.2.node entry := by
  induction numbered generalizing graph with
  | nil => exact ⟨.refl _ _, by simp⟩
  | cons p numbered ih =>
    obtain ⟨id, declaration⟩ := p
    rw [List.map_cons, List.nodup_cons] at distinct
    have hid : id < graph.size := old id (by simp)
    have hold : ∀ other ∈ numbered.map (·.1), other < graph.size :=
      fun other hmem => old other (List.mem_cons_of_mem _ hmem)
    obtain ⟨hone, entry, hget, hdescribes⟩ := describeOne_spec scope hid declaration
    obtain ⟨hrest, hall⟩ := ih distinct.2 (describeOne scope graph id declaration)
      fun other hmem => Nat.lt_of_lt_of_le (hold other hmem) hone.size_le
    refine ⟨hone.trans hrest hold, fun p hp => ?_⟩
    rcases List.mem_cons.1 hp with rfl | hp
    · refine ⟨entry, ?_, hdescribes.mono hrest⟩
      rw [describeAll, hrest.get?_eq id (Nat.lt_of_lt_of_le hid hone.size_le) distinct.1, hget]
    · exact hall p hp

/-! ## The class index of a file -/

/-- The graph in which all types of a file are declared and none is described. -/
def declaredGraph (tree : Tree) : ClassGraph :=
  declareAll (packageName? tree.root) Camel.graph (declarations tree.root)

/-- The declarations of a file in document order, each with the number that it
has in the class index. -/
def numbered (tree : Tree) : List (ClassId × Declaration) :=
  (ofTree tree).declared.zip (declarations tree.root)

/-- What names mean in a file. -/
def scopeOf (tree : Tree) : Scope :=
  .ofFile tree.root (numbered tree)

theorem entries_declareAll (package? : Option String) (graph : ClassGraph)
    (declarations : List Declaration) :
    (declareAll package? graph declarations).entries =
      graph.entries ++ declarations.map fun d => .named (d.qualifiedName package?) := by
  induction declarations generalizing graph with
  | nil => simp [declareAll]
  | cons declaration rest ih =>
    have hstep : declareAll package? graph (declaration :: rest) =
        declareAll package? (graph.add (.named (declaration.qualifiedName package?))) rest :=
      rfl
    rw [hstep, ih, ClassGraph.add]
    simp

theorem size_declaredGraph (tree : Tree) :
    (declaredGraph tree).size = Camel.graph.size + (declarations tree.root).length := by
  simp [declaredGraph, ClassGraph.size, entries_declareAll]

theorem length_declared (tree : Tree) :
    (ofTree tree).declared.length = (declarations tree.root).length := by
  simp [ofTree]

theorem mem_declared_iff {tree : Tree} {id : ClassId} :
    id ∈ (ofTree tree).declared ↔
      Camel.graph.size ≤ id ∧ id < (declaredGraph tree).size := by
  rw [size_declaredGraph]
  exact List.mem_range'_1

theorem map_fst_numbered (tree : Tree) :
    (numbered tree).map (·.1) = (ofTree tree).declared :=
  List.map_fst_zip (Nat.le_of_eq (length_declared tree))

theorem map_snd_numbered (tree : Tree) :
    (numbered tree).map (·.2) = declarations tree.root :=
  List.map_snd_zip (Nat.le_of_eq (length_declared tree).symm)

/-- Every declared type has a declaration. -/
theorem exists_mem_numbered {tree : Tree} {id : ClassId} (h : id ∈ (ofTree tree).declared) :
    ∃ declaration, (id, declaration) ∈ numbered tree := by
  rw [← map_fst_numbered] at h
  obtain ⟨p, hp, rfl⟩ := List.mem_map.1 h
  exact ⟨p.2, hp⟩

theorem mem_declarations_of_mem_numbered {tree : Tree} {p : ClassId × Declaration}
    (h : p ∈ numbered tree) : p.2 ∈ declarations tree.root :=
  (List.of_mem_zip h).2

/-- Every declaration has a number. -/
theorem exists_mem_numbered_of_mem_declarations {tree : Tree} {declaration : Declaration}
    (h : declaration ∈ declarations tree.root) : ∃ id, (id, declaration) ∈ numbered tree := by
  rw [← map_snd_numbered] at h
  obtain ⟨p, hp, rfl⟩ := List.mem_map.1 h
  exact ⟨p.1, hp⟩

/-- No two declarations have the same number. -/
theorem numbered_unique {tree : Tree} {p q : ClassId × Declaration} (hp : p ∈ numbered tree)
    (hq : q ∈ numbered tree) (same : p.1 = q.1) : p = q := by
  have distinct : ((numbered tree).map (·.1)).Nodup := by
    rw [map_fst_numbered]
    exact List.nodup_range'
  exact List.inj_on_of_nodup_map distinct hp hq same

/-- A search among the declared types gives the number of the first one that passes. -/
theorem find?_numbered_eq_some_iff {tree : Tree} (test : Declaration → Bool) {id : ClassId} :
    ((numbered tree).find? fun p => test p.2).map (·.1) = some id ↔
      ∃ (place : Nat) (declaration : Declaration),
        (declarations tree.root)[place]? = some declaration ∧ test declaration = true ∧
        (∀ earlier < place, ∀ other : Declaration,
          (declarations tree.root)[earlier]? = some other → test other = false) ∧
        (ofTree tree).declared[place]? = some id := by
  simp only [Option.map_eq_some_iff, List.find?_eq_some_iff_getElem]
  constructor
  · rintro ⟨p, ⟨htest, place, hplace, hp, hfirst⟩, rfl⟩
    obtain ⟨hid, hdeclaration⟩ := List.getElem?_zip_eq_some.1
      (List.getElem?_eq_some_iff.2 ⟨hplace, hp⟩)
    refine ⟨place, p.2, hdeclaration, htest, fun earlier hlt other hother => ?_, hid⟩
    obtain ⟨_, hsame⟩ := List.getElem?_zip_eq_some.1
      (List.getElem?_eq_getElem (Nat.lt_trans hlt hplace))
    obtain rfl := Option.some.inj (hother.symm.trans hsame)
    simpa using hfirst earlier hlt
  · rintro ⟨place, declaration, hdeclaration, htest, hfirst, hid⟩
    have hget : (numbered tree)[place]? = some (id, declaration) :=
      List.getElem?_zip_eq_some.2 ⟨hid, hdeclaration⟩
    obtain ⟨hplace, hp⟩ := List.getElem?_eq_some_iff.1 hget
    refine ⟨(id, declaration), ⟨htest, place, hplace, hp, fun earlier hlt => ?_⟩, rfl⟩
    obtain ⟨_, hother⟩ := List.getElem?_zip_eq_some.1
      (List.getElem?_eq_getElem (Nat.lt_trans hlt hplace))
    simpa using hfirst earlier hlt _ hother

/-- A search gives the number of a type that passes unless an earlier one passes too. -/
theorem find?_numbered_iff_of_getElem? {tree : Tree} (test : Declaration → Bool) {place : Nat}
    {target : Declaration} {id : ClassId} (htarget : (declarations tree.root)[place]? = some target)
    (hid : (ofTree tree).declared[place]? = some id) (htest : test target = true) :
    ((numbered tree).find? fun p => test p.2).map (·.1) = some id ↔
      ∀ earlier < place, ∀ other : Declaration, (declarations tree.root)[earlier]? = some other →
        test other = false := by
  rw [find?_numbered_eq_some_iff]
  constructor
  · rintro ⟨place', -, -, -, hfirst, hid'⟩
    obtain ⟨hbound, -⟩ := List.getElem?_eq_some_iff.1 hid
    obtain rfl : place = place' :=
      (List.getElem?_inj hbound List.nodup_range').1 (hid.trans hid'.symm)
    exact hfirst
  · exact fun hfirst => ⟨place, target, htarget, htest, hfirst, hid⟩

theorem graph_ofTree (tree : Tree) :
    (ofTree tree).graph =
      describeAll (scopeOf tree) (declaredGraph tree) (numbered tree) := rfl

/-- A declared type keeps the name under which it was declared. -/
theorem nameOf?_declaredGraph {tree : Tree} {place : Nat} {declaration : Declaration}
    (h : (declarations tree.root)[place]? = some declaration) :
    (declaredGraph tree).nameOf? (Camel.graph.size + place) =
      some (declaration.qualifiedName (packageName? tree.root)) := by
  rw [ClassGraph.nameOf?, ClassGraph.get?, ClassGraph.size, declaredGraph,
    entries_declareAll, List.getElem?_append_right (Nat.le_add_right ..)]
  simp [h, ClassEntry.named]

/-- A name is known in a file only for a type that the file declares. -/
theorem mem_declared_of_lookup {tree : Tree} {written : String} {id : ClassId}
    (h : (scopeOf tree).declared.lookup written = some id) : id ∈ (ofTree tree).declared := by
  obtain ⟨front, back, hlist, _⟩ := List.lookup_eq_some_iff.1 h
  have hmem : (written, id) ∈ (scopeOf tree).declared := by simp [hlist]
  obtain ⟨p, hp, hname⟩ := List.mem_flatMap.1 hmem
  obtain ⟨_, _, heq⟩ := List.mem_map.1 hname
  obtain rfl : p.1 = id := congrArg Prod.snd heq
  exact (List.of_mem_zip hp).1

/-- From the graph of the declarations on, only declared types get new
descriptors. -/
theorem ofTree_spec (tree : Tree) :
    Grows (ofTree tree).declared (declaredGraph tree) (ofTree tree).graph ∧
      ∀ p ∈ numbered tree, ∃ entry, (ofTree tree).graph.get? p.1 = some entry ∧
        Describes (scopeOf tree) (ofTree tree).graph p.2.node entry := by
  have distinct : (ofTree tree).declared.Nodup := List.nodup_range'
  have h := describeAll_spec (scopeOf tree) (numbered tree)
    (by rw [map_fst_numbered]; exact distinct) (declaredGraph tree)
    (by rw [map_fst_numbered]; exact fun id hid => (mem_declared_iff.1 hid).2)
  rwa [map_fst_numbered, ← graph_ofTree] at h

/-- Every declaration is described under a number of its own. -/
theorem exists_describes {tree : Tree} {declaration : Declaration}
    (h : declaration ∈ declarations tree.root) :
    ∃ id entry, (id, declaration) ∈ numbered tree ∧
      (ofTree tree).graph.get? id = some entry ∧
        Describes (scopeOf tree) (ofTree tree).graph declaration.node entry := by
  obtain ⟨id, hp⟩ := exists_mem_numbered_of_mem_declarations h
  obtain ⟨entry, found, describes⟩ := (ofTree_spec tree).2 _ hp
  exact ⟨id, entry, hp, found, describes⟩

/-- A declared type has its qualified name in the index. -/
theorem nameOf?_ofTree {tree : Tree} {p : ClassId × Declaration} (h : p ∈ numbered tree) :
    (ofTree tree).graph.nameOf? p.1 = some (p.2.qualifiedName (packageName? tree.root)) := by
  obtain ⟨place, hplace⟩ := List.mem_iff_getElem?.1 h
  obtain ⟨hid, hdeclaration⟩ := List.getElem?_zip_eq_some.1 hplace
  obtain ⟨hlt, hid⟩ := List.getElem?_eq_some_iff.1 hid
  have hnumber : p.1 = Camel.graph.size + place := by
    rw [← hid]
    simp [ofTree]
  have hold := (mem_declared_iff.1 (hid ▸ List.getElem_mem hlt)).2
  rw [(ofTree_spec tree).1.nameOf?_eq _ hold, hnumber, nameOf?_declaredGraph hdeclaration]

end ClassIndex

end RouteScope.Java
