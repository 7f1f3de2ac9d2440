import RouteScope.Proofs.ClassGraph.Derivation
import RouteScope.Proofs.Java.Description

/-!
# The shape of a class index

The class index of a file has three parts, one behind the other: the known
types of Camel as they are for every file, the declared types in document
order, and bare classes that are only referred to.  `Origin` says this of one
class and `WellFormed` of all of them, and `ofTree_wellFormed` proves it for
every file.

The file may declare a type twice, or declare a type of Camel again.  Neither
touches the first part, and both leave the names in the last part unique.
-/

namespace RouteScope.Java

/-- The nodes of a file that declare a type whose nesting path is complete, in
document order. -/
def typeNodes (tree : Tree) : List Node :=
  tree.nodes.filter fun node => isDeclaration node && (nestingPath? node).isSome

/-- The class has the name and the supertypes from a line of a table of known
types, and nothing else.  The supertypes are found in the graph by their
names. -/
def IsTabled (graph : ClassGraph) (known : String × List String) (entry : ClassEntry) :
    Prop :=
  ∃ supers : List ClassId,
    entry = { ClassEntry.named known.1 with implemented := supers.map .resolved } ∧
      List.Forall₂ (fun name super => graph.find? name = some super) known.2 supers

namespace ClassIndex

/-- A class index has the three parts of the index of the file: the nine classes of Camel
as their table says, the declared types under their qualified names and in document
order, and bare classes whose names no other class has.  No number in it points past
the end. -/
structure WellFormed (tree : Tree) (index : ClassIndex) : Prop where
  known_eq : index.graph.entries.take 9 = Camel.graph.entries
  known_tabled : List.Forall₂ (IsTabled index.graph) Camel.knownTypes
    (index.graph.entries.take 9)
  declared_eq : index.declared = List.range' 9 (typeNodes tree).length
  declared_nodup : index.declared.Nodup
  declared_named : List.Forall₂
    (fun id node => ∃ path, nestingPath? node = some path ∧
      index.graph.nameOf? id =
        some (".".intercalate ((packageName? tree.root).toList ++ path)))
    index.declared (typeNodes tree)
  others_bare : ∀ id, 9 + (typeNodes tree).length ≤ id → id < index.graph.size →
    ∃ name, index.graph.get? id = some (.named name) ∧
      ∀ other, index.graph.nameOf? other = some name → other = id
  reference_lt : ∀ id entry super, index.graph.get? id = some entry →
    entry.HasSupertype super → super < index.graph.size
  declared_lt : ∀ id ∈ index.declared, id < index.graph.size

/-! ## The known types -/

theorem size_camel : Camel.graph.size = 9 := by decide

/-- The known types are what the table says. -/
theorem camel_tabled :
    List.Forall₂ (IsTabled Camel.graph) Camel.knownTypes Camel.graph.entries := by
  have tabled : ∀ p ∈ Camel.knownTypes.zip Camel.graph.entries,
      p.2 = { ClassEntry.named p.1.1 with
        implemented := (p.2.implemented.filterMap TypeRef.id?).map .resolved } ∧
      List.Forall₂ (fun name super => Camel.graph.find? name = some super) p.1.2
        (p.2.implemented.filterMap TypeRef.id?) := by
    decide
  exact List.forall₂_iff_zip.2 ⟨by decide, fun hmem => ⟨_, tabled _ hmem⟩⟩

/-- The supertypes of the known types are known types. -/
theorem camel_supertype_lt : ∀ entry ∈ Camel.graph.entries, ∀ super,
    entry.HasSupertype super → super < 9 := by
  have tabled : ∀ entry ∈ Camel.graph.entries,
      ∀ super ∈ entry.supertypes.filterMap TypeRef.id?, super < 9 := by
    decide
  exact fun entry hmem super h =>
    tabled entry hmem super (ClassGraph.mem_supertypes_filterMap_iff.2 h)

/-- The known types stay as they are. -/
theorem get?_ofTree_of_lt (tree : Tree) {id : ClassId} (hid : id < Camel.graph.size) :
    (ofTree tree).graph.get? id = Camel.graph.get? id := by
  have hold : id < (declaredGraph tree).size := by
    rw [size_declaredGraph]
    exact Nat.lt_add_right _ hid
  have hnot : id ∉ (ofTree tree).declared := by
    rw [mem_declared_iff, not_and]
    exact fun hge => absurd hid (Nat.not_lt.2 hge)
  rw [(ofTree_spec tree).1.get?_eq id hold hnot, ClassGraph.get?, declaredGraph,
    entries_declareAll]
  exact List.getElem?_append_left hid

theorem take_ofTree (tree : Tree) :
    (ofTree tree).graph.entries.take 9 = Camel.graph.entries := by
  apply List.ext_getElem?
  intro id
  by_cases hid : id < 9
  · rw [List.getElem?_take_of_lt hid]
    exact get?_ofTree_of_lt tree (size_camel ▸ hid)
  · have hend : Camel.graph.size ≤ id := by
      rw [size_camel]
      exact Nat.not_lt.1 hid
    rw [List.getElem?_eq_none (l := Camel.graph.entries) hend, List.getElem?_eq_none]
    exact Nat.le_trans (List.length_take_le ..) (Nat.not_lt.1 hid)

/-- A known type is found by its name in every file. -/
theorem find?_ofTree_of_known (tree : Tree) {name : String} {id : ClassId}
    (h : Camel.graph.find? name = some id) : (ofTree tree).graph.find? name = some id := by
  refine ClassGraph.find?_eq_of_nameOf?_eq (fun other hother => ?_) h
  rw [ClassGraph.nameOf?, get?_ofTree_of_lt tree hother, ClassGraph.nameOf?]

/-! ## The declared types -/

/-- The declarations come from the nodes that declare a type, in the same
order. -/
theorem map_node_declarations (tree : Tree) :
    (declarations tree.root).map (·.node) = typeNodes tree := by
  unfold declarations typeNodes Tree.nodes
  induction tree.root.descendants with
  | nil => rfl
  | cons node nodes ih =>
    by_cases hdeclares : isDeclaration node
    · cases hpath : nestingPath? node <;> simpa [hdeclares, hpath] using ih
    · simpa [hdeclares] using ih

theorem nestingPath?_of_mem_declarations {tree : Tree} {declaration : Declaration}
    (h : declaration ∈ declarations tree.root) :
    nestingPath? declaration.node = some declaration.path := by
  obtain ⟨node, -, hnode⟩ := List.mem_filterMap.1 h
  obtain ⟨path, hpath, rfl⟩ := Option.map_eq_some_iff.1 hnode
  exact hpath

theorem mem_nodes_of_mem_declarations {tree : Tree} {declaration : Declaration}
    (h : declaration ∈ declarations tree.root) :
    declaration.node ∈ tree.nodes ∧ isDeclaration declaration.node = true := by
  have hmem : declaration.node ∈ typeNodes tree := by
    rw [← ClassIndex.map_node_declarations]
    exact List.mem_map_of_mem h
  obtain ⟨hnode, htest⟩ := List.mem_filter.1 hmem
  exact ⟨hnode, (Bool.and_eq_true_iff.1 htest).1⟩

theorem length_typeNodes (tree : Tree) :
    (typeNodes tree).length = (declarations tree.root).length := by
  rw [← map_node_declarations, List.length_map]

theorem declared_named (tree : Tree) : List.Forall₂
    (fun id node => ∃ path, nestingPath? node = some path ∧
      (ofTree tree).graph.nameOf? id =
        some (".".intercalate ((packageName? tree.root).toList ++ path)))
    (ofTree tree).declared (typeNodes tree) := by
  rw [← map_node_declarations, ← map_snd_numbered, ← map_fst_numbered, List.map_map,
    List.forall₂_map_left_iff, List.forall₂_map_right_iff, List.forall₂_same]
  intro p hp
  have hpath := nestingPath?_of_mem_declarations (List.of_mem_zip hp).2
  exact ⟨p.2.path, hpath, nameOf?_ofTree hp⟩

/-! ## References -/

/-- What a name refers to is a class of the index. -/
theorem lt_size_of_refers {tree : Tree} {written : String} {super : ClassId}
    (refers : (scopeOf tree).Refers (ofTree tree).graph written (.resolved super)) :
    super < (ofTree tree).graph.size := by
  cases refers with
  | declared known =>
    have hold := (mem_declared_iff.1 (mem_declared_of_lookup known)).2
    exact Nat.lt_of_lt_of_le hold (ofTree_spec tree).1.size_le
  | qualified _ _ found => exact ClassGraph.lt_size_of_find?_eq_some found

/-- Where a class of the index comes from. -/
inductive Origin (tree : Tree) (id : ClassId) (entry : ClassEntry) : Prop where
  | known (found : Camel.graph.get? id = some entry)
  | declared {declaration : Declaration} (stands : (id, declaration) ∈ numbered tree)
      (describes : (scopeOf tree).Describes (ofTree tree).graph declaration.node entry)
  | external {name : String} (behind : (declaredGraph tree).size ≤ id)
      (bare : entry = .named name)
      (only : ∀ other, (ofTree tree).graph.nameOf? other = some name → other = id)

/-- Every class is one of the known types, a declared type or a bare class. -/
theorem origin {tree : Tree} {id : ClassId} {entry : ClassEntry}
    (found : (ofTree tree).graph.get? id = some entry) : Origin tree id entry := by
  obtain ⟨hgrows, hdescribes⟩ := ofTree_spec tree
  by_cases hknown : id < Camel.graph.size
  · exact .known ((get?_ofTree_of_lt tree hknown).symm.trans found)
  · by_cases hdeclared : id < (declaredGraph tree).size
    · obtain ⟨declaration, hp⟩ :=
        exists_mem_numbered (mem_declared_iff.2 ⟨Nat.not_lt.1 hknown, hdeclared⟩)
      obtain ⟨described, hget, hdescribed⟩ := hdescribes _ hp
      obtain rfl : described = entry := Option.some.inj (hget.symm.trans found)
      exact .declared hp hdescribed
    · obtain ⟨name, hget, honly⟩ := hgrows.unique_of_fresh (Nat.not_lt.1 hdeclared)
        (ClassGraph.lt_size_of_get?_eq_some found)
      exact .external (Nat.not_lt.1 hdeclared) (Option.some.inj (found.symm.trans hget)) honly

/-- A bare class has no supertypes. -/
theorem not_hasSupertype_named (name : String) (super : ClassId) :
    ¬ (ClassEntry.named name).HasSupertype super := by
  simp [ClassEntry.HasSupertype, ClassEntry.named]

/-- Wherever a class comes from, its references point to classes. -/
theorem supertype_lt_size {tree : Tree} {id super : ClassId} {entry : ClassEntry}
    (found : (ofTree tree).graph.get? id = some entry) (direct : entry.HasSupertype super) :
    super < (ofTree tree).graph.size := by
  cases origin found with
  | known hcamel =>
    have hsuper := camel_supertype_lt entry (List.mem_of_getElem? hcamel) super direct
    have hgrows := (ofTree_spec tree).1.size_le
    rw [size_declaredGraph, size_camel] at hgrows
    exact Nat.lt_of_lt_of_le hsuper (Nat.le_trans (Nat.le_add_right ..) hgrows)
  | declared stands describes =>
    obtain ⟨written, _, refers⟩ := describes.hasSupertype_iff.1 direct
    exact lt_size_of_refers refers
  | external _ bare _ =>
    subst bare
    exact absurd direct (not_hasSupertype_named _ _)

/-! ## All parts -/

/-- The class index of every file is well formed. -/
theorem ofTree_wellFormed (tree : Tree) : WellFormed tree (ofTree tree) := by
  obtain ⟨hgrows, _⟩ := ofTree_spec tree
  have hbase := size_declaredGraph tree
  rw [size_camel] at hbase
  refine ⟨take_ofTree tree, ?_, ?_, List.nodup_range', declared_named tree, ?_, ?_, ?_⟩
  · rw [take_ofTree]
    refine camel_tabled.imp fun known entry h => ?_
    obtain ⟨supers, hentry, hfound⟩ := h
    exact ⟨supers, hentry, hfound.imp fun _ _ h => find?_ofTree_of_known tree h⟩
  · rw [length_typeNodes, ← size_camel]
    rfl
  · intro id hge hlt
    rw [length_typeNodes, ← hbase] at hge
    exact hgrows.unique_of_fresh hge hlt
  · exact fun id entry super found direct => supertype_lt_size found direct
  · intro id hid
    exact Nat.lt_of_lt_of_le (mem_declared_iff.1 hid).2 hgrows.size_le

end ClassIndex

end RouteScope.Java
