import RouteScope.ClassGraph.Role

/-!
# Derivation of classes

A class derives from another one if a path of resolved supertypes leads from
the first to the second and all classes on the path exist.  The path may be
empty.  The search behind `ClassGraph.isExpressionType` lists exactly the
classes that the class in question derives from.

* `Derives`: the paths, as a relation of their own.
* `DerivesWithin`: the paths that stay among given classes.  The search marks a
  class by taking it out of those that it may still enter, so this is the
  relation for which its invariant holds.
* `mem_closure_iff`: what a search lists, whatever it has seen before and
  however many classes are pending.
* `isExpressionType_iff`: which classes are expression types.

Cycles, diamonds and numbers past the end need no assumption.  A class that the
search has left cannot be missed later on: a path through it can be cut behind
the last time that it comes by.
-/

namespace RouteScope

/-- The class names the other one as a supertype, in one of the three places
where it can do so. -/
def ClassEntry.HasSupertype (entry : ClassEntry) (super : ClassId) : Prop :=
  .resolved super ∈ entry.implemented ∨ .resolved super ∈ entry.extended ∨
    entry.superclass? = some (.resolved super)

namespace ClassGraph

variable {graph : ClassGraph}

/-- A path of resolved supertypes leads from one class to the other, and every
class on it exists. -/
inductive Derives (graph : ClassGraph) : ClassId → ClassId → Prop where
  | refl {id : ClassId} {entry : ClassEntry} (found : graph.get? id = some entry) :
      Derives graph id id
  | step {id super ancestor : ClassId} {entry : ClassEntry}
      (found : graph.get? id = some entry) (direct : entry.HasSupertype super)
      (above : Derives graph super ancestor) : Derives graph id ancestor

/-! ## Direct supertypes -/

theorem mem_supertypes_filterMap_iff {entry : ClassEntry} {super : ClassId} :
    super ∈ entry.supertypes.filterMap TypeRef.id? ↔ entry.HasSupertype super := by
  have resolved (ref : TypeRef) : ref.id? = some super ↔ ref = .resolved super := by
    cases ref <;> simp [TypeRef.id?]
  simp [ClassEntry.supertypes, ClassEntry.HasSupertype, List.mem_filterMap, resolved]

/-- The search goes on to the direct supertypes of the classes that exist. -/
theorem mem_supertypeIds_iff {id super : ClassId} :
    super ∈ graph.supertypeIds id ↔
      ∃ entry, graph.get? id = some entry ∧ entry.HasSupertype super := by
  unfold supertypeIds
  cases found : graph.get? id with
  | none => simp
  | some entry => simpa using mem_supertypes_filterMap_iff

/-! ## Paths among given classes -/

/-- A path of resolved supertypes leads from one class to the other, and every
class on it is one of the given ones. -/
inductive DerivesWithin (graph : ClassGraph) (among : List ClassId) :
    ClassId → ClassId → Prop where
  | refl {id : ClassId} (inside : id ∈ among) : DerivesWithin graph among id id
  | step {id super ancestor : ClassId} (inside : id ∈ among)
      (direct : super ∈ graph.supertypeIds id)
      (above : DerivesWithin graph among super ancestor) :
      DerivesWithin graph among id ancestor

namespace DerivesWithin

variable {among : List ClassId} {id ancestor : ClassId}

theorem inside (path : DerivesWithin graph among id ancestor) : id ∈ among := by
  cases path with
  | refl inside => exact inside
  | step inside _ _ => exact inside

theorem mono {wider : List ClassId} (path : DerivesWithin graph among id ancestor)
    (h : ∀ c ∈ among, c ∈ wider) : DerivesWithin graph wider id ancestor := by
  induction path with
  | refl inside => exact .refl (h _ inside)
  | step inside direct _ ih => exact .step (h _ inside) direct ih

/-- A path either avoids a class, or ends in it, or can be cut behind the last
time that it comes by. -/
theorem cut (path : DerivesWithin graph among id ancestor) (seen : ClassId) :
    ancestor = seen ∨ DerivesWithin graph (among.erase seen) id ancestor ∨
      ∃ super ∈ graph.supertypeIds seen,
        DerivesWithin graph (among.erase seen) super ancestor := by
  induction path with
  | @refl id inside =>
    by_cases h : id = seen
    · exact .inl h
    · exact .inr (.inl (.refl ((List.mem_erase_of_ne h).2 inside)))
  | @step id super ancestor inside direct _ ih =>
    rcases ih with hseen | hsuper | hbehind
    · exact .inl hseen
    · by_cases h : id = seen
      · subst h
        exact .inr (.inr ⟨super, direct, hsuper⟩)
      · exact .inr (.inl (.step ((List.mem_erase_of_ne h).2 inside) direct hsuper))
    · exact .inr (.inr hbehind)

end DerivesWithin

/-- Among all classes, the paths are those of classes that exist. -/
theorem derivesWithin_range_iff {id ancestor : ClassId} :
    DerivesWithin graph (List.range graph.size) id ancestor ↔ Derives graph id ancestor := by
  constructor
  · intro path
    induction path with
    | refl inside =>
      obtain ⟨entry, found⟩ := get?_eq_some_of_lt (List.mem_range.1 inside)
      exact .refl found
    | step _ direct _ ih =>
      obtain ⟨entry, found, hdirect⟩ := mem_supertypeIds_iff.1 direct
      exact .step found hdirect ih
  · intro path
    induction path with
    | refl found => exact .refl (List.mem_range.2 (lt_size_of_get?_eq_some found))
    | step found direct _ ih =>
      exact .step (List.mem_range.2 (lt_size_of_get?_eq_some found))
        (mem_supertypeIds_iff.2 ⟨_, found, direct⟩) ih

/-! ## The search -/

/-- A search lists the classes that one of the pending classes derives from by
a path of unseen classes.  The induction is over the search: a pending class is
either entered, and then no path needs to come by it again, or passed over, and
then no path begins with it. -/
theorem mem_closure_iff {unseen pending : List ClassId} {ancestor : ClassId} :
    ancestor ∈ graph.closure unseen pending ↔
      ∃ id ∈ pending, DerivesWithin graph unseen id ancestor := by
  induction unseen, pending using closure.induct graph with
  | case1 unseen => simp [closure]
  | case2 unseen id pending hunseen ih =>
    rw [closure, if_pos hunseen, List.mem_cons, ih]
    have keep : ∀ c ∈ unseen.erase id, c ∈ unseen := fun _ => List.mem_of_mem_erase
    constructor
    · rintro (rfl | ⟨next, hnext, path⟩)
      · exact ⟨ancestor, List.mem_cons_self, .refl hunseen⟩
      · rcases List.mem_append.1 hnext with hdirect | hpending
        · exact ⟨id, List.mem_cons_self, .step hunseen hdirect (path.mono keep)⟩
        · exact ⟨next, List.mem_cons_of_mem _ hpending, path.mono keep⟩
    · rintro ⟨first, hfirst, path⟩
      rcases path.cut id with hseen | havoid | ⟨super, hsuper, hbehind⟩
      · exact .inl hseen
      · rcases List.mem_cons.1 hfirst with rfl | hpending
        · cases havoid with
          | refl _ => exact .inl rfl
          | step _ direct above => exact .inr ⟨_, List.mem_append_left _ direct, above⟩
        · exact .inr ⟨first, List.mem_append_right _ hpending, havoid⟩
      · exact .inr ⟨super, List.mem_append_left _ hsuper, hbehind⟩
  | case3 unseen id pending hseen ih =>
    rw [closure, if_neg hseen, ih]
    constructor
    · rintro ⟨first, hfirst, path⟩
      exact ⟨first, List.mem_cons_of_mem _ hfirst, path⟩
    · rintro ⟨first, hfirst, path⟩
      rcases List.mem_cons.1 hfirst with rfl | hpending
      · exact absurd path.inside hseen
      · exact ⟨first, hpending, path⟩

/-- The lineage of a class holds what the class derives from. -/
theorem mem_lineage_iff {id ancestor : ClassId} :
    ancestor ∈ graph.lineage id ↔ Derives graph id ancestor := by
  rw [lineage, mem_closure_iff]
  simp [derivesWithin_range_iff]

theorem isNamedAmong_iff {names : List String} {id : ClassId} :
    graph.isNamedAmong names id = true ↔
      ∃ entry name, graph.get? id = some entry ∧ entry.qualifiedName? = some name ∧
        name ∈ names := by
  unfold isNamedAmong
  cases found : graph.get? id with
  | none => simp
  | some entry => cases hname : entry.qualifiedName? <;> simp [hname]

/-- A class is an expression type exactly if it derives from a class, perhaps
itself, that has one of the four names.  No class is none. -/
theorem isExpressionType_iff (graph : ClassGraph) :
    graph.isExpressionType none = false ∧
      ∀ id : ClassId, graph.isExpressionType (some id) = true ↔
        ∃ ancestor entry name, Derives graph id ancestor ∧
          graph.get? ancestor = some entry ∧ entry.qualifiedName? = some name ∧
          name ∈ Camel.expressionTypes := by
  refine ⟨rfl, fun id => ?_⟩
  simp only [isExpressionType, Option.any_some, List.any_eq_true, mem_lineage_iff,
    isNamedAmong_iff]
  constructor
  · rintro ⟨ancestor, path, entry, name, found, hname, hmem⟩
    exact ⟨ancestor, entry, name, path, found, hname, hmem⟩
  · rintro ⟨ancestor, entry, name, path, found, hname, hmem⟩
    exact ⟨ancestor, path, entry, name, found, hname, hmem⟩

end ClassGraph

end RouteScope
