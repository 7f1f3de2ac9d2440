import RouteScope.ClassGraph.Basic

/-!
# Growth of a class graph

While a class graph is put together, classes are added behind all others and
descriptors are replaced, but no class ever loses its number or its name.
`Grows` says what any number of such steps leaves of the graph before them, so
whatever is found by name in the middle of the work is found at the same place
when the work is done.

* `nameOf?`: the qualified name of the class with a number, if it has one.
* `find?_eq_some_iff`: a search by name gives the first class with the name.
* `Grows`: growth in which only the listed classes get new descriptors.
* `grows_intern` and `grows_set`: the two steps.
* `Grows.trans`: any number of them.
-/

namespace RouteScope.ClassGraph

variable {graph before between after : ClassGraph}

/-! ## Names -/

/-- The qualified name of the class with the number. -/
def nameOf? (graph : ClassGraph) (id : ClassId) : Option String :=
  (graph.get? id).bind (·.qualifiedName?)

theorem lt_size_of_nameOf?_eq_some {id : ClassId} {name : String}
    (h : graph.nameOf? id = some name) : id < graph.size := by
  obtain ⟨entry, found, _⟩ := Option.bind_eq_some_iff.1 h
  exact lt_size_of_get?_eq_some found

/-- A search by name gives the first class with the name. -/
theorem find?_eq_some_iff {name : String} {id : ClassId} :
    graph.find? name = some id ↔
      graph.nameOf? id = some name ∧ ∀ earlier < id, graph.nameOf? earlier ≠ some name := by
  have named (other : ClassId) (h : other < graph.entries.length) :
      graph.nameOf? other = graph.entries[other].qualifiedName? := by
    simp [nameOf?, get?, List.getElem?_eq_getElem h]
  rw [find?, List.findIdx?_eq_some_iff_getElem]
  constructor
  · rintro ⟨hid, hname, hbefore⟩
    refine ⟨by simpa [named id hid] using hname, fun earlier hlt => ?_⟩
    simpa [named earlier (Nat.lt_trans hlt hid)] using hbefore earlier hlt
  · rintro ⟨hname, hbefore⟩
    have hid : id < graph.entries.length := lt_size_of_nameOf?_eq_some hname
    refine ⟨hid, by simpa [named id hid] using hname, fun earlier hlt => ?_⟩
    simpa [named earlier (Nat.lt_trans hlt hid)] using hbefore earlier hlt

theorem lt_size_of_find?_eq_some {name : String} {id : ClassId}
    (h : graph.find? name = some id) : id < graph.size :=
  lt_size_of_nameOf?_eq_some (find?_eq_some_iff.1 h).1

theorem nameOf?_ne_of_find?_eq_none {name : String} (h : graph.find? name = none)
    (id : ClassId) : graph.nameOf? id ≠ some name := by
  intro hname
  obtain ⟨entry, found, hentry⟩ := Option.bind_eq_some_iff.1 hname
  have := List.findIdx?_eq_none_iff.1 h entry (List.mem_of_getElem? found)
  simp [hentry] at this

/-- Where all classes keep their names, what is found by name stays where it
is. -/
theorem find?_eq_of_nameOf?_eq
    (kept : ∀ id < before.size, after.nameOf? id = before.nameOf? id) {name : String}
    {id : ClassId} (h : before.find? name = some id) : after.find? name = some id := by
  have hid := lt_size_of_find?_eq_some h
  rw [find?_eq_some_iff] at h ⊢
  refine ⟨by rw [kept id hid]; exact h.1, fun earlier hlt => ?_⟩
  rw [kept earlier (Nat.lt_trans hlt hid)]
  exact h.2 earlier hlt

/-! ## Growth -/

/-- One graph has become the other one by steps that add bare classes and
replace the descriptors of the changed classes.  No class is taken away or gets
another name, and a new class is the first with its name. -/
structure Grows (changed : List ClassId) (before after : ClassGraph) : Prop where
  size_le : before.size ≤ after.size
  nameOf?_eq : ∀ id < before.size, after.nameOf? id = before.nameOf? id
  get?_eq : ∀ id < before.size, id ∉ changed → after.get? id = before.get? id
  fresh : ∀ id, before.size ≤ id → id < after.size →
    ∃ name, after.get? id = some (.named name) ∧ after.find? name = some id

namespace Grows

variable {changed others : List ClassId}

theorem refl (changed : List ClassId) (graph : ClassGraph) : Grows changed graph graph where
  size_le := Nat.le_refl _
  nameOf?_eq _ _ := rfl
  get?_eq _ _ _ := rfl
  fresh _ hge hlt := by omega

/-- What is found by name is still found there after the graph has grown. -/
theorem find?_eq (grows : Grows changed before after) {name : String} {id : ClassId}
    (h : before.find? name = some id) : after.find? name = some id :=
  find?_eq_of_nameOf?_eq grows.nameOf?_eq h

/-- Growth goes on.  The second part must leave the classes alone that the
first one has added. -/
theorem trans (first : Grows changed before between) (second : Grows others between after)
    (old : ∀ id ∈ others, id < before.size) :
    Grows (changed ++ others) before after where
  size_le := Nat.le_trans first.size_le second.size_le
  nameOf?_eq id hid := by
    rw [second.nameOf?_eq id (Nat.lt_of_lt_of_le hid first.size_le), first.nameOf?_eq id hid]
  get?_eq id hid hnot := by
    rw [List.mem_append, not_or] at hnot
    rw [second.get?_eq id (Nat.lt_of_lt_of_le hid first.size_le) hnot.2,
      first.get?_eq id hid hnot.1]
  fresh id hge hlt := by
    by_cases hbetween : id < between.size
    · obtain ⟨name, hget, hfind⟩ := first.fresh id hge hbetween
      refine ⟨name, ?_, second.find?_eq hfind⟩
      rw [second.get?_eq id hbetween fun hmem => Nat.not_lt.2 hge (old id hmem), hget]
    · exact second.fresh id (Nat.not_lt.1 hbetween) hlt

/-- No other class has the name of a new one. -/
theorem unique_of_fresh (grows : Grows changed before after) {id : ClassId}
    (hge : before.size ≤ id) (hlt : id < after.size) :
    ∃ name, after.get? id = some (.named name) ∧
      ∀ other, after.nameOf? other = some name → other = id := by
  obtain ⟨name, hget, hfind⟩ := grows.fresh id hge hlt
  refine ⟨name, hget, fun other hother => ?_⟩
  rcases Nat.lt_trichotomy other id with hbefore | heq | hbehind
  · exact absurd hother ((find?_eq_some_iff.1 hfind).2 other hbefore)
  · exact heq
  · obtain ⟨name', hget', hfind'⟩ := grows.fresh other
      (Nat.le_trans hge (Nat.le_of_lt hbehind)) (lt_size_of_nameOf?_eq_some hother)
    obtain rfl : name' = name := by simpa [nameOf?, hget', ClassEntry.named] using hother
    exact Option.some.inj (hfind'.symm.trans hfind)

end Grows

/-- The class that is added for a name is the first with that name, unless
there was one before. -/
theorem find?_intern (graph : ClassGraph) (name : String) :
    (graph.intern name).2.find? name = some (graph.intern name).1 := by
  unfold intern
  split
  · assumption
  · rename_i hnone
    refine find?_eq_some_iff.2 ⟨by simp [nameOf?, ClassEntry.named], fun earlier hlt => ?_⟩
    rw [nameOf?, get?_add_of_lt _ hlt]
    exact nameOf?_ne_of_find?_eq_none hnone earlier

theorem grows_intern (graph : ClassGraph) (name : String) :
    Grows [] graph (graph.intern name).2 := by
  have hfind := find?_intern graph name
  unfold intern at hfind ⊢
  split at hfind
  · exact Grows.refl [] graph
  · have kept (id : ClassId) (hid : id < graph.size) :=
      get?_add_of_lt (.named name) hid
    refine ⟨by simp, fun id hid => ?_, fun id hid _ => kept id hid, fun id hge hlt => ?_⟩
    · rw [nameOf?, kept id hid, nameOf?]
    · obtain rfl : id = graph.size := by
        rw [size_add] at hlt
        omega
      exact ⟨name, get?_add_size graph _, hfind⟩

/-- A descriptor may be replaced by one with the same name. -/
theorem grows_set {id : ClassId} {entry : ClassEntry}
    (h : entry.qualifiedName? = graph.nameOf? id) :
    Grows [id] graph (graph.set id entry) where
  size_le := by simp
  nameOf?_eq other hother := by
    by_cases hsame : other = id
    · subst hsame
      rw [nameOf?, get?_set_self entry hother]
      exact h
    · rw [nameOf?, get?_set_of_ne entry hsame, nameOf?]
  get?_eq other _ hnot := get?_set_of_ne entry (by simpa using hnot)
  fresh other hge hlt := by
    rw [size_set] at hlt
    omega

end RouteScope.ClassGraph
