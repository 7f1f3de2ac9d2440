import Mathlib.Data.Nat.Find
import Mathlib.Data.Set.Finite.Basic
import RouteScope.Ancestry

/-!
# The way up

`climb` follows a parent relation for a number of steps.  The ancestors of a
node are the places where one step or more lead, and a search among them finds
the nearest one with the property.

A host tells parents only.  If it holds finite trees, in which no way up comes
back to where it began, then every way up ends, and the number of its steps is
the depth that `Ancestry` asks for.

* `climb_add`: the steps of two climbs add up.
* `exists_climb_eq_none`: no way up in a forest is endless.
* `IsForest.ancestry`: a forest has the depths that the search needs.
* `getElem?_ancestors`: the ancestors are listed by their distance.
* `rel_of_mem_ancestors`: what is carried up from nodes to their parents is carried
  up to the ancestors.
* `findAncestor?_eq_some_iff`: the nearest one is found.
* `IsNearest.exists_ancestors_eq`: it cuts the list of the ancestors in two.
-/

namespace RouteScope.Ancestry

variable {ν : Type}

/-- The node to which a number of steps lead. -/
def climb (parent? : ν → Option ν) : Nat → ν → Option ν
  | 0, node => some node
  | steps + 1, node => (parent? node).bind (climb parent? steps)

/-- Some steps more lead from a node to the first of its ancestors with the
property. -/
def IsNearest (parent? : ν → Option ν) (p : ν → Bool) (node found : ν) : Prop :=
  ∃ steps, climb parent? (steps + 1) node = some found ∧ p found = true ∧
    ∀ fewer < steps, ∀ nearer, climb parent? (fewer + 1) node = some nearer → p nearer = false

/-- The parents of finite trees: no way up comes back to its beginning, and each
one leads to finitely many nodes.  The second has to be said, since an endless
way up has no cycle either, and no search along it comes to an end. -/
structure IsForest (parent? : ν → Option ν) : Prop where
  acyclic : ∀ node steps, climb parent? (steps + 1) node ≠ some node
  finite : ∀ node, {above | ∃ steps, climb parent? steps node = some above}.Finite

section Climb

variable {parent? : ν → Option ν}

theorem climb_succ (steps : Nat) (node : ν) :
    climb parent? (steps + 1) node = (parent? node).bind (climb parent? steps) := rfl

theorem climb_add (first second : Nat) (node : ν) :
    climb parent? (first + second) node =
      (climb parent? first node).bind (climb parent? second) := by
  induction first generalizing node with
  | zero =>
    rw [Nat.zero_add]
    rfl
  | succ first ih =>
    have hsteps : first + 1 + second = first + second + 1 := by omega
    rw [hsteps, climb_succ, climb_succ]
    cases parent? node with
    | none => rfl
    | some parent => exact ih parent

namespace IsForest

/-- Every way up ends.  An endless one would be an injective sequence of nodes,
since no node comes back, and there are only finitely many. -/
theorem exists_climb_eq_none (forest : IsForest parent?) (node : ν) :
    ∃ steps, climb parent? steps node = none := by
  by_contra hendless
  have hsome : ∀ steps, ∃ above, climb parent? steps node = some above := fun steps =>
    Option.ne_none_iff_exists'.1 fun hnone => hendless ⟨steps, hnone⟩
  choose way hway using hsome
  have hne : ∀ i j, i < j → way i ≠ way j := by
    intro i j hlt heq
    have hj : climb parent? (i + (j - i - 1 + 1)) node = some (way i) := by
      rw [show i + (j - i - 1 + 1) = j by omega, heq]
      exact hway j
    rw [climb_add, hway i, Option.bind_some] at hj
    exact forest.acyclic (way i) (j - i - 1) hj
  have hinjective : Function.Injective way := by
    intro i j heq
    by_contra hij
    rcases Nat.lt_or_gt_of_ne hij with hlt | hgt
    · exact hne i j hlt heq
    · exact hne j i hgt heq.symm
  refine Set.infinite_range_of_injective hinjective ((forest.finite node).subset ?_)
  rintro above ⟨steps, rfl⟩
  exact ⟨steps, hway steps⟩

/-- The number of steps after which the way up has ended. -/
def depth (forest : IsForest parent?) (node : ν) : Nat :=
  Nat.find (forest.exists_climb_eq_none node)

theorem depth_lt (forest : IsForest parent?) {node parent : ν}
    (h : parent? node = some parent) : forest.depth parent < forest.depth node := by
  have hend : climb parent? (forest.depth node) node = none :=
    Nat.find_spec (forest.exists_climb_eq_none node)
  cases hdepth : forest.depth node with
  | zero =>
    rw [hdepth] at hend
    exact absurd hend (Option.some_ne_none node)
  | succ depth =>
    rw [hdepth, climb_succ, h, Option.bind_some] at hend
    have hle : forest.depth parent ≤ depth :=
      Nat.find_min' (forest.exists_climb_eq_none parent) hend
    omega

/-- The host of a forest. -/
@[reducible]
def ancestry (forest : IsForest parent?) : Ancestry ν where
  parent? := parent?
  depth := forest.depth
  depth_lt := forest.depth_lt

end IsForest

end Climb

/-! ## Ancestors -/

variable [Ancestry ν]

theorem getElem?_ancestors (node : ν) (steps : Nat) :
    (ancestors node)[steps]? = climb parent? (steps + 1) node := by
  induction steps generalizing node with
  | zero =>
    rw [climb_succ]
    cases h : parent? node with
    | none =>
      rw [ancestors_of_parent?_eq_none h]
      rfl
    | some parent =>
      rw [ancestors_of_parent?_eq_some h]
      rfl
  | succ steps ih =>
    rw [climb_succ]
    cases h : parent? node with
    | none =>
      rw [ancestors_of_parent?_eq_none h]
      rfl
    | some parent =>
      rw [ancestors_of_parent?_eq_some h, List.getElem?_cons_succ]
      exact ih parent

theorem mem_ancestors_iff {node above : ν} :
    above ∈ ancestors node ↔ ∃ steps, climb parent? (steps + 1) node = some above := by
  rw [List.mem_iff_getElem?]
  simp only [getElem?_ancestors]

theorem parent_mem_ancestors {node above parent : ν} (h : above ∈ ancestors node)
    (hparent : parent? above = some parent) : parent ∈ ancestors node := by
  obtain ⟨steps, hclimb⟩ := mem_ancestors_iff.1 h
  refine mem_ancestors_iff.2 ⟨steps + 1, ?_⟩
  rw [climb_add, hclimb, Option.bind_some, climb_succ, hparent]
  rfl

/-- What holds between each parent and its child, and can be chained, holds between an
ancestor and the node. -/
theorem rel_of_mem_ancestors (r : ν → ν → Prop)
    (step : ∀ {node parent}, parent? node = some parent → r parent node)
    (trans : ∀ {top middle node}, r top middle → r middle node → r top node) {node above : ν}
    (h : above ∈ ancestors node) : r above node := by
  obtain ⟨steps, hclimb⟩ := mem_ancestors_iff.1 h
  clear h
  induction steps generalizing node with
  | zero =>
    obtain ⟨parent, hparent, hend⟩ := Option.bind_eq_some_iff.1 hclimb
    obtain rfl := Option.some.inj hend
    exact step hparent
  | succ steps ih =>
    obtain ⟨parent, hparent, hrest⟩ := Option.bind_eq_some_iff.1 hclimb
    exact trans (ih hrest) (step hparent)

/-- A node and its ancestors are where the climbs from it lead. -/
theorem mem_ancestors_concat_iff {node above : ν} :
    above ∈ ancestors node ++ [node] ↔ ∃ steps, climb parent? steps node = some above := by
  rw [List.mem_append, List.mem_singleton, mem_ancestors_iff]
  constructor
  · intro h
    rcases h with ⟨steps, hclimb⟩ | rfl
    · exact ⟨steps + 1, hclimb⟩
    · exact ⟨0, rfl⟩
  · rintro ⟨steps, hclimb⟩
    cases steps with
    | zero => exact Or.inr (Option.some.inj hclimb).symm
    | succ steps => exact Or.inl ⟨steps, hclimb⟩

/-! ## The search -/

theorem findAncestor?_eq_some_iff {p : ν → Bool} {node found : ν} :
    findAncestor? p node = some found ↔ IsNearest parent? p node found := by
  unfold findAncestor? IsNearest
  rw [List.find?_eq_some_iff_getElem]
  constructor
  · rintro ⟨hp, steps, hlt, hfound, hearlier⟩
    refine ⟨steps, ?_, hp, ?_⟩
    · rw [← getElem?_ancestors, List.getElem?_eq_getElem hlt, hfound]
    · intro fewer hfewer nearer hnearer
      have hbound : fewer < (ancestors node).length := by omega
      rw [← getElem?_ancestors, List.getElem?_eq_getElem hbound] at hnearer
      have hno := hearlier fewer hfewer
      rw [Option.some.inj hnearer] at hno
      simpa using hno
  · rintro ⟨steps, hclimb, hp, hearlier⟩
    rw [← getElem?_ancestors] at hclimb
    obtain ⟨hlt, hfound⟩ := List.getElem?_eq_some_iff.1 hclimb
    refine ⟨hp, steps, hlt, hfound, fun fewer hfewer => ?_⟩
    have hbound : fewer < (ancestors node).length := by omega
    have hno := hearlier fewer hfewer (ancestors node)[fewer]
      (by rw [← getElem?_ancestors, List.getElem?_eq_getElem hbound])
    simpa using hno

theorem findAncestor?_eq_none_iff {p : ν → Bool} {node : ν} :
    findAncestor? p node = none ↔
      ∀ steps above, climb parent? (steps + 1) node = some above → p above = false := by
  unfold findAncestor?
  rw [List.find?_eq_none]
  constructor
  · intro h steps above hclimb
    exact Bool.eq_false_iff.2 (h above (mem_ancestors_iff.2 ⟨steps, hclimb⟩))
  · intro h above hmem
    obtain ⟨steps, hclimb⟩ := mem_ancestors_iff.1 hmem
    exact Bool.eq_false_iff.1 (h steps above hclimb)

/-- Behind an ancestor its own ancestors are listed. -/
theorem eq_ancestors_of_ancestors_eq {node above : ν} {front back : List ν}
    (h : ancestors node = front ++ above :: back) : back = ancestors above := by
  induction front generalizing node with
  | nil =>
    cases hparent : parent? node with
    | none =>
      rw [ancestors_of_parent?_eq_none hparent] at h
      exact absurd h.symm (List.cons_ne_nil above back)
    | some parent =>
      rw [ancestors_of_parent?_eq_some hparent, List.nil_append, List.cons.injEq] at h
      obtain ⟨rfl, hback⟩ := h
      exact hback.symm
  | cons first front ih =>
    cases hparent : parent? node with
    | none =>
      rw [ancestors_of_parent?_eq_none hparent] at h
      exact absurd h.symm (List.cons_ne_nil first _)
    | some parent =>
      rw [ancestors_of_parent?_eq_some hparent, List.cons_append, List.cons.injEq] at h
      exact ih h.2

/-- The nearest ancestor with the property cuts the way up in two: below it nobody
has the property, and behind it the way goes on as from the ancestor. -/
theorem IsNearest.exists_ancestors_eq {p : ν → Bool} {node found : ν}
    (h : IsNearest parent? p node found) :
    p found = true ∧ ∃ front, ancestors node = front ++ found :: ancestors found ∧
      ∀ other ∈ front, p other = false := by
  have hfind := findAncestor?_eq_some_iff.2 h
  obtain ⟨hfound, front, back, hlist, hfront⟩ := List.find?_eq_some_iff_append.1 hfind
  refine ⟨hfound, front, ?_, fun other hother => by simpa using hfront other hother⟩
  rw [hlist, ← eq_ancestors_of_ancestors_eq hlist]

theorem IsNearest.unique {p : ν → Bool} {node found other : ν}
    (h : IsNearest parent? p node found) (h' : IsNearest parent? p node other) :
    found = other :=
  Option.some.inj ((findAncestor?_eq_some_iff.2 h).symm.trans (findAncestor?_eq_some_iff.2 h'))

/-- Above a root there is nothing to be found. -/
theorem not_isNearest_of_parent?_eq_none {p : ν → Bool} {node found : ν}
    (h : parent? node = none) : ¬ IsNearest parent? p node found := by
  rw [← findAncestor?_eq_some_iff, findAncestor?, ancestors_of_parent?_eq_none h]
  exact (Option.some_ne_none found).symm

/-- The search ends at the parent or goes on from there. -/
theorem isNearest_iff_of_parent?_eq_some {p : ν → Bool} {node parent found : ν}
    (h : parent? node = some parent) :
    IsNearest parent? p node found ↔
      p parent = true ∧ found = parent ∨ p parent = false ∧ IsNearest parent? p parent found := by
  rw [← findAncestor?_eq_some_iff, ← findAncestor?_eq_some_iff, findAncestor?,
    ancestors_of_parent?_eq_some h, List.find?_cons, findAncestor?]
  cases p parent with
  | true => simp [eq_comm]
  | false => simp

end RouteScope.Ancestry
