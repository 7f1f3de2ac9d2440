import RouteScope.Proofs.Ancestry
import RouteScope.Proofs.Recognition.Polling

/-!
# Within a route start

Whether a node lies within a route start is a poll over two lists, one inside
the other: the way up with the node itself behind it, and for each node on it
the active recognizers.  `polls_inRouteStart` says so, and `polls_untilYes` has
done the work: the poll of polls is a poll.
-/

namespace RouteScope.Registry

open Ancestry

variable {ν : Type}

section

variable [Ancestry ν] (registry : Registry ν)

/-- The poll that decides whether a node lies within a route start. -/
theorem polls_inRouteStart (node : ν) :
    Polls (registry.inRouteStart node)
      ((ancestors node ++ [node]).flatMap fun asked =>
        registry.active.map fun recognizer => ⟨recognizer, .routeStart asked⟩) :=
  polls_untilYes (registry.polls_matchesAny .routeStart) (ancestors node ++ [node])

theorem value_inRouteStart_iff {registry : Registry ν} {node : ν} :
    (registry.inRouteStart node).value = true ↔
      ∃ asked ∈ ancestors node ++ [node], ∃ recognizer ∈ registry.active,
        recognizer.answer .routeStart asked = true := by
  rw [(polls_inRouteStart registry node).value, List.any_flatMap, List.any_eq_true]
  apply exists_congr
  intro asked
  rw [List.any_map, List.any_eq_true]
  rfl

/-- What holds of a node holds below it: the way up from below passes the
node. -/
theorem inRouteStart_of_climb {registry : Registry ν} {below node : ν} {steps : Nat}
    (hclimb : climb parent? steps below = some node)
    (h : (registry.inRouteStart node).value = true) :
    (registry.inRouteStart below).value = true := by
  rw [value_inRouteStart_iff] at h ⊢
  obtain ⟨asked, hasked, hyes⟩ := h
  obtain ⟨more, hmore⟩ := mem_ancestors_concat_iff.1 hasked
  refine ⟨asked, mem_ancestors_concat_iff.2 ⟨steps + more, ?_⟩, hyes⟩
  rw [climb_add, hclimb]
  exact hmore

end

/-- Searching upwards in a forest comes to an end, and finds the nearest
ancestor with the property.  A node lies within a route start if it or an
ancestor is one for some recognizer that takes part.  The ancestors are asked
about before the node, the nearest first, each of them with all active
recognizers in order, and nobody is asked after the first yes. -/
theorem inRouteStart_of_forest {parent? : ν → Option ν} (forest : IsForest parent?)
    (candidates : List (Recognizer ν)) :
    (∃ host : Ancestry ν, host.parent? = parent?) ∧
      ∀ [Ancestry ν], Ancestry.parent? = parent? → ∀ node,
        (∀ p found, findAncestor? p node = some found ↔ IsNearest parent? p node found) ∧
        (∀ p, findAncestor? p node = none ↔
          ∀ steps above, climb parent? (steps + 1) node = some above → p above = false) ∧
        (∀ p, findAncestor? p node ≠ some node) ∧
        (((ofCandidates candidates).value.inRouteStart node).value = true ↔
          ∃ steps above, climb parent? steps node = some above ∧
            ∃ candidate ∈ candidates, candidate.enabled = true ∧
              candidate.answer .routeStart above = true) ∧
        (∃ way : List ν, (∀ steps, way[steps]? = climb parent? (steps + 1) node) ∧
          ((ofCandidates candidates).value.inRouteStart node).inquiries =
            untilSettled ((way ++ [node]).flatMap fun asked =>
              (candidates.filter (·.enabled)).map fun candidate =>
                ⟨candidate, .routeStart asked⟩)) ∧
        ∀ below steps, climb parent? steps below = some node →
          ((ofCandidates candidates).value.inRouteStart node).value = true →
          ((ofCandidates candidates).value.inRouteStart below).value = true := by
  refine ⟨⟨forest.ancestry, rfl⟩, ?_⟩
  intro host hparent node
  subst hparent
  refine ⟨fun p found => findAncestor?_eq_some_iff, fun p => findAncestor?_eq_none_iff,
    ?_, ?_, ?_, fun below steps => inRouteStart_of_climb⟩
  · intro p hself
    obtain ⟨steps, hclimb, -, -⟩ := findAncestor?_eq_some_iff.1 hself
    exact forest.acyclic node steps hclimb
  · rw [value_inRouteStart_iff, active_ofCandidates]
    constructor
    · rintro ⟨asked, hasked, candidate, hmem, hyes⟩
      obtain ⟨steps, hclimb⟩ := mem_ancestors_concat_iff.1 hasked
      obtain ⟨hcandidate, henabled⟩ := List.mem_filter.1 hmem
      exact ⟨steps, asked, hclimb, candidate, hcandidate, henabled, hyes⟩
    · rintro ⟨steps, above, hclimb, candidate, hcandidate, henabled, hyes⟩
      exact ⟨above, mem_ancestors_concat_iff.2 ⟨steps, hclimb⟩, candidate,
        List.mem_filter.2 ⟨hcandidate, henabled⟩, hyes⟩
  · refine ⟨ancestors node, getElem?_ancestors node, ?_⟩
    rw [(polls_inRouteStart _ node).inquiries, active_ofCandidates]

/-! ## Numbers below their tenth parts -/

/-- The number without its last digit; a number with one digit is a root. -/
def withoutLastDigit? (number : Nat) : Option Nat :=
  if number < 10 then none else some (number / 10)

theorem lt_of_climb_withoutLastDigit? {number above steps : Nat}
    (h : climb withoutLastDigit? (steps + 1) number = some above) : above < number := by
  induction steps generalizing number with
  | zero =>
    rw [climb_succ, withoutLastDigit?] at h
    split at h
    · exact absurd h (Option.some_ne_none above).symm
    · obtain rfl : number / 10 = above := Option.some.inj h
      omega
  | succ steps ih =>
    rw [climb_succ, withoutLastDigit?] at h
    split at h
    · exact absurd h (Option.some_ne_none above).symm
    · have hlt := ih h
      omega

theorem isForest_withoutLastDigit? : IsForest withoutLastDigit? where
  acyclic number steps h := Nat.lt_irrefl number (lt_of_climb_withoutLastDigit? h)
  finite number := by
    refine (Set.finite_le_nat number).subset ?_
    rintro above ⟨steps, h⟩
    cases steps with
    | zero => exact Nat.le_of_eq (Option.some.inj h).symm
    | succ steps => exact Nat.le_of_lt (lt_of_climb_withoutLastDigit? h)

/-- A recognizer for which the number 1 is the only route start. -/
def routeStartAtOne (enabled : Bool) : Recognizer Nat where
  name := "one"
  enabled := enabled
  isRouteStart number := number == 1
  isConsumer _ := false
  isProducer _ := false
  isStringFormat _ := false
  isExpression _ _ := false
  isPredicate _ _ := false
  skipsValidation _ := false
  isInspectable _ := false
  beanClass? _ := none
  beanNode? _ := none

/-- The number 123 lies within the route start at 1, which is two steps up, as
soon as one recognizer that knows of it takes part. -/
theorem inRouteStart_of_forest_digits :
    IsForest withoutLastDigit? ∧
      ∃ host : Ancestry Nat, host.parent? = withoutLastDigit? ∧
        findAncestor? (· == 1) 123 = some 1 ∧
        ((ofCandidates [routeStartAtOne false, routeStartAtOne true]).value.inRouteStart
          123).value = true ∧
        ((ofCandidates [routeStartAtOne false]).value.inRouteStart 123).value = false := by
  have hsearch := inRouteStart_of_forest isForest_withoutLastDigit?
    [routeStartAtOne false, routeStartAtOne true]
  have hnobody := inRouteStart_of_forest isForest_withoutLastDigit? [routeStartAtOne false]
  obtain ⟨host, hparent⟩ := hsearch.1
  obtain ⟨hfound, -, -, hyes, -, -⟩ := hsearch.2 hparent 123
  obtain ⟨-, -, -, hno, -, -⟩ := hnobody.2 hparent 123
  refine ⟨isForest_withoutLastDigit?, host, hparent, ?_, ?_, ?_⟩
  · refine (hfound _ _).2 ⟨1, rfl, rfl, ?_⟩
    intro fewer hfewer nearer hnearer
    obtain rfl : fewer = 0 := by omega
    obtain rfl : 12 = nearer := Option.some.inj hnearer
    rfl
  · exact hyes.2 ⟨2, 1, rfl, routeStartAtOne true, by simp, rfl, rfl⟩
  · rw [← Bool.not_eq_true, hno]
    rintro ⟨steps, above, -, candidate, hcandidate, henabled, -⟩
    obtain rfl : candidate = routeStartAtOne false := List.mem_singleton.1 hcandidate
    exact absurd henabled Bool.false_ne_true

end RouteScope.Registry
