import Mathlib.Data.List.Forall2
import RouteScope.Proofs.Java.Argument
import RouteScope.Proofs.Java.Literal
import RouteScope.Proofs.Recognition.RouteStart
import RouteScope.Report.Scan

/-!
# Entries of a report

A report goes through the nodes of a file and makes an entry of those that have
one.  So the entries match, one by one and in document order, the nodes that
have one; and what an entry says follows from the answers of the recognizer for
Java, which is the only one that a scan can ask.

* `forall₂_filterMap`: entries match the nodes they come from.
* `value_matchesAny_javaRegistry`: who answers the queries of a scan.
* `readAt?_eq_some_iff`: which literals are read.
* `isSome_ofTree?_iff`: when there is a report at all.
-/

namespace RouteScope.Report

open Java

/-- If an element has an entry exactly if it is of a kind, the entries match the
elements of that kind. -/
theorem forall₂_filterMap {α β : Type} {f : α → Option β} {p : α → Prop} [DecidablePred p]
    {r : α → β → Prop} {xs : List α} (hentry : ∀ x ∈ xs, p x ↔ (f x).isSome = true)
    (hshows : ∀ x y, f x = some y → r x y) :
    List.Forall₂ r (xs.filter fun x => p x) (xs.filterMap f) := by
  induction xs with
  | nil => exact List.Forall₂.nil
  | cons x xs ih =>
    have hrest := ih fun other hother => hentry other (List.mem_cons_of_mem _ hother)
    have hx := hentry x List.mem_cons_self
    cases h : f x with
    | none =>
      have hno : ¬ p x := by
        rw [hx, h]
        exact Bool.false_ne_true
      rw [List.filterMap_cons_none h, List.filter_cons_of_neg (by simpa using hno)]
      exact hrest
    | some y =>
      have hyes : p x := by
        rw [hx, h]
        rfl
      rw [List.filterMap_cons_some h, List.filter_cons_of_pos (by simpa using hyes)]
      exact List.Forall₂.cons (hshows x y h) hrest

/-- Where entries match elements, a property of the entries is one of the elements. -/
theorem forall₂_iff_forall_mem {α β : Type} {r s : α → β → Prop} {p : α → Prop} {xs : List α}
    {ys : List β} (hmatch : List.Forall₂ r xs ys) (hiff : ∀ x y, r x y → (s x y ↔ p x)) :
    List.Forall₂ s xs ys ↔ ∀ x ∈ xs, p x := by
  induction hmatch with
  | nil => exact iff_of_true List.Forall₂.nil fun x hx => absurd hx List.not_mem_nil
  | cons hxy _ ih => rw [List.forall₂_cons, List.forall_mem_cons, hiff _ _ hxy, ih]

/-! ## The recognizer of a scan -/

/-- The only recognizer of a scan is the one for Java, if it takes part. -/
theorem active_javaRegistry (settings : Settings) (index : ClassIndex) :
    (javaRegistry settings index).active =
      [recognizer settings.recognizers.java index].filter (·.enabled) :=
  Registry.active_ofCandidates _

theorem value_matchesAny_eq (settings : Settings) (index : ClassIndex) (query : Query)
    (node : Node) : ((javaRegistry settings index).matchesAny query node).value =
      (settings.recognizers.java && (recognizer true index).answer query node) := by
  rw [Registry.value_matchesAny, active_javaRegistry]
  cases settings.recognizers.java with
  | false => rfl
  | true => exact Bool.or_false _

theorem value_inRouteStart_eq (settings : Settings) (index : ClassIndex) (node : Node) :
    ((javaRegistry settings index).inRouteStart node).value =
      (settings.recognizers.java &&
        (Ancestry.ancestors node ++ [node]).any isRouteStart) := by
  rw [Bool.eq_iff_iff, Registry.value_inRouteStart_iff, active_javaRegistry, Bool.and_eq_true,
    List.any_eq_true]
  cases settings.recognizers.java with
  | false =>
    have hnobody : [recognizer false index].filter (·.enabled) = [] := rfl
    simp [hnobody]
  | true =>
    have hjava : [recognizer true index].filter (·.enabled) = [recognizer true index] := rfl
    simp only [hjava, List.mem_singleton, exists_eq_left, true_and]
    rfl

theorem value_beanClass?_eq (settings : Settings) (index : ClassIndex) (node : Node) :
    ((javaRegistry settings index).beanClass? node).value =
      if settings.recognizers.java then beanClass? index node else none := by
  rw [Registry.value_beanClass?, active_javaRegistry]
  cases settings.recognizers.java with
  | false => rfl
  | true => exact List.findSome?_singleton

theorem value_beanNode?_eq (settings : Settings) (index : ClassIndex) (node : Node) :
    ((javaRegistry settings index).beanNode? node).value =
      if settings.recognizers.java then beanNode? node else none := by
  rw [Registry.value_beanNode?, active_javaRegistry]
  cases settings.recognizers.java with
  | false => rfl
  | true => exact List.findSome?_singleton

variable {settings : Settings} {index : ClassIndex}

theorem value_matchesAny_javaRegistry (java : settings.recognizers.java = true) (query : Query)
    (node : Node) : ((javaRegistry settings index).matchesAny query node).value =
      (recognizer true index).answer query node := by
  rw [value_matchesAny_eq, java, Bool.true_and]

theorem value_inRouteStart_javaRegistry_iff (java : settings.recognizers.java = true)
    {literal : Node} (h : literal.kind = "string_literal") :
    ((javaRegistry settings index).inRouteStart literal).value = true ↔
      ∃ above ∈ Ancestry.ancestors literal, StartsRoute above := by
  rw [value_inRouteStart_eq, java, Bool.true_and, List.any_eq_true,
    exists_isRouteStart_iff h]

/-! ## Literals that are read -/

theorem kind_of_literalValue?_eq_some {literal : Node} {text : String}
    (h : literalValue? literal = some text) : literal.kind = "string_literal" := by
  unfold literalValue? at h
  split at h
  · rename_i hliteral
    exact beq_iff_eq.1 hliteral
  · exact absurd h (Option.some_ne_none text).symm

theorem isRead_iff (java : settings.recognizers.java = true) {node : Node} :
    isRead (javaRegistry settings index) node = true ↔
      node.kind = "string_literal" ∧ ¬ IsOperand node := by
  unfold isRead
  rw [value_matchesAny_javaRegistry java, Bool.and_eq_true]
  constructor
  · intro h
    have hkind := beq_iff_eq.1 h.1
    exact ⟨hkind, (isInspectable_iff hkind).1 h.2⟩
  · intro h
    exact ⟨beq_iff_eq.2 h.1, (isInspectable_iff h.1).2 h.2⟩

theorem isSkipped_iff (java : settings.recognizers.java = true) {node : Node} :
    isSkipped (javaRegistry settings index) node = true ↔ IsOperand node := by
  unfold isSkipped
  rw [value_matchesAny_javaRegistry java, Bool.and_eq_true, Bool.not_eq_true']
  constructor
  · intro h
    have hkind := beq_iff_eq.1 h.1
    by_contra hoperand
    have hread : (recognizer true index).answer .inspectable node = true := (isInspectable_iff hkind).2 hoperand
    rw [h.2] at hread
    exact absurd hread Bool.false_ne_true
  · intro hoperand
    refine ⟨beq_iff_eq.2 hoperand.1, Bool.eq_false_iff.2 fun hread => ?_⟩
    exact (isInspectable_iff hoperand.1).1 hread hoperand

/-- The literals that are no operands are read. -/
theorem readAt?_eq_some_iff (java : settings.recognizers.java = true) {node : Node}
    {text : String} : readAt? (javaRegistry settings index) node = some text ↔
      ¬ IsOperand node ∧ literalValue? node = some text := by
  unfold readAt?
  constructor
  · intro h
    split at h
    · rename_i hread
      exact ⟨((isRead_iff java).1 hread).2, h⟩
    · exact absurd h (Option.some_ne_none text).symm
  · rintro ⟨hoperand, hvalue⟩
    rw [if_pos ((isRead_iff java).2 ⟨kind_of_literalValue?_eq_some hvalue, hoperand⟩)]
    exact hvalue

/-- An operand has no entry, since it is not read. -/
theorem filterMap_of_readAt? {α : Type} (java : settings.recognizers.java = true)
    (next : Node → String → Option α) (nodes : List Node) :
    nodes.filterMap (fun node => (readAt? (javaRegistry settings index) node).bind (next node)) =
      (nodes.filter fun node => ¬ IsOperand node).filterMap fun node =>
        (readAt? (javaRegistry settings index) node).bind (next node) := by
  rw [List.filterMap_filter]
  refine List.filterMap_congr fun node _ => ?_
  by_cases hoperand : IsOperand node
  · rw [if_neg (by simpa using hoperand)]
    cases hread : readAt? (javaRegistry settings index) node with
    | none => rfl
    | some text => exact absurd hoperand ((readAt?_eq_some_iff java).1 hread).1
  · rw [if_pos (by simpa using hoperand)]

/-! ## Reports -/

variable {file : String} {tree : Tree}

theorem eq_ofTree_of_ofTree? {report : Report} (h : ofTree? settings file tree = some report) :
    report = ofTree settings file tree := by
  unfold ofTree? at h
  split at h
  · exact (Option.some.inj h).symm
  · exact absurd h (Option.some_ne_none report).symm

/-- There is a report if every literal that is no operand has a value. -/
theorem isSome_ofTree?_iff (java : settings.recognizers.java = true) :
    (ofTree? settings file tree).isSome = true ↔
      ∀ literal ∈ tree.nodes, literal.kind = "string_literal" → ¬ IsOperand literal →
        (literalValue? literal).isSome = true := by
  have hreadable : (ofTree? settings file tree).isSome = isReadable settings tree := by
    unfold ofTree?
    split
    · rename_i h
      rw [h]
      rfl
    · rename_i h
      exact (Bool.eq_false_iff.2 h).symm
  rw [hreadable, isReadable, List.all_eq_true]
  apply forall₂_congr
  intro literal _
  rw [Bool.not_eq_true', Bool.and_eq_false_iff, isBrokenLiteral_eq_false_iff]
  constructor
  · rintro (hvalue | hunread) hkind hoperand
    · exact hvalue hkind
    · rw [(isRead_iff java).2 ⟨hkind, hoperand⟩] at hunread
      exact absurd hunread.symm Bool.false_ne_true
  · intro h
    by_cases hoperand : IsOperand literal
    · right
      rw [← Bool.not_eq_true, isRead_iff java]
      exact fun hread => hread.2 hoperand
    · exact .inl fun hkind => h hkind hoperand

end RouteScope.Report
