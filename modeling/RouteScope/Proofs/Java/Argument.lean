import RouteScope.Java.Recognizer
import RouteScope.Proofs.Ancestry
import RouteScope.Proofs.Tree.Place

/-!
# Literals as arguments

What a string literal means in a route follows from where it stands: right in
the list of arguments of a call, or as an operand of an operator, or elsewhere.
This file states the places by the parents of the literal, and says which
queries of the recognizer hold there.

* `LiteralArgument`: the literal is an argument of a call of the method.
* `IsOperand`: the literal is an operand.
* `isArgumentOf_iff`, `isInspectable_iff`: the queries about literals.
* `exists_isRouteStart_iff`: when a route starts around a literal.
-/

namespace RouteScope.Java

/-- The node stands right in the list of arguments of the call. -/
def IsArgument (argument call : Node) : Prop :=
  ∃ list, argument.parent? = some list ∧ list.kind = "argument_list" ∧
    list.parent? = some call ∧ call.kind = "method_invocation"

/-- The string literal is an argument of the call, which is one of the method. -/
structure LiteralArgument (literal call : Node) (method : String) : Prop where
  kind : literal.kind = "string_literal"
  argument : IsArgument literal call
  method : methodName? call = some method

/-- The string literal is an operand of an operator with two operands. -/
def IsOperand (literal : Node) : Prop :=
  literal.kind = "string_literal" ∧
    ∃ operation, literal.parent? = some operation ∧ operation.kind = "binary_expression"

/-- The call starts a route. -/
def StartsRoute (call : Node) : Prop :=
  call.kind = "method_invocation" ∧
    (methodName? call = some "from" ∨ methodName? call = some "fromF")

instance : DecidablePred IsOperand := fun literal =>
  decidable_of_iff (literal.kind = "string_literal" ∧
      literal.parent?.any (·.kind == "binary_expression") = true) <| by
    unfold IsOperand
    simp only [Option.any_eq_true, beq_iff_eq]

/-! ## Places -/

theorem parentOfKind?_eq_some_iff {node parent : Node} {kind : String} :
    node.parentOfKind? kind = some parent ↔
      node.parent? = some parent ∧ parent.kind = kind := by
  unfold Node.parentOfKind?
  rw [Option.filter_eq_some_iff, beq_iff_eq]

theorem callTaking?_eq_some_iff {argument call : Node} :
    callTaking? argument = some call ↔ IsArgument argument call := by
  unfold callTaking? IsArgument
  rw [Option.bind_eq_some_iff]
  apply exists_congr
  intro list
  rw [parentOfKind?_eq_some_iff, parentOfKind?_eq_some_iff, and_assoc]

theorem root_of_mem_arguments {argument call : Node} (h : argument ∈ arguments call) :
    argument.root = call.root := by
  unfold arguments at h
  split at h
  · rename_i list hlist
    have hup := Node.root_of_parent? (Node.parent?_of_mem_namedChildren h)
    exact ((Node.root_of_parent? (Node.parent?_of_field? hlist)).trans hup).symm
  · exact absurd h List.not_mem_nil

theorem IsArgument.root_eq {argument call : Node} (h : IsArgument argument call) :
    argument.root = call.root := by
  obtain ⟨list, hlist, -, hcall, -⟩ := h
  exact ((Node.root_of_parent? hcall).trans (Node.root_of_parent? hlist)).symm

theorem literalAt?_of_kind {literal : Node} (h : literal.kind = "string_literal") :
    literalAt? literal = some literal := by
  unfold literalAt?
  have hliteral : isLiteral literal = true := beq_iff_eq.2 h
  rw [if_pos hliteral]

theorem literalAt?_of_fragment {node literal : Node} (part : node.kind = "string_fragment")
    (inside : node.parent? = some literal) (kind : literal.kind = "string_literal") :
    literalAt? node = some literal := by
  have hliteral : isLiteral node = false := by
    rw [isLiteral, part]
    rfl
  unfold literalAt?
  rw [hliteral, part, if_neg Bool.false_ne_true, if_pos (by decide)]
  exact parentOfKind?_eq_some_iff.2 ⟨inside, kind⟩

theorem literalAt?_of_kind_ne {node : Node} (hliteral : node.kind ≠ "string_literal")
    (hfragment : node.kind ≠ "string_fragment") : literalAt? node = none := by
  have hkind : isLiteral node = false := beq_eq_false_iff_ne.2 hliteral
  unfold literalAt?
  rw [hkind, if_neg Bool.false_ne_true, if_neg (by simpa using hfragment)]

theorem isCallOf_iff {methods : List String} {call : Node} :
    isCallOf methods call = true ↔ ∃ method, methodName? call = some method ∧ method ∈ methods := by
  unfold isCallOf
  rw [Option.any_eq_true]
  apply exists_congr
  intro method
  rw [List.contains_iff_mem]

theorem LiteralArgument.callTakingLiteralAt? {literal call : Node} {method : String}
    (h : LiteralArgument literal call method) : callTakingLiteralAt? literal = some call := by
  unfold Java.callTakingLiteralAt?
  rw [literalAt?_of_kind h.kind]
  exact callTaking?_eq_some_iff.2 h.argument

/-- A literal is an argument of one call at most, and that has one name. -/
theorem LiteralArgument.unique {literal call other : Node} {method name : String}
    (h : LiteralArgument literal call method) (hother : LiteralArgument literal other name) :
    call = other ∧ method = name := by
  have hcall := h.callTakingLiteralAt?.symm.trans hother.callTakingLiteralAt?
  obtain rfl : call = other := Option.some.inj hcall
  exact ⟨rfl, Option.some.inj (h.method.symm.trans hother.method)⟩

theorem IsArgument.not_isOperand {literal call : Node} (h : IsArgument literal call) :
    ¬ IsOperand literal := by
  obtain ⟨list, hlist, hkind, -⟩ := h
  rintro ⟨-, operation, hoperation, hbinary⟩
  obtain rfl : list = operation := Option.some.inj (hlist.symm.trans hoperation)
  rw [hkind] at hbinary
  exact absurd hbinary (by decide)

/-! ## Queries about literals -/

theorem isArgumentOf_iff {methods : List String} {literal : Node}
    (h : literal.kind = "string_literal") :
    isArgumentOf methods literal = true ↔
      ∃ call method, LiteralArgument literal call method ∧ method ∈ methods := by
  unfold isArgumentOf callTakingLiteralAt?
  rw [literalAt?_of_kind h, Option.bind_some, Option.any_eq_true]
  apply exists_congr
  intro call
  rw [callTaking?_eq_some_iff, isCallOf_iff]
  constructor
  · rintro ⟨hargument, method, hmethod, hmem⟩
    exact ⟨method, ⟨h, hargument, hmethod⟩, hmem⟩
  · rintro ⟨method, hliteral, hmem⟩
    exact ⟨hliteral.argument, method, hliteral.method, hmem⟩

theorem LiteralArgument.isArgumentOf_iff {literal call : Node} {method : String}
    (h : LiteralArgument literal call method) {methods : List String} :
    isArgumentOf methods literal = true ↔ method ∈ methods := by
  rw [Java.isArgumentOf_iff h.kind]
  constructor
  · rintro ⟨other, name, hother, hmem⟩
    obtain ⟨-, rfl⟩ := h.unique hother
    exact hmem
  · intro hmem
    exact ⟨call, method, h, hmem⟩

/-- Only operands are left out of inspection. -/
theorem isInspectable_iff {literal : Node} (h : literal.kind = "string_literal") :
    isInspectable literal = true ↔ ¬ IsOperand literal := by
  unfold isInspectable IsOperand
  rw [literalAt?_of_kind h, Option.any_some, and_iff_right h]
  cases literal.parent? with
  | none => simp
  | some parent => simp

/-- Formats are the arguments of the methods for formats and of calls of
`format`, which is no method of endpoints. -/
theorem LiteralArgument.isStringFormat_iff {literal call : Node} {method : String}
    (h : LiteralArgument literal call method) (hmethod : method ≠ "format") :
    isStringFormat literal = true ↔ method ∈ formatMethods := by
  have hformat : isFormatCall call = false := by
    unfold isFormatCall
    rw [Bool.and_eq_false_iff]
    left
    rw [← Bool.not_eq_true, isCallOf_iff]
    rintro ⟨name, hname, hmem⟩
    obtain rfl : method = name := Option.some.inj (h.method.symm.trans hname)
    exact hmethod (List.mem_singleton.1 hmem)
  rw [isStringFormat, h.callTakingLiteralAt?, Option.any_some, hformat, Bool.or_false]
  exact h.isArgumentOf_iff

/-! ## Route starts -/

/-- A node stands for the call that it is, or for the one right above it. -/
theorem callAt?_eq_some {node call : Node} (h : callAt? node = some call) :
    call.kind = "method_invocation" ∧ (call = node ∨ node.parent? = some call) := by
  unfold callAt? at h
  split at h
  · rename_i hkind
    obtain rfl : node = call := Option.some.inj h
    exact ⟨beq_iff_eq.1 hkind, Or.inl rfl⟩
  · split at h
    · obtain ⟨hparent, -⟩ := Option.filter_eq_some_iff.1 h
      obtain ⟨hup, hkind⟩ := parentOfKind?_eq_some_iff.1 hparent
      exact ⟨hkind, Or.inr hup⟩
    · exact absurd h (Option.some_ne_none call).symm

theorem callAt?_of_kind {call : Node} (h : call.kind = "method_invocation") :
    callAt? call = some call := by
  unfold callAt?
  rw [if_pos (beq_iff_eq.2 h)]

theorem callAt?_of_name {call token : Node} (hcall : call.kind = "method_invocation")
    (hname : call.field? "name" = some token) (hkind : token.kind = "identifier") :
    callAt? token = some call := by
  have hparent : token.parentOfKind? "method_invocation" = some call :=
    parentOfKind?_eq_some_iff.2 ⟨Node.parent?_of_field? hname, hcall⟩
  have hself : token.isSame token = true := beq_self_eq_true _
  unfold callAt?
  rw [hkind, if_neg (by decide), if_pos (by decide), hparent, Option.filter_some, hname,
    Option.any_some, hself, if_pos rfl]

theorem callAt?_of_kind_ne {node : Node} (hcall : node.kind ≠ "method_invocation")
    (hname : node.kind ≠ "identifier") : callAt? node = none := by
  unfold callAt?
  rw [if_neg (by simpa using hcall), if_neg (by simpa using hname)]

theorem startsRoute_iff {call : Node} :
    StartsRoute call ↔
      call.kind = "method_invocation" ∧ isCallOf routeStartMethods call = true := by
  unfold StartsRoute
  rw [isCallOf_iff]
  apply and_congr_right
  intro _
  constructor
  · intro h
    rcases h with hfrom | hfrom
    · exact ⟨"from", hfrom, by simp [routeStartMethods]⟩
    · exact ⟨"fromF", hfrom, by simp [routeStartMethods]⟩
  · rintro ⟨method, hmethod, hmem⟩
    simp only [routeStartMethods, List.mem_cons, List.not_mem_nil, or_false] at hmem
    rcases hmem with rfl | rfl
    · exact Or.inl hmethod
    · exact Or.inr hmethod

/-- Around a literal a route starts at the calls that start one.  The names of
these calls may be asked about too, but their calls lie on the same way up. -/
theorem exists_isRouteStart_iff {literal : Node} (h : literal.kind = "string_literal") :
    (∃ asked ∈ Ancestry.ancestors literal ++ [literal], isRouteStart asked = true) ↔
      ∃ above ∈ Ancestry.ancestors literal, StartsRoute above := by
  constructor
  · rintro ⟨asked, hasked, hyes⟩
    obtain ⟨call, hcall, hmethods⟩ := (Option.any_eq_true _ _).1 hyes
    obtain ⟨hkind, hplace⟩ := callAt?_eq_some hcall
    refine ⟨call, ?_, startsRoute_iff.2 ⟨hkind, hmethods⟩⟩
    rcases List.mem_append.1 hasked with habove | hself
    · rcases hplace with rfl | hup
      · exact habove
      · exact Ancestry.parent_mem_ancestors habove hup
    · obtain rfl : asked = literal := List.mem_singleton.1 hself
      have hnone : callAt? asked = none := by
        unfold callAt?
        rw [h]
        rfl
      exact absurd (hcall.symm.trans hnone) (Option.some_ne_none call)
  · rintro ⟨above, habove, hstarts⟩
    obtain ⟨hkind, hmethods⟩ := startsRoute_iff.1 hstarts
    refine ⟨above, List.mem_append_left _ habove, ?_⟩
    show (callAt? above).any (isCallOf routeStartMethods) = true
    rw [callAt?_of_kind hkind]
    exact hmethods

end RouteScope.Java
