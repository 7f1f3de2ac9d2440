import RouteScope.Proofs.Java.Argument

/-!
# Calls that tell a language

A literal is an expression in a language if the call that takes it tells the
language: by the name of its method, or in its first argument.  A call of the
method `language` could do both, and tells two languages then.  No other call
does, so leaving out the language of that name leaves at most one.

* `Tells`: how a call tells the language of a literal.
* `languageCall?_eq_some_iff`: the calls that are found for a language.
* `IsExpressionIn.unique`: the language is unique, unless it is `language`.
-/

namespace RouteScope.Java

/-- The call tells the language of the literal, one of its arguments: by the name of its
method, or, if that is `language`, by another literal in front of two or more
arguments. -/
inductive Tells (literal call : Node) : String → Prop where
  | byMethod {name : String} (method : methodName? call = some name) :
      Tells literal call (Language.canonical name)
  | byArgument {first second : Node} {others : List Node} {value : String}
      (method : methodName? call = some "language")
      (arguments : arguments call = first :: second :: others) (other : first ≠ literal)
      (named : literalValue? first = some value) :
      Tells literal call (Language.canonical value)

/-- The string literal is an argument of the call, which tells its language. -/
structure IsExpressionIn (literal call : Node) (language : String) : Prop where
  kind : literal.kind = "string_literal"
  argument : IsArgument literal call
  tells : Tells literal call language

/-- An argument of the call is evaluated as a predicate: the call is an argument
of a predicate method, or is called on the result of one. -/
def IsPredicate (call : Node) : Prop :=
  (∃ outer method, IsArgument call outer ∧ methodName? outer = some method ∧
    method ∈ predicateMethods) ∨
  ∃ object method, call.field? "object" = some object ∧ object.kind = "method_invocation" ∧
    methodName? object = some method ∧ method ∈ predicateMethods

variable {language : String} {literal call : Node}

theorem same_iff {name : String} :
    Language.same language name = true ↔ Language.canonical language = Language.canonical name := by
  unfold Language.same
  exact beq_iff_eq

/-! ## The first argument -/

theorem namesLanguage_iff (h : IsArgument literal call) :
    namesLanguage language literal call = true ↔
      ∃ first second others value, methodName? call = some "language" ∧
        arguments call = first :: second :: others ∧ first ≠ literal ∧
        literalValue? first = some value ∧
        Language.canonical language = Language.canonical value := by
  unfold namesLanguage
  rw [Bool.and_eq_true, isCallOf_iff]
  constructor
  · rintro ⟨⟨method, hmethod, hmem⟩, hfirst⟩
    obtain rfl : method = "language" := List.mem_singleton.1 hmem
    split at hfirst
    · rename_i first second others harguments
      have hroot : first.root = literal.root := by
        rw [h.root_eq]
        exact root_of_mem_arguments (harguments ▸ List.mem_cons_self)
      rw [Bool.and_eq_true, Bool.not_eq_true', ← Bool.not_eq_true, Node.isSame_iff hroot] at hfirst
      obtain ⟨hother, hvalue⟩ := hfirst
      obtain ⟨value, hvalue, hsame⟩ := (Option.any_eq_true _ _).1 hvalue
      exact ⟨first, second, others, value, hmethod, harguments, hother, hvalue, same_iff.1 hsame⟩
    · exact absurd hfirst Bool.false_ne_true
  · rintro ⟨first, second, others, value, hmethod, harguments, hother, hvalue, hsame⟩
    have hroot : first.root = literal.root := by
      rw [h.root_eq]
      exact root_of_mem_arguments (harguments ▸ List.mem_cons_self)
    refine ⟨⟨"language", hmethod, List.mem_singleton_self _⟩, ?_⟩
    rw [harguments]
    show (!first.isSame literal && (literalValue? first).any (Language.same language)) = true
    rw [Bool.and_eq_true, Bool.not_eq_true', ← Bool.not_eq_true, Node.isSame_iff hroot, hvalue]
    exact ⟨hother, same_iff.2 hsame⟩

/-! ## The call of a language -/

theorem tells_canonical_iff (h : IsArgument literal call) :
    Tells literal call (Language.canonical language) ↔
      ∃ name, methodName? call = some name ∧
        (Language.same language name || namesLanguage language literal call) = true := by
  constructor
  · intro htells
    generalize hlanguage : Language.canonical language = canonical at htells
    cases htells with
    | @byMethod name hmethod =>
      refine ⟨name, hmethod, ?_⟩
      rw [same_iff.2 hlanguage, Bool.true_or]
    | @byArgument first second others value hmethod harguments hother hvalue =>
      refine ⟨"language", hmethod, ?_⟩
      rw [(namesLanguage_iff h).2
        ⟨first, second, others, value, hmethod, harguments, hother, hvalue, hlanguage⟩,
        Bool.or_true]
  · rintro ⟨name, hmethod, hname⟩
    rw [Bool.or_eq_true] at hname
    rcases hname with hsame | hfirst
    · rw [same_iff.1 hsame]
      exact Tells.byMethod hmethod
    · obtain ⟨first, second, others, value, hlanguage, harguments, hother, hvalue, heq⟩ :=
        (namesLanguage_iff h).1 hfirst
      rw [heq]
      exact Tells.byArgument hlanguage harguments hother hvalue

theorem languageCall?_eq_some_iff (hkind : literal.kind = "string_literal") :
    languageCall? language literal = some call ↔
      IsExpressionIn literal call (Language.canonical language) := by
  have hliteral := literalAt?_of_kind hkind
  constructor
  · intro h
    obtain ⟨place, hplace, hcalls⟩ := Option.bind_eq_some_iff.1 h
    obtain rfl : literal = place := Option.some.inj (hliteral.symm.trans hplace)
    obtain ⟨found, hfound, hrest⟩ := Option.bind_eq_some_iff.1 hcalls
    obtain ⟨name, hname, hguard⟩ := Option.bind_eq_some_iff.1 hrest
    obtain ⟨_, hsome, hcall⟩ := Option.bind_eq_some_iff.1 hguard
    obtain rfl : found = call := Option.some.inj hcall
    have hargument := callTaking?_eq_some_iff.1 hfound
    refine ⟨hkind, hargument, (tells_canonical_iff hargument).2 ⟨name, hname, ?_⟩⟩
    by_contra hneither
    rw [guard, if_neg hneither] at hsome
    exact absurd hsome (Option.some_ne_none _).symm
  · intro h
    obtain ⟨name, hname, hguard⟩ := (tells_canonical_iff h.argument).1 h.tells
    refine Option.bind_eq_some_iff.2 ⟨literal, hliteral, ?_⟩
    refine Option.bind_eq_some_iff.2 ⟨call, callTaking?_eq_some_iff.2 h.argument, ?_⟩
    refine Option.bind_eq_some_iff.2 ⟨name, hname, ?_⟩
    rw [hguard]
    rfl

/-! ## One language -/

theorem canonical_language : Language.canonical "language" = "language" := by decide

/-- Apart from the language of that name, a literal is an expression in one
language at most. -/
theorem IsExpressionIn.unique {other : Node} {name : String}
    (h : IsExpressionIn literal call language) (hother : IsExpressionIn literal other name)
    (hlanguage : language ≠ "language") (hname : name ≠ "language") :
    call = other ∧ language = name := by
  have hcall := callTaking?_eq_some_iff.2 h.argument
  rw [callTaking?_eq_some_iff.2 hother.argument] at hcall
  obtain rfl : other = call := Option.some.inj hcall
  refine ⟨rfl, ?_⟩
  cases h.tells with
  | byMethod hmethod =>
    cases hother.tells with
    | byMethod hsecond =>
      rw [hmethod] at hsecond
      rw [Option.some.inj hsecond]
    | byArgument hsecond =>
      rw [hmethod] at hsecond
      rw [Option.some.inj hsecond] at hlanguage
      exact absurd canonical_language hlanguage
  | byArgument hmethod harguments hdifferent hvalue =>
    cases hother.tells with
    | byMethod hsecond =>
      rw [hmethod] at hsecond
      rw [← Option.some.inj hsecond] at hname
      exact absurd canonical_language hname
    | byArgument hsecond hsame hagain hnamed =>
      rw [harguments] at hsame
      obtain ⟨rfl, -⟩ := List.cons.inj hsame
      rw [hvalue] at hnamed
      rw [Option.some.inj hnamed]

/-! ## Predicates -/

theorem isPredicateCall_iff : isPredicateCall call = true ↔ IsPredicate call := by
  unfold isPredicateCall IsPredicate
  rw [Bool.or_eq_true, Option.any_eq_true, Option.any_eq_true]
  apply or_congr
  · apply exists_congr
    intro outer
    rw [callTaking?_eq_some_iff, isCallOf_iff]
    constructor
    · rintro ⟨hargument, method, hmethod, hmem⟩
      exact ⟨method, hargument, hmethod, hmem⟩
    · rintro ⟨method, hargument, hmethod, hmem⟩
      exact ⟨hargument, method, hmethod, hmem⟩
  · apply exists_congr
    intro object
    rw [Bool.and_eq_true, beq_iff_eq, isCallOf_iff]
    constructor
    · rintro ⟨hobject, hkind, method, hmethod, hmem⟩
      exact ⟨method, hobject, hkind, hmethod, hmem⟩
    · rintro ⟨method, hobject, hkind, hmethod, hmem⟩
      exact ⟨hobject, hkind, method, hmethod, hmem⟩

end RouteScope.Java
