import RouteScope.Proofs.Report.Entries
import RouteScope.Proofs.Tree.Preorder

/-!
# Endpoints of a report

The endpoints of a report are the string literals that calls of certain methods
take as arguments.  The queries that a scan asks on the way to an entry leave
none of them out: such a literal is no operand, it has one call and one method,
and no method is both one that is exempt from validation and one of endpoints.

* `IsEndpoint`: the literals that have an entry.
* `ShowsEndpoint`: what an entry says about its literal.
* `endpointAt?_eq_some` and `isSome_endpointAt?`: one literal.
* `endpoints_match_literals`: a whole report.
-/

namespace RouteScope.Report

open Java

/-- The string literal is an argument of a call of a method of endpoints. -/
def IsEndpoint (literal : Node) : Prop :=
  ∃ call method, LiteralArgument literal call method ∧
    (method ∈ consumerMethods ∨ method ∈ producerMethods)

/-- What an entry says about a literal that calls of the method take. -/
structure ShowsEndpoint (settings : Settings) (literal : Node) (method : String)
    (entry : EndpointUse) : Prop where
  line : entry.line = literal.line
  uri : literalValue? literal = some entry.uri
  role : entry.role = .consumer ↔ method ∈ consumerMethods
  component : entry.component? = Endpoint.component? entry.uri
  hasQuery : entry.hasQuery = Endpoint.hasQuery entry.uri
  stringFormat : entry.stringFormat = true ↔ method = "fromF" ∨ method = "toF"
  validate : entry.validate = true
  inRouteStart : entry.inRouteStart = true ↔
    ∃ above ∈ Ancestry.ancestors literal, StartsRoute above
  display : entry.display = Endpoint.wrap settings.display.separator
    settings.display.lineBreak settings.display.wrapWidth entry.uri

variable {settings : Settings} {index : ClassIndex} {literal call : Node} {method : String}

theorem isEndpoint_iff : IsEndpoint literal ↔ literal.kind = "string_literal" ∧
    isArgumentOf (consumerMethods ++ producerMethods) literal = true := by
  unfold IsEndpoint
  constructor
  · rintro ⟨call, method, h, hmethod⟩
    exact ⟨h.kind, h.isArgumentOf_iff.2 (List.mem_append.2 hmethod)⟩
  · rintro ⟨hkind, hargument⟩
    obtain ⟨call, method, h, hmethod⟩ := (isArgumentOf_iff hkind).1 hargument
    exact ⟨call, method, h, List.mem_append.1 hmethod⟩

instance : DecidablePred IsEndpoint := fun _ => decidable_of_iff _ isEndpoint_iff.symm

theorem IsEndpoint.not_isOperand (h : IsEndpoint literal) : ¬ IsOperand literal := by
  obtain ⟨call, method, hliteral, -⟩ := h
  exact hliteral.argument.not_isOperand

/-! ## One literal -/

/-- The role of a literal that a call takes is that of the called method. -/
theorem roleAt?_eq (java : settings.recognizers.java = true)
    (h : LiteralArgument literal call method) :
    roleAt? (javaRegistry settings index) literal =
      if method ∈ consumerMethods then some .consumer
      else if method ∈ producerMethods then some .producer
      else none := by
  have hconsumer : (recognizer true index).answer .consumer literal = true ↔ method ∈ consumerMethods :=
    h.isArgumentOf_iff
  have hproducer : (recognizer true index).answer .producer literal = true ↔ method ∈ producerMethods :=
    h.isArgumentOf_iff
  unfold roleAt?
  rw [value_matchesAny_javaRegistry java, value_matchesAny_javaRegistry java]
  simp only [hconsumer, hproducer]

/-- A literal that no call takes has no role. -/
theorem exists_literalArgument_of_roleAt? (java : settings.recognizers.java = true)
    (hkind : literal.kind = "string_literal") {role : Role}
    (h : roleAt? (javaRegistry settings index) literal = some role) :
    ∃ call method, LiteralArgument literal call method := by
  unfold roleAt? at h
  rw [value_matchesAny_javaRegistry java, value_matchesAny_javaRegistry java] at h
  split at h
  · rename_i hconsumer
    obtain ⟨call, method, hliteral, -⟩ := (isArgumentOf_iff hkind).1 hconsumer
    exact ⟨call, method, hliteral⟩
  · split at h
    · rename_i hproducer
      obtain ⟨call, method, hliteral, -⟩ := (isArgumentOf_iff hkind).1 hproducer
      exact ⟨call, method, hliteral⟩
    · exact absurd h (Option.some_ne_none role).symm

/-- The methods of endpoints are neither exempt from validation nor called
`format`. -/
theorem method_of_endpoint (h : method ∈ consumerMethods ∨ method ∈ producerMethods) :
    method ∉ exemptMethods ∧ method ≠ "format" := by
  have hall : ∀ name ∈ consumerMethods ++ producerMethods,
      name ∉ exemptMethods ∧ name ≠ "format" := by decide
  exact hall method (List.mem_append.2 h)

/-- An entry belongs to an endpoint and describes it. -/
theorem endpointAt?_eq_some (java : settings.recognizers.java = true) {entry : EndpointUse}
    (h : endpointAt? (javaRegistry settings index) settings literal = some entry) :
    ∃ call method, LiteralArgument literal call method ∧
      (method ∈ consumerMethods ∨ method ∈ producerMethods) ∧
      ShowsEndpoint settings literal method entry := by
  obtain ⟨uri, huri, hrest⟩ := Option.bind_eq_some_iff.1 h
  obtain ⟨role, hrole, hentry⟩ := Option.bind_eq_some_iff.1 hrest
  have hvalue := ((readAt?_eq_some_iff java).1 huri).2
  have hkind := kind_of_literalValue?_eq_some hvalue
  obtain ⟨call, method, hliteral⟩ := exists_literalArgument_of_roleAt? java hkind hrole
  rw [roleAt?_eq java hliteral] at hrole
  have hmethod : method ∈ consumerMethods ∨ method ∈ producerMethods := by
    by_contra hneither
    rw [not_or] at hneither
    rw [if_neg hneither.1, if_neg hneither.2] at hrole
    exact absurd hrole (Option.some_ne_none role).symm
  obtain ⟨hexempt, hformat⟩ := method_of_endpoint hmethod
  refine ⟨call, method, hliteral, hmethod, ?_⟩
  obtain rfl := Option.some.inj hentry
  constructor
  case line => rfl
  case uri => exact hvalue
  case role =>
    by_cases hconsumer : method ∈ consumerMethods
    · rw [if_pos hconsumer] at hrole
      exact iff_of_true (Option.some.inj hrole).symm hconsumer
    · rw [if_neg hconsumer, if_pos (hmethod.resolve_left hconsumer)] at hrole
      obtain rfl : Role.producer = role := Option.some.inj hrole
      exact iff_of_false Role.noConfusion hconsumer
  case component => rfl
  case hasQuery => rfl
  case stringFormat =>
    show ((javaRegistry settings index).matchesAny .stringFormat literal).value = true ↔ _
    rw [value_matchesAny_javaRegistry java]
    show isStringFormat literal = true ↔ _
    rw [hliteral.isStringFormat_iff hformat]
    simp [formatMethods]
  case validate =>
    show (!((javaRegistry settings index).matchesAny .skipValidation literal).value) = true
    rw [value_matchesAny_javaRegistry java, Bool.not_eq_true', ← Bool.not_eq_true]
    exact fun hskip => hexempt (hliteral.isArgumentOf_iff.1 hskip)
  case inRouteStart => exact value_inRouteStart_javaRegistry_iff java hkind
  case display => rfl

/-- Every endpoint with a value has an entry. -/
theorem isSome_endpointAt? (java : settings.recognizers.java = true) (h : IsEndpoint literal)
    (hvalue : (literalValue? literal).isSome = true) :
    (endpointAt? (javaRegistry settings index) settings literal).isSome = true := by
  obtain ⟨call, method, hliteral, hmethod⟩ := h
  obtain ⟨uri, huri⟩ := Option.isSome_iff_exists.1 hvalue
  have hread : readAt? (javaRegistry settings index) literal = some uri :=
    (readAt?_eq_some_iff java).2 ⟨hliteral.argument.not_isOperand, huri⟩
  have hrole : ∃ role, roleAt? (javaRegistry settings index) literal = some role := by
    rw [roleAt?_eq java hliteral]
    by_cases hconsumer : method ∈ consumerMethods
    · exact ⟨.consumer, if_pos hconsumer⟩
    · rw [if_neg hconsumer, if_pos (hmethod.resolve_left hconsumer)]
      exact ⟨.producer, rfl⟩
  obtain ⟨role, hrole⟩ := hrole
  unfold endpointAt?
  rw [hread, hrole]
  rfl

/-- The literals with an entry are the endpoints. -/
theorem isEndpoint_iff_isSome (java : settings.recognizers.java = true)
    (hvalue : IsEndpoint literal → (literalValue? literal).isSome = true) :
    IsEndpoint literal ↔
      (endpointAt? (javaRegistry settings index) settings literal).isSome = true := by
  constructor
  · intro h
    exact isSome_endpointAt? java h (hvalue h)
  · intro h
    obtain ⟨entry, hentry⟩ := Option.isSome_iff_exists.1 h
    obtain ⟨call, method, hliteral, hmethod, -⟩ := endpointAt?_eq_some java hentry
    exact ⟨call, method, hliteral, hmethod⟩

/-! ## A whole report -/

/-- With the recognizer for Java, there is a report on a file if every string
literal in it that is no operand has a value.  Its endpoints match, in document
order, the literals that calls of the methods of endpoints take, and each entry
describes its literal.  The number of skipped literals is that of the operands,
and no operand has an entry among the endpoints or the expressions. -/
theorem endpoints_match_literals (settings : Settings) (java : settings.recognizers.java = true)
    (file : String) (tree : Tree) :
    ((ofTree? settings file tree).isSome = true ↔
      ∀ literal ∈ tree.nodes, literal.kind = "string_literal" → ¬ IsOperand literal →
        (literalValue? literal).isSome = true) ∧
    ∀ report, ofTree? settings file tree = some report →
      List.Forall₂
        (fun literal entry => ∃ call method, LiteralArgument literal call method ∧
          ShowsEndpoint settings literal method entry)
        (tree.nodes.filter fun node => IsEndpoint node) report.endpoints ∧
      report.skippedLiterals = (tree.nodes.filter fun node => IsOperand node).length ∧
      report.endpoints = (tree.nodes.filter fun node => ¬ IsOperand node).filterMap
        (endpointAt? (javaRegistry settings (ClassIndex.ofTree tree)) settings) ∧
      report.expressions = (tree.nodes.filter fun node => ¬ IsOperand node).filterMap
        (expressionAt? (javaRegistry settings (ClassIndex.ofTree tree)) settings) := by
  refine ⟨isSome_ofTree?_iff java, fun report hreport => ?_⟩
  have hvalues := (isSome_ofTree?_iff java).1 (Option.isSome_iff_exists.2 ⟨report, hreport⟩)
  obtain rfl := eq_ofTree_of_ofTree? hreport
  refine ⟨?_, ?_, filterMap_of_readAt? java _ _, filterMap_of_readAt? java _ _⟩
  · apply forall₂_filterMap
    · intro literal hmem
      apply isEndpoint_iff_isSome java
      intro hendpoint
      exact hvalues literal hmem (isEndpoint_iff.1 hendpoint).1 hendpoint.not_isOperand
    · intro literal entry hentry
      obtain ⟨call, method, hliteral, -, hshows⟩ := endpointAt?_eq_some java hentry
      exact ⟨call, method, hliteral, hshows⟩
  · show tree.nodes.countP _ = _
    rw [List.countP_eq_length_filter]
    refine congrArg List.length (List.filter_congr fun node _ => ?_)
    rw [Bool.eq_iff_iff, decide_eq_true_iff]
    exact isSkipped_iff java

/-- The tree of `from("timer:a").to("log:b", "c" + d)`. -/
def chainedCalls : Tree :=
  .node ⟨"method_invocation", true, "from(\"timer:a\").to(\"log:b\", \"c\" + d)", 0, 0, none⟩
    [.node ⟨"method_invocation", true, "from(\"timer:a\")", 0, 0, some "object"⟩
        [.node ⟨"identifier", true, "from", 0, 0, some "name"⟩ [],
          .node ⟨"argument_list", true, "(\"timer:a\")", 4, 0, some "arguments"⟩
            [.node ⟨"string_literal", true, "\"timer:a\"", 5, 0, none⟩ []]],
      .node ⟨"identifier", true, "to", 16, 0, some "name"⟩ [],
      .node ⟨"argument_list", true, "(\"log:b\", \"c\" + d)", 18, 0, some "arguments"⟩
        [.node ⟨"string_literal", true, "\"log:b\"", 19, 0, none⟩ [],
          .node ⟨"binary_expression", true, "\"c\" + d", 28, 0, none⟩
            [.node ⟨"string_literal", true, "\"c\"", 28, 0, some "left"⟩ []]]]

/-- There is a report on two calls in a chain.  It has an entry for an endpoint
of each, and skips the operand. -/
theorem endpoints_match_literals_chained :
    ({} : Settings).recognizers.java = true ∧
      ∃ report, ofTree? {} "Routes.java" chainedCalls = some report ∧
        report.endpoints.length = 2 ∧ report.skippedLiterals = 1 := by
  have hmatch := endpoints_match_literals {} rfl "Routes.java" chainedCalls
  rw [Tree.nodes_eq_preorder] at hmatch
  have hvalues : ∀ literal ∈ Tree.preorder [] chainedCalls,
      literal.kind = "string_literal" → (literalValue? literal).isSome = true := by decide
  obtain ⟨report, hreport⟩ := Option.isSome_iff_exists.1
    (hmatch.1.2 fun literal hmem hkind _ => hvalues literal hmem hkind)
  obtain ⟨hentries, hskipped, -, -⟩ := hmatch.2 report hreport
  refine ⟨rfl, report, hreport, ?_, ?_⟩
  · rw [← hentries.length_eq]
    decide
  · rw [hskipped]
    decide

end RouteScope.Report
