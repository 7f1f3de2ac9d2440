import RouteScope.Proofs.Java.Argument
import RouteScope.Proofs.Recognition.Registry
import RouteScope.Proofs.Recognition.RouteStart

/-!
# Parts that stand for a construct

An editor may point at a part of a construct: at the fragment inside of a string
literal, or at the name of a called method.  Neither means anything by itself,
and every question about it is one about the construct.

* `IsPart`: the two kinds of parts.
* `answer_congr`: what the answers of the recognizer depend on.
* `FindsAlike.of_answersAlike`: a registry in which all recognizers answer alike at
  a node and at its parent.  The part has one ancestor more than the construct,
  which is the construct itself.
* `answers_alike_of_isPart`: all questions, to the recognizer and to a registry.
-/

namespace RouteScope

variable {ν : Type}

/-- The recognizer gives the same answers at both nodes. -/
structure AnswersAlike (recognizer : Recognizer ν) (node other : ν) : Prop where
  answer : ∀ query, recognizer.answer query node = recognizer.answer query other
  beanClass : recognizer.beanClass? node = recognizer.beanClass? other
  beanNode : recognizer.beanNode? node = recognizer.beanNode? other

/-- The registry finds out the same at both nodes. -/
structure FindsAlike [Ancestry ν] (registry : Registry ν) (node other : ν) : Prop where
  matchesAny : ∀ query,
    (registry.matchesAny query node).value = (registry.matchesAny query other).value
  inRouteStart : (registry.inRouteStart node).value = (registry.inRouteStart other).value
  beanClass : (registry.beanClass? node).value = (registry.beanClass? other).value
  beanNode : (registry.beanNode? node).value = (registry.beanNode? other).value

/-! ## Registries -/

section Registry

theorem findSome?_congr {α β : Type} {f g : α → Option β} {xs : List α}
    (h : ∀ x ∈ xs, f x = g x) : xs.findSome? f = xs.findSome? g := by
  have hmap := congrArg (List.findSome? id) (List.map_congr_left h)
  rwa [List.findSome?_map, List.findSome?_map] at hmap

variable [Ancestry ν] {registry : Registry ν} {node parent : ν}

/-- The way up from a node is the way up from its parent, with the parent in front.  So
both ask about the same nodes, apart from the node itself, where the answers are those
at the parent. -/
theorem value_inRouteStart_of_answersAlike (hparent : Ancestry.parent? node = some parent)
    (alike : ∀ recognizer ∈ registry.active, AnswersAlike recognizer node parent) :
    (registry.inRouteStart node).value = (registry.inRouteStart parent).value := by
  rw [Bool.eq_iff_iff, Registry.value_inRouteStart_iff, Registry.value_inRouteStart_iff,
    Ancestry.ancestors_of_parent?_eq_some hparent]
  constructor
  · rintro ⟨asked, hasked, recognizer, hactive, hyes⟩
    rcases List.mem_append.1 hasked with habove | hself
    · refine ⟨asked, ?_, recognizer, hactive, hyes⟩
      rcases List.mem_cons.1 habove with rfl | habove
      · exact List.mem_append_right _ (List.mem_singleton_self _)
      · exact List.mem_append_left _ habove
    · obtain rfl : asked = node := List.mem_singleton.1 hself
      rw [(alike recognizer hactive).answer] at hyes
      exact ⟨parent, List.mem_append_right _ (List.mem_singleton_self _), recognizer, hactive,
        hyes⟩
  · rintro ⟨asked, hasked, recognizer, hactive, hyes⟩
    refine ⟨asked, List.mem_append_left _ ?_, recognizer, hactive, hyes⟩
    rcases List.mem_append.1 hasked with habove | hself
    · exact List.mem_cons_of_mem _ habove
    · obtain rfl : asked = parent := List.mem_singleton.1 hself
      exact List.mem_cons_self

/-- If all active recognizers answer at a node as at its parent, the registry finds out
the same at both. -/
theorem FindsAlike.of_answersAlike (hparent : Ancestry.parent? node = some parent)
    (alike : ∀ recognizer ∈ registry.active, AnswersAlike recognizer node parent) :
    FindsAlike registry node parent where
  matchesAny query := by
    rw [Registry.value_matchesAny, Registry.value_matchesAny]
    rw [Bool.eq_iff_iff, List.any_eq_true, List.any_eq_true]
    refine exists_congr fun recognizer => and_congr_right fun hactive => ?_
    rw [(alike recognizer hactive).answer]
  inRouteStart := value_inRouteStart_of_answersAlike hparent alike
  beanClass := by
    rw [Registry.value_beanClass?, Registry.value_beanClass?]
    exact findSome?_congr fun recognizer hactive => (alike recognizer hactive).beanClass
  beanNode := by
    rw [Registry.value_beanNode?, Registry.value_beanNode?]
    exact findSome?_congr fun recognizer hactive => (alike recognizer hactive).beanNode

end Registry

namespace Java

/-- The first node is a part of the second that stands for it: a fragment of a string
literal, or the name of the method that is called. -/
inductive IsPart : Node → Node → Prop where
  | fragment {fragment literal : Node} (part : fragment.kind = "string_fragment")
      (kind : literal.kind = "string_literal") (inside : fragment.parent? = some literal) :
      IsPart fragment literal
  | name {token call : Node} (part : token.kind = "identifier")
      (kind : call.kind = "method_invocation") (names : call.field? "name" = some token) :
      IsPart token call

variable {node other part whole : Node}

/-! ## The recognizer -/

/-- All answers come from the call and from the literal that a node stands for. -/
theorem answer_congr (enabled : Bool) (index : ClassIndex) (hcall : callAt? node = callAt? other)
    (hliteral : literalAt? node = literalAt? other) (query : Query) :
    (recognizer enabled index).answer query node =
      (recognizer enabled index).answer query other := by
  have htaking : callTakingLiteralAt? node = callTakingLiteralAt? other := by
    rw [callTakingLiteralAt?, hliteral, callTakingLiteralAt?]
  have hargument (methods : List String) :
      isArgumentOf methods node = isArgumentOf methods other := by
    rw [isArgumentOf, htaking, isArgumentOf]
  have hlanguage (language : String) :
      languageCall? language node = languageCall? language other := by
    rw [languageCall?, hliteral, languageCall?]
  cases query with
  | routeStart =>
    show isRouteStart node = isRouteStart other
    rw [isRouteStart, hcall, isRouteStart]
  | consumer => exact hargument consumerMethods
  | producer => exact hargument producerMethods
  | stringFormat =>
    show isStringFormat node = isStringFormat other
    rw [isStringFormat, hargument, htaking, isStringFormat]
  | expression language => exact congrArg Option.isSome (hlanguage language)
  | predicate language => exact congrArg (Option.any isPredicateCall) (hlanguage language)
  | skipValidation => exact hargument exemptMethods
  | inspectable =>
    show isInspectable node = isInspectable other
    rw [isInspectable, hliteral, isInspectable]

theorem beanName?_congr (hcall : callAt? node = callAt? other)
    (hliteral : literalAt? node = literalAt? other) : beanName? node = beanName? other := by
  rw [beanName?, hcall, callTakingLiteralAt?, hliteral, beanName?, callTakingLiteralAt?]

theorem IsPart.parent?_eq (h : IsPart part whole) : part.parent? = some whole := by
  cases h with
  | fragment _ _ inside => exact inside
  | name _ _ names => exact Node.parent?_of_field? names

theorem IsPart.callAt?_eq (h : IsPart part whole) : callAt? part = callAt? whole := by
  cases h with
  | fragment hpart hkind _ =>
    rw [callAt?_of_kind_ne (by rw [hpart]; decide) (by rw [hpart]; decide),
      callAt?_of_kind_ne (by rw [hkind]; decide) (by rw [hkind]; decide)]
  | name hpart hkind names =>
    rw [callAt?_of_name hkind names hpart, callAt?_of_kind hkind]

theorem IsPart.literalAt?_eq (h : IsPart part whole) : literalAt? part = literalAt? whole := by
  cases h with
  | fragment hpart hkind inside =>
    rw [literalAt?_of_fragment hpart inside hkind, literalAt?_of_kind hkind]
  | name hpart hkind _ =>
    rw [literalAt?_of_kind_ne (by rw [hpart]; decide) (by rw [hpart]; decide),
      literalAt?_of_kind_ne (by rw [hkind]; decide) (by rw [hkind]; decide)]

theorem IsPart.answersAlike (h : IsPart part whole) (enabled : Bool) (index : ClassIndex) :
    AnswersAlike (recognizer enabled index) part whole where
  answer query := answer_congr enabled index h.callAt?_eq h.literalAt?_eq query
  beanClass := by
    show beanClass? index part = beanClass? index whole
    rw [beanClass?, beanName?_congr h.callAt?_eq h.literalAt?_eq, beanClass?]
  beanNode := by
    show beanNode? part = beanNode? whole
    rw [beanNode?, beanName?_congr h.callAt?_eq h.literalAt?_eq, beanNode?,
      Node.root_of_parent? h.parent?_eq]

/-- At a fragment of a string literal, and at the name of a called method, all answers are
those at the literal and at the call: those of the recognizer, whatever the class index
of the file, and those of the registry that consists of it. -/
theorem answers_alike_of_isPart (enabled : Bool) (index : ClassIndex) {part whole : Node}
    (h : IsPart part whole) :
    AnswersAlike (recognizer enabled index) part whole ∧
      FindsAlike (Registry.ofCandidates [recognizer enabled index]).value part whole := by
  refine ⟨h.answersAlike enabled index, FindsAlike.of_answersAlike h.parent?_eq ?_⟩
  intro active hactive
  rw [Registry.active_ofCandidates] at hactive
  obtain rfl : active = recognizer enabled index :=
    List.mem_singleton.1 (List.mem_filter.1 hactive).1
  exact h.answersAlike enabled index

/-- The fragment inside of the literal in `from("timer:tick")`. -/
def tickFragment : Node where
  tree := .node ⟨"string_fragment", true, "timer:tick", 6, 0, none⟩ []
  path :=
    [⟨⟨"string_literal", true, "\"timer:tick\"", 5, 0, none⟩,
        [.node ⟨"\"", false, "\"", 5, 0, none⟩ []], [.node ⟨"\"", false, "\"", 16, 0, none⟩ []]⟩,
      ⟨⟨"argument_list", true, "(\"timer:tick\")", 4, 0, some "arguments"⟩,
        [.node ⟨"(", false, "(", 4, 0, none⟩ []], [.node ⟨")", false, ")", 17, 0, none⟩ []]⟩,
      ⟨⟨"method_invocation", true, "from(\"timer:tick\")", 0, 0, none⟩,
        [.node ⟨"identifier", true, "from", 0, 0, some "name"⟩ []], []⟩]

/-- The literal around the fragment. -/
def tickLiteral : Node where
  tree := .node ⟨"string_literal", true, "\"timer:tick\"", 5, 0, none⟩
    [.node ⟨"\"", false, "\"", 5, 0, none⟩ [], tickFragment.tree,
      .node ⟨"\"", false, "\"", 16, 0, none⟩ []]
  path := tickFragment.path.tail

/-- At the fragment, too, a registry finds an endpoint to consume from. -/
theorem answers_alike_of_isPart_tick :
    IsPart tickFragment tickLiteral ∧
      ((Registry.ofCandidates
        [recognizer true (ClassIndex.ofTree tickFragment.root.tree)]).value.matchesAny
          .consumer tickFragment).value = true := by
  have hpart : IsPart tickFragment tickLiteral := .fragment rfl rfl rfl
  obtain ⟨-, finds⟩ :=
    answers_alike_of_isPart true (ClassIndex.ofTree tickFragment.root.tree) hpart
  have hconsumer : isArgumentOf consumerMethods tickLiteral = true := by decide
  refine ⟨hpart, ?_⟩
  rw [finds.matchesAny, Registry.value_matchesAny, Registry.active_ofCandidates]
  exact (Bool.or_false _).trans hconsumer

end Java

end RouteScope
