import RouteScope.Recognition.Registry

/-!
# Answers of a registry

What a registry finds out, apart from the record of whom it asked.  Each query
is one of the questions that a recognizer can be asked, and `ask` gives the
answer to that question.  The active recognizers are the candidates that take
part, in their order, and a look-up gives the first answer that one of them has.
-/

namespace RouteScope

variable {ν α β : Type}

/-- What a recognizer says to a query about a node. -/
def Recognizer.answer (recognizer : Recognizer ν) (query : Query) (node : ν) : Bool :=
  match query with
  | .routeStart => recognizer.isRouteStart node
  | .consumer => recognizer.isConsumer node
  | .producer => recognizer.isProducer node
  | .stringFormat => recognizer.isStringFormat node
  | .expression language => recognizer.isExpression node language
  | .predicate language => recognizer.isPredicate node language
  | .skipValidation => recognizer.skipsValidation node
  | .inspectable => recognizer.isInspectable node

/-- The question that a query about a node is. -/
def Query.question (query : Query) (node : ν) : Question ν :=
  match query with
  | .routeStart => .routeStart node
  | .consumer => .consumer node
  | .producer => .producer node
  | .stringFormat => .stringFormat node
  | .expression language => .expression node language
  | .predicate language => .predicate node language
  | .skipValidation => .skipValidation node
  | .inspectable => .inspectable node

@[simp] theorem Recognizer.value_ask (recognizer : Recognizer ν) (query : Query) (node : ν) :
    (recognizer.ask query node).value = recognizer.answer query node := by
  cases query <;> rfl

@[simp] theorem Recognizer.inquiries_ask (recognizer : Recognizer ν) (query : Query) (node : ν) :
    (recognizer.ask query node).inquiries = [⟨recognizer, query.question node⟩] := by
  cases query <;> rfl

namespace Registry

theorem value_keepEnabled (candidates : List (Recognizer ν)) :
    (keepEnabled candidates).value = candidates.filter (·.enabled) := by
  induction candidates with
  | nil => rfl
  | cons candidate candidates ih =>
    rw [List.filter_cons, ← ih]
    rfl

theorem active_ofCandidates (candidates : List (Recognizer ν)) :
    (ofCandidates candidates).value.active = candidates.filter (·.enabled) :=
  value_keepEnabled candidates

theorem value_untilSome (ask : α → Inquired ν (Option β)) (asked : List α) :
    (untilSome ask asked).value = asked.findSome? fun one => (ask one).value := by
  induction asked with
  | nil => rfl
  | cons one asked ih =>
    rw [untilSome, Inquired.value_bind, List.findSome?_cons]
    cases (ask one).value with
    | none => exact ih
    | some answer => rfl

theorem value_beanClass? (registry : Registry ν) (node : ν) :
    (registry.beanClass? node).value = registry.active.findSome? (·.beanClass? node) :=
  value_untilSome _ _

theorem value_beanNode? (registry : Registry ν) (node : ν) :
    (registry.beanNode? node).value = registry.active.findSome? (·.beanNode? node) :=
  value_untilSome _ _

end Registry

end RouteScope
