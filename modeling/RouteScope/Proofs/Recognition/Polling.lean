import RouteScope.Proofs.Recognition.Registry

/-!
# Polls

Asking one recognizer after the other until the matter is settled leaves a
record: of all inquiries that might have been made, those up to the first one
that settles the matter.  A poll is a search with such a record.  Polls nest: if
each of several matters is put to a poll, then so is the question whether one of
them holds, and its inquiries are those of the single polls one after the other.

* `untilSettled`: what is left of a list of inquiries if nobody is asked after
  the first positive answer.
* `Polls`: a search for a yes, by its value and by its record.
* `polls_untilYes`: polls nest.
* `inquiries_untilSome`: a search for an answer that is more than a yes leaves
  the same record.
-/

namespace RouteScope

variable {ν α β : Type}

/-- Whether the recognizer that is asked says yes, or has an answer. -/
def Inquiry.settles (inquiry : Inquiry ν) : Bool :=
  match inquiry.question with
  | .enabled => inquiry.recognizer.enabled
  | .routeStart node => inquiry.recognizer.isRouteStart node
  | .consumer node => inquiry.recognizer.isConsumer node
  | .producer node => inquiry.recognizer.isProducer node
  | .stringFormat node => inquiry.recognizer.isStringFormat node
  | .expression node language => inquiry.recognizer.isExpression node language
  | .predicate node language => inquiry.recognizer.isPredicate node language
  | .skipValidation node => inquiry.recognizer.skipsValidation node
  | .inspectable node => inquiry.recognizer.isInspectable node
  | .beanClass node => (inquiry.recognizer.beanClass? node).isSome
  | .beanNode node => (inquiry.recognizer.beanNode? node).isSome

theorem settles_question (recognizer : Recognizer ν) (query : Query) (node : ν) :
    Inquiry.settles ⟨recognizer, query.question node⟩ = recognizer.answer query node := by
  cases query <;> rfl

/-- The inquiries up to the first one that settles the matter, that one
included. -/
def untilSettled (inquiries : List (Inquiry ν)) : List (Inquiry ν) :=
  inquiries.take (inquiries.findIdx Inquiry.settles + 1)

theorem untilSettled_cons (inquiry : Inquiry ν) (inquiries : List (Inquiry ν)) :
    untilSettled (inquiry :: inquiries) =
      if inquiry.settles then [inquiry] else inquiry :: untilSettled inquiries := by
  unfold untilSettled
  rw [List.findIdx_cons]
  cases inquiry.settles with
  | true => rfl
  | false => rfl

theorem untilSettled_append (front back : List (Inquiry ν)) :
    untilSettled (front ++ back) =
      if front.any Inquiry.settles then untilSettled front
      else front ++ untilSettled back := by
  induction front with
  | nil => rfl
  | cons inquiry front ih =>
    rw [List.cons_append, untilSettled_cons, ih, List.any_cons, untilSettled_cons]
    cases inquiry.settles with
    | true => rfl
    | false =>
      show inquiry :: _ = _
      cases front.any Inquiry.settles with
      | true => rfl
      | false => rfl

/-- If nothing settles the matter, all inquiries are made. -/
theorem untilSettled_eq_self {inquiries : List (Inquiry ν)}
    (h : inquiries.any Inquiry.settles = false) : untilSettled inquiries = inquiries := by
  have happend := untilSettled_append inquiries []
  rw [h, List.append_nil] at happend
  exact happend.trans (List.append_nil inquiries)

theorem mem_of_mem_untilSettled {inquiry : Inquiry ν} {inquiries : List (Inquiry ν)}
    (h : inquiry ∈ untilSettled inquiries) : inquiry ∈ inquiries :=
  List.mem_of_mem_take h

/-! ## Searches for a yes -/

/-- The outcome is that of a poll: it is a yes if one of the inquiries settles
the matter, and none is made after that. -/
structure Polls (outcome : Inquired ν Bool) (inquiries : List (Inquiry ν)) : Prop where
  value : outcome.value = inquiries.any Inquiry.settles
  inquiries : outcome.inquiries = untilSettled inquiries

namespace Registry

theorem polls_ask (recognizer : Recognizer ν) (query : Query) (node : ν) :
    Polls (recognizer.ask query node) [⟨recognizer, query.question node⟩] where
  value := by
    rw [recognizer.value_ask, List.any_cons, List.any_nil, Bool.or_false, settles_question]
  inquiries := by
    rw [recognizer.inquiries_ask, untilSettled_cons]
    cases Inquiry.settles _ with
    | true => rfl
    | false => rfl

theorem polls_untilYes {ask : α → Inquired ν Bool} {inquiries : α → List (Inquiry ν)}
    (h : ∀ one, Polls (ask one) (inquiries one)) (asked : List α) :
    Polls (untilYes ask asked) (asked.flatMap inquiries) := by
  induction asked with
  | nil => exact ⟨rfl, rfl⟩
  | cons one asked ih =>
    have hvalue := (h one).value
    have hrecord := (h one).inquiries
    unfold untilYes
    constructor
    · rw [Inquired.value_bind, List.flatMap_cons, List.any_append, hvalue]
      cases (inquiries one).any Inquiry.settles with
      | true => rfl
      | false => exact ih.value
    · rw [Inquired.inquiries_bind, List.flatMap_cons, untilSettled_append, hvalue, hrecord]
      cases hsettled : (inquiries one).any Inquiry.settles with
      | true => exact List.append_nil _
      | false =>
        rw [untilSettled_eq_self hsettled]
        exact congrArg _ ih.inquiries

theorem polls_matchesAny (registry : Registry ν) (query : Query) (node : ν) :
    Polls (registry.matchesAny query node)
      (registry.active.map fun recognizer => ⟨recognizer, query.question node⟩) := by
  rw [List.map_eq_flatMap]
  exact polls_untilYes (fun recognizer => polls_ask recognizer query node) registry.active

theorem value_matchesAny (registry : Registry ν) (query : Query) (node : ν) :
    (registry.matchesAny query node).value = registry.active.any (·.answer query node) := by
  rw [(polls_matchesAny registry query node).value, List.any_map]
  simp only [Function.comp_def, settles_question]

/-! ## Searches for an answer -/

theorem inquiries_untilSome {ask : α → Inquired ν (Option β)} {inquiry : α → Inquiry ν}
    (hrecord : ∀ one, (ask one).inquiries = [inquiry one])
    (hvalue : ∀ one, (ask one).value.isSome = (inquiry one).settles) (asked : List α) :
    (untilSome ask asked).inquiries = untilSettled (asked.map inquiry) := by
  induction asked with
  | nil => rfl
  | cons one asked ih =>
    unfold untilSome
    rw [Inquired.inquiries_bind, List.map_cons, untilSettled_cons, ← hvalue, hrecord]
    cases (ask one).value with
    | some answer => rfl
    | none => exact congrArg _ ih

theorem inquiries_beanClass? (registry : Registry ν) (node : ν) :
    (registry.beanClass? node).inquiries =
      untilSettled (registry.active.map fun recognizer => ⟨recognizer, .beanClass node⟩) :=
  inquiries_untilSome (fun _ => rfl) (fun _ => rfl) registry.active

theorem inquiries_beanNode? (registry : Registry ν) (node : ν) :
    (registry.beanNode? node).inquiries =
      untilSettled (registry.active.map fun recognizer => ⟨recognizer, .beanNode node⟩) :=
  inquiries_untilSome (fun _ => rfl) (fun _ => rfl) registry.active

/-! ## Setting up -/

/-- Each candidate is asked once whether it takes part, whatever the others
say. -/
theorem inquiries_ofCandidates (candidates : List (Recognizer ν)) :
    (ofCandidates candidates).inquiries =
      candidates.map fun candidate => ⟨candidate, .enabled⟩ := by
  have hkeep : (keepEnabled candidates).inquiries =
      candidates.map fun candidate => ⟨candidate, .enabled⟩ := by
    induction candidates with
    | nil => rfl
    | cons candidate candidates ih =>
      unfold keepEnabled
      rw [Inquired.inquiries_bind, Inquired.inquiries_bind, ih]
      exact congrArg _ (List.append_nil _)
  unfold ofCandidates
  rw [Inquired.inquiries_bind, hkeep]
  exact List.append_nil _

end Registry

end RouteScope
