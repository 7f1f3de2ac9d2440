import RouteScope.Proofs.Recognition.Polling

/-!
# Sessions

A session sets up a registry from a list of candidates and then makes requests
of it.  Its record is known beforehand: every candidate is asked once whether it
takes part, and then each request goes to those that do, in their order, until
the first positive answer.

* `asks_reply`: what one request asks and what it gives.
* `inquiries_replies` and `value_replies`: the same for a list of requests.
* `session_asks_in_order`: a whole session, and what follows for sessions with
  other candidates.
-/

namespace RouteScope

/-- What may be requested of a registry: whether someone says yes to a query, or
one of the two look-ups. -/
inductive Request (ν : Type) where
  | query (query : Query) (node : ν)
  | beanClass (node : ν)
  | beanNode (node : ν)

/-- What comes back for a request. -/
inductive Reply (ν : Type) where
  | yesNo (yes : Bool)
  | beanClass (id? : Option ClassId)
  | beanNode (node? : Option ν)

/-- The answer to a yes-or-no query. -/
def Reply.yesNo? {ν : Type} : Reply ν → Option Bool
  | .yesNo yes => some yes
  | _ => none

namespace Request

variable {ν : Type}

/-- The question that a request puts to a recognizer. -/
def question : Request ν → Question ν
  | .query what node => what.question node
  | .beanClass node => .beanClass node
  | .beanNode node => .beanNode node

/-- Whom a request asks what: those of the candidates that take part, in order,
and nobody after the first positive answer. -/
def inquiries (candidates : List (Recognizer ν)) (request : Request ν) : List (Inquiry ν) :=
  untilSettled ((candidates.filter (·.enabled)).map fun candidate =>
    ⟨candidate, request.question⟩)

/-- What the candidates that take part have to say to a request. -/
def reply (candidates : List (Recognizer ν)) : Request ν → Reply ν
  | .query what node =>
      .yesNo (candidates.any fun candidate => candidate.enabled && candidate.answer what node)
  | .beanClass node =>
      .beanClass ((candidates.filter (·.enabled)).findSome? (·.beanClass? node))
  | .beanNode node =>
      .beanNode ((candidates.filter (·.enabled)).findSome? (·.beanNode? node))

end Request

namespace Registry

variable {ν : Type}

/-- Makes a request. -/
def reply (registry : Registry ν) : Request ν → Inquired ν (Reply ν)
  | .query query node => do
      let yes ← registry.matchesAny query node
      return .yesNo yes
  | .beanClass node => do
      let id? ← registry.beanClass? node
      return .beanClass id?
  | .beanNode node => do
      let node? ← registry.beanNode? node
      return .beanNode node?

/-- Makes one request after the other. -/
def replies (registry : Registry ν) : List (Request ν) → Inquired ν (List (Reply ν))
  | [] => pure []
  | request :: requests => do
      let first ← registry.reply request
      let others ← registry.replies requests
      return first :: others

/-- Sets up a registry and makes requests of it. -/
def session (candidates : List (Recognizer ν)) (requests : List (Request ν)) :
    Inquired ν (List (Reply ν)) := do
  let registry ← ofCandidates candidates
  registry.replies requests

variable {candidates : List (Recognizer ν)} {registry : Registry ν}

/-! ## One request -/

/-- A request asks the active recognizers up to the first positive answer, and
has its reply from them. -/
theorem asks_reply (h : registry.active = candidates.filter (·.enabled))
    (request : Request ν) :
    (registry.reply request).inquiries = request.inquiries candidates ∧
      (registry.reply request).value = request.reply candidates := by
  unfold reply Request.inquiries
  rw [← h]
  cases request with
  | query query node =>
    constructor
    · show (registry.matchesAny query node).inquiries ++ [] = _
      rw [List.append_nil]
      exact (polls_matchesAny registry query node).inquiries
    · show Reply.yesNo (registry.matchesAny query node).value = _
      rw [value_matchesAny, h, List.any_filter]
      rfl
  | beanClass node =>
    constructor
    · show (registry.beanClass? node).inquiries ++ [] = _
      rw [List.append_nil]
      exact inquiries_beanClass? registry node
    · show Reply.beanClass (registry.beanClass? node).value = _
      rw [value_beanClass?, h]
      rfl
  | beanNode node =>
    constructor
    · show (registry.beanNode? node).inquiries ++ [] = _
      rw [List.append_nil]
      exact inquiries_beanNode? registry node
    · show Reply.beanNode (registry.beanNode? node).value = _
      rw [value_beanNode?, h]
      rfl

/-- Nobody is asked again whether he takes part. -/
theorem question_ne_enabled {request : Request ν} {inquiry : Inquiry ν}
    (h : inquiry ∈ request.inquiries candidates) : inquiry.question ≠ .enabled := by
  obtain ⟨candidate, -, rfl⟩ := List.mem_map.1 (mem_of_mem_untilSettled h)
  show request.question ≠ .enabled
  cases request with
  | query query node => cases query <;> simp [Request.question, Query.question]
  | beanClass node => simp [Request.question]
  | beanNode node => simp [Request.question]

/-! ## A list of requests -/

theorem inquiries_replies (h : registry.active = candidates.filter (·.enabled))
    (requests : List (Request ν)) :
    (registry.replies requests).inquiries =
      requests.flatMap (Request.inquiries candidates) := by
  induction requests with
  | nil => rfl
  | cons request requests ih =>
    unfold replies
    rw [Inquired.inquiries_bind, Inquired.inquiries_bind, (asks_reply h request).1, ih,
      Inquired.inquiries_pure, List.append_nil, List.flatMap_cons]

theorem value_replies (h : registry.active = candidates.filter (·.enabled))
    (requests : List (Request ν)) :
    (registry.replies requests).value = requests.map (Request.reply candidates) := by
  induction requests with
  | nil => rfl
  | cons request requests ih =>
    unfold replies
    rw [Inquired.value_bind, Inquired.value_bind, (asks_reply h request).2, ih]
    rfl

theorem value_session (candidates : List (Recognizer ν)) (requests : List (Request ν)) :
    (session candidates requests).value = requests.map (Request.reply candidates) :=
  value_replies (active_ofCandidates candidates) requests

/-! ## Sessions with other candidates -/

/-- The candidates that do not take part have no say. -/
theorem reply_eq_of_filter_eq {others : List (Recognizer ν)}
    (h : others.filter (·.enabled) = candidates.filter (·.enabled)) (request : Request ν) :
    request.reply others = request.reply candidates := by
  unfold Request.reply
  cases request with
  | query query node =>
    show Reply.yesNo _ = Reply.yesNo _
    rw [← List.any_filter, ← List.any_filter, h]
  | beanClass node =>
    show Reply.beanClass _ = Reply.beanClass _
    rw [h]
  | beanNode node =>
    show Reply.beanNode _ = Reply.beanNode _
    rw [h]

/-- A yes does not hang on the order in which the candidates are asked. -/
theorem yesNo?_reply_eq_of_perm {others : List (Recognizer ν)} (h : others.Perm candidates)
    (request : Request ν) :
    (request.reply others).yesNo? = (request.reply candidates).yesNo? := by
  cases request with
  | query query node => exact congrArg some h.any_eq
  | beanClass node => rfl
  | beanNode node => rfl

/-- The record and the replies of a session.  Setting up asks each candidate
once whether it takes part, and nothing else, and keeps those that do.  Each
request then asks its own question of the active recognizers until the first
positive answer, and nobody is asked again whether it takes part.  So candidates
that do not take part can come and go anywhere in the list, and the order of the
candidates matters only for look-ups. -/
theorem session_asks_in_order (candidates : List (Recognizer ν)) (requests : List (Request ν)) :
    (ofCandidates candidates).value.active = candidates.filter (·.enabled) ∧
      (ofCandidates candidates).inquiries =
        candidates.map (fun candidate => ⟨candidate, .enabled⟩) ∧
      (session candidates requests).inquiries =
        candidates.map (fun candidate => ⟨candidate, .enabled⟩) ++
          requests.flatMap (Request.inquiries candidates) ∧
      (∀ inquiry ∈ requests.flatMap (Request.inquiries candidates),
        inquiry.question ≠ .enabled) ∧
      (session candidates requests).value = requests.map (Request.reply candidates) ∧
      (∀ others : List (Recognizer ν),
        others.filter (·.enabled) = candidates.filter (·.enabled) →
          (session others requests).value = (session candidates requests).value) ∧
      ∀ others : List (Recognizer ν), others.Perm candidates →
        (session others requests).value.map Reply.yesNo? =
          (session candidates requests).value.map Reply.yesNo? := by
  have hactive := active_ofCandidates candidates
  have hsetup := inquiries_ofCandidates candidates
  refine ⟨hactive, hsetup, ?_, ?_, value_session candidates requests, ?_, ?_⟩
  · show (ofCandidates candidates).inquiries ++
      ((ofCandidates candidates).value.replies requests).inquiries = _
    rw [hsetup, inquiries_replies hactive]
  · intro inquiry h
    obtain ⟨request, -, hrequest⟩ := List.mem_flatMap.1 h
    exact question_ne_enabled hrequest
  · intro others h
    rw [value_session, value_session]
    exact List.map_congr_left fun request _ => reply_eq_of_filter_eq h request
  · intro others h
    rw [value_session, value_session, List.map_map, List.map_map]
    exact List.map_congr_left fun request _ => yesNo?_reply_eq_of_perm h request

end Registry

end RouteScope
