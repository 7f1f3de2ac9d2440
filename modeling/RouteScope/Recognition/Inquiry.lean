import RouteScope.Recognition.Recognizer

/-!
# Inquiries

Asking a recognizer may be costly, so it matters who is asked what, and in
which order.  `Inquired ν α` is a value that was found out by asking: it keeps
the record of all questions that were put to recognizers on the way.
-/

namespace RouteScope

/-- A question as it is put to a recognizer, which has one answer for each. -/
inductive Question (ν : Type) where
  | enabled
  | routeStart (node : ν)
  | consumer (node : ν)
  | producer (node : ν)
  | stringFormat (node : ν)
  | expression (node : ν) (language : String)
  | predicate (node : ν) (language : String)
  | skipValidation (node : ν)
  | inspectable (node : ν)
  | beanClass (node : ν)
  | beanNode (node : ν)
deriving DecidableEq, Repr

/-- A question together with the recognizer to which it was put. -/
structure Inquiry (ν : Type) where
  recognizer : Recognizer ν
  question : Question ν

/-- A value together with the inquiries by which it was found out, the first
inquiry first. -/
structure Inquired (ν α : Type) where
  value : α
  inquiries : List (Inquiry ν)

namespace Inquired

variable {ν α β : Type}

/-- A value that needs no inquiry. -/
protected def pure (value : α) : Inquired ν α := ⟨value, []⟩

/-- Goes on from a value that was found out. -/
protected def bind (first : Inquired ν α) (next : α → Inquired ν β) : Inquired ν β :=
  ⟨(next first.value).value, first.inquiries ++ (next first.value).inquiries⟩

instance : Monad (Inquired ν) where
  pure := Inquired.pure
  bind := Inquired.bind

@[simp] theorem value_pure (value : α) : (pure value : Inquired ν α).value = value := rfl

@[simp] theorem inquiries_pure (value : α) :
    (pure value : Inquired ν α).inquiries = [] := rfl

@[simp] theorem value_bind (first : Inquired ν α) (next : α → Inquired ν β) :
    (first >>= next).value = (next first.value).value := rfl

@[simp] theorem inquiries_bind (first : Inquired ν α) (next : α → Inquired ν β) :
    (first >>= next).inquiries =
      first.inquiries ++ (next first.value).inquiries := rfl

end Inquired

namespace Recognizer

variable {ν α : Type}

/-- The answer of the recognizer to a question, which is put on record. -/
def hear (recognizer : Recognizer ν) (question : Question ν) (answer : α) : Inquired ν α :=
  ⟨answer, [⟨recognizer, question⟩]⟩

/-- Asks whether the recognizer takes part. -/
def askEnabled (recognizer : Recognizer ν) : Inquired ν Bool :=
  recognizer.hear .enabled recognizer.enabled

/-- Puts a query about a node to the recognizer.  For each query there is a
question of its own. -/
def ask (recognizer : Recognizer ν) (query : Query) (node : ν) : Inquired ν Bool :=
  match query with
  | .routeStart => recognizer.hear (.routeStart node) (recognizer.isRouteStart node)
  | .consumer => recognizer.hear (.consumer node) (recognizer.isConsumer node)
  | .producer => recognizer.hear (.producer node) (recognizer.isProducer node)
  | .stringFormat => recognizer.hear (.stringFormat node) (recognizer.isStringFormat node)
  | .expression language =>
      recognizer.hear (.expression node language) (recognizer.isExpression node language)
  | .predicate language =>
      recognizer.hear (.predicate node language) (recognizer.isPredicate node language)
  | .skipValidation =>
      recognizer.hear (.skipValidation node) (recognizer.skipsValidation node)
  | .inspectable => recognizer.hear (.inspectable node) (recognizer.isInspectable node)

/-- Asks for the class of the bean reference at a node. -/
def askBeanClass (recognizer : Recognizer ν) (node : ν) : Inquired ν (Option ClassId) :=
  recognizer.hear (.beanClass node) (recognizer.beanClass? node)

/-- Asks for the declaration of the bean reference at a node. -/
def askBeanNode (recognizer : Recognizer ν) (node : ν) : Inquired ν (Option ν) :=
  recognizer.hear (.beanNode node) (recognizer.beanNode? node)

end Recognizer

end RouteScope
