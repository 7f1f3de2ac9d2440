import RouteScope.ClassGraph.Basic

/-!
# Recognizers

A recognizer knows one way of writing routes.  It answers yes-or-no questions
about the nodes of a host's syntax tree, and it may know which class a bean
reference names and where that class is declared.
-/

namespace RouteScope

/-- One way of writing routes, and what it says about nodes of type `ν`.  The
questions are whether the recognizer takes part at all; whether a node is the
start of a route, an endpoint to consume from, an endpoint to send to or one
with format placeholders; whether it is an expression in a language, or one that
is used as a predicate; whether it is exempt from validation and simple enough
for inspection; and which class a bean reference at the node names, and where
that class is declared. -/
structure Recognizer (ν : Type) where
  name : String
  enabled : Bool
  isRouteStart : ν → Bool
  isConsumer : ν → Bool
  isProducer : ν → Bool
  isStringFormat : ν → Bool
  isExpression : ν → String → Bool
  isPredicate : ν → String → Bool
  skipsValidation : ν → Bool
  isInspectable : ν → Bool
  beanClass? : ν → Option ClassId
  beanNode? : ν → Option ν

/-- The yes-or-no queries about a node.  Two of them are about a language. -/
inductive Query where
  | routeStart
  | consumer
  | producer
  | stringFormat
  | expression (language : String)
  | predicate (language : String)
  | skipValidation
  | inspectable
deriving DecidableEq, Repr

end RouteScope
