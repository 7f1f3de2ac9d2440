import RouteScope.Java.Call
import RouteScope.Java.ClassIndex
import RouteScope.Recognition.Recognizer

/-!
# Routes in Java

The recognizer of routes that are written as chains of calls.  Endpoints and
expressions are string literals, and their roles follow from the methods that
take them as arguments.
-/

namespace RouteScope.Java

/-- The methods that start a route. -/
def routeStartMethods : List String := ["from", "fromF"]

/-- The methods whose literal arguments are endpoints to consume from. -/
def consumerMethods : List String := ["from", "fromF", "interceptFrom", "pollEnrich"]

/-- The methods whose literal arguments are endpoints to send to. -/
def producerMethods : List String :=
  ["to", "toF", "toD", "interceptSendToEndpoint", "wireTap", "enrich"]

/-- The methods whose literal arguments hold format placeholders. -/
def formatMethods : List String := ["fromF", "toF"]

/-- The methods whose expression arguments are predicates. -/
def predicateMethods : List String :=
  ["filter", "validate", "when", "onWhen", "loopDoWhile", "retryWhile", "handled",
    "continued"]

/-- The methods whose literal arguments look like endpoints and are none. -/
def exemptMethods : List String := ["brokerURL", "setBrokerURL"]

/-- Whether the call formats a text: it calls `format`, on `String` or on
nothing. -/
def isFormatCall (call : Node) : Bool :=
  isCallOf ["format"] call && (call.field? "object").all (·.text == "String")

/-- Whether the expression of the call is evaluated as a predicate: the call is
an argument of a predicate method, or is called on the result of one. -/
def isPredicateCall (call : Node) : Bool :=
  (callTaking? call).any (isCallOf predicateMethods) ||
    (call.field? "object").any fun object =>
      object.kind == "method_invocation" && isCallOf predicateMethods object

/-- Whether a call that starts a route stands at a node. -/
def isRouteStart (node : Node) : Bool :=
  (callAt? node).any (isCallOf routeStartMethods)

/-- Whether the literal at a node has format placeholders: it is an argument of
a method for them, or the text of a call that formats one. -/
def isStringFormat (node : Node) : Bool :=
  isArgumentOf formatMethods node || (callTakingLiteralAt? node).any isFormatCall

/-- Whether the literal at a node can be inspected.  An operand of an operator
is a part of a value only. -/
def isInspectable (node : Node) : Bool :=
  (literalAt? node).any fun literal =>
    literal.parent?.all (·.kind != "binary_expression")

/-- The class of the bean reference at a node.  Types that the file declares go
before all others. -/
def beanClass? (index : ClassIndex) (node : Node) : Option ClassId := do
  let name ← beanName? node
  index.findDeclared? name <|> index.graph.findBySimpleName? name

/-- The first declaration in the file of the class of the bean reference at a
node. -/
def beanNode? (node : Node) : Option Node := do
  let name ← beanName? node
  node.root.descendants.find? fun declaration =>
    isDeclaration declaration && declaredName? declaration == some name

/-- The recognizer of routes in a Java file with the given class index. -/
def recognizer (enabled : Bool) (index : ClassIndex) : Recognizer Node where
  name := "java"
  enabled := enabled
  isRouteStart := isRouteStart
  isConsumer := isArgumentOf consumerMethods
  isProducer := isArgumentOf producerMethods
  isStringFormat := isStringFormat
  isExpression node language := (languageCall? language node).isSome
  isPredicate node language := (languageCall? language node).any isPredicateCall
  skipsValidation := isArgumentOf exemptMethods
  isInspectable := isInspectable
  beanClass? := beanClass? index
  beanNode? := beanNode?

end RouteScope.Java
