/-!
# Reports

What is found in one file: the starts of routes, the endpoints and expressions
among its string literals, the references to beans, and the declared classes
that play a role in routes.  All lists are in document order.
-/

namespace RouteScope

/-- Whether messages are consumed from an endpoint or sent to it. -/
inductive Role where
  | consumer
  | producer
deriving DecidableEq, Repr

def Role.name : Role → String
  | consumer => "consumer"
  | producer => "producer"

structure RouteStart where
  line : Nat
  method : String
deriving DecidableEq, Repr

/-- A string literal that is an endpoint.  It may hold format placeholders, and it may be
exempt from validation; `display` is the URI as it is wrapped. -/
structure EndpointUse where
  line : Nat
  role : Role
  uri : String
  component? : Option String
  hasQuery : Bool
  stringFormat : Bool
  validate : Bool
  inRouteStart : Bool
  display : String
deriving DecidableEq, Repr

/-- A string literal that is an expression, under the canonical name of its language. -/
structure ExpressionUse where
  line : Nat
  language : String
  text : String
  predicate : Bool
deriving DecidableEq, Repr

/-- A call that refers to a bean by its class, with the line on which the file declares
the class, if it does. -/
structure BeanUse where
  line : Nat
  className : String
  declaredAt? : Option Nat
deriving DecidableEq, Repr

/-- What is found in one file.  String literals that are only parts of a value are
counted; of the declared types there are those that are expressions or languages, those
that contribute routes, and the methods that handle messages. -/
structure Report where
  file : String
  routeStarts : List RouteStart
  endpoints : List EndpointUse
  expressions : List ExpressionUse
  beans : List BeanUse
  skippedLiterals : Nat
  expressionClasses : List String
  routeBuilders : List String
  handlerMethods : List String
deriving DecidableEq, Repr

end RouteScope
