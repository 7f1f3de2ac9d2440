/-!
# Names of Camel

The types and annotations of Camel that decide what role a class plays in
routes.
-/

namespace RouteScope.Camel

/-- The types that make everything derived from them an expression or a
language. -/
def expressionTypes : List String :=
  ["org.apache.camel.Expression",
    "org.apache.camel.Predicate",
    "org.apache.camel.model.language.ExpressionDefinition",
    "org.apache.camel.builder.ExpressionClause"]

/-- The annotation of the method of a bean that handles messages. -/
def handlerAnnotation : String := "org.apache.camel.Handler"

/-- The interface of classes that contribute routes. -/
def routesBuilder : String := "org.apache.camel.RoutesBuilder"

/-- The types that are known without being declared, each with the names of
its direct supertypes. -/
def knownTypes : List (String × List String) :=
  [("org.apache.camel.Expression", []),
    ("org.apache.camel.Predicate", []),
    ("org.apache.camel.RoutesBuilder", []),
    ("org.apache.camel.model.language.ExpressionDefinition", []),
    ("org.apache.camel.builder.ExpressionClause", []),
    ("org.apache.camel.builder.RouteBuilder", ["org.apache.camel.RoutesBuilder"]),
    ("org.apache.camel.builder.ValueBuilder",
      ["org.apache.camel.Expression", "org.apache.camel.Predicate"]),
    ("org.apache.camel.support.ExpressionAdapter", ["org.apache.camel.Expression"]),
    ("org.apache.camel.support.ExpressionSupport",
      ["org.apache.camel.Expression", "org.apache.camel.Predicate"])]

end RouteScope.Camel
