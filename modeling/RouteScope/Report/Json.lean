import RouteScope.Json.Basic
import RouteScope.Report.Basic

/-!
# Reports as JSON

A report for programs.  The component of an endpoint and the line of a bean's
declaration are left out when there are none.
-/

namespace RouteScope

open Json

/-- A member that is left out when it is missing. -/
def memberOf (key : String) (value? : Option Json) : List (String × Json) :=
  value?.toList.map (key, ·)

def RouteStart.toJson (start : RouteStart) : Json :=
  record [("line", natural start.line), ("method", text start.method)]

def EndpointUse.toJson (endpoint : EndpointUse) : Json :=
  record ([("line", natural endpoint.line), ("role", text endpoint.role.name),
      ("uri", text endpoint.uri)] ++
    memberOf "component" (endpoint.component?.map text) ++
    [("has_query", bool endpoint.hasQuery), ("string_format", bool endpoint.stringFormat),
      ("validate", bool endpoint.validate),
      ("in_route_start", bool endpoint.inRouteStart), ("display", text endpoint.display)])

def ExpressionUse.toJson (expression : ExpressionUse) : Json :=
  record [("line", natural expression.line), ("language", Json.text expression.language),
    ("text", Json.text expression.text), ("predicate", bool expression.predicate)]

def BeanUse.toJson (bean : BeanUse) : Json :=
  record ([("line", natural bean.line), ("class", text bean.className)] ++
    memberOf "declared_at" (bean.declaredAt?.map natural))

def Report.toJson (report : Report) : Json :=
  record [("file", text report.file),
    ("route_starts", array (report.routeStarts.map RouteStart.toJson)),
    ("endpoints", array (report.endpoints.map EndpointUse.toJson)),
    ("expressions", array (report.expressions.map ExpressionUse.toJson)),
    ("beans", array (report.beans.map BeanUse.toJson)),
    ("skipped_literals", natural report.skippedLiterals),
    ("expression_classes", texts report.expressionClasses),
    ("route_builders", texts report.routeBuilders),
    ("handler_methods", texts report.handlerMethods)]

end RouteScope
