import RouteScope.Text.Split

/-!
# Endpoint URIs

An endpoint URI such as `seda:orders?size=10` names a component before its
first colon, and may carry a query behind a question mark.  Neither part is
checked any further.
-/

namespace RouteScope.Endpoint

/-- Whether the URI carries query parameters. -/
def hasQuery (uri : String) : Bool :=
  uri.toList.contains '?'

/-- The component name, which is the part before the first colon; `none` if the
URI has no colon. -/
def component? (uri : String) : Option String :=
  (Text.splitFirst? ':' uri).map (·.1)

end RouteScope.Endpoint
