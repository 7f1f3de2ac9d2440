import RouteScope.ClassGraph.Role
import RouteScope.Endpoint.Uri
import RouteScope.Endpoint.Wrap
import RouteScope.Java.Recognizer
import RouteScope.Recognition.Registry
import RouteScope.Report.Basic
import RouteScope.Settings.Basic

/-!
# Scanning a file

A scan asks the registry about every call and every string literal of a file,
and the class graph about every declared class.  The entries of a report come
from the nodes one by one, so each list is in document order.

A literal in broken source may have no value.  A report cannot say what such a
literal stands for, so there is none if one of them would have to be read.
-/

namespace RouteScope.Report

open Java

variable (registry : Registry Node) (settings : Settings)

/-- The name under which a class is shown. -/
def shownName (entry : ClassEntry) : String :=
  entry.qualifiedName?.getD "<anonymous>"

def routeStartAt? (node : Node) : Option RouteStart := do
  guard (node.kind == "method_invocation")
  guard (registry.matchesAny .routeStart node).value
  return { line := node.line, method := (methodName? node).getD "" }

def beanAt? (graph : ClassGraph) (node : Node) : Option BeanUse := do
  guard (node.kind == "method_invocation")
  let id ← (registry.beanClass? node).value
  return {
    line := node.line
    className := ((graph.get? id).map shownName).getD ""
    declaredAt? := (registry.beanNode? node).value.map (·.line) }

/-- Whether the node is a string literal that can be inspected. -/
def isRead (node : Node) : Bool :=
  isLiteral node && (registry.matchesAny .inspectable node).value

/-- Whether the node is a string literal that is only a part of a value. -/
def isSkipped (node : Node) : Bool :=
  isLiteral node && !(registry.matchesAny .inspectable node).value

/-- The value of the literal at a node, if it can be inspected. -/
def readAt? (node : Node) : Option String :=
  if isRead registry node then literalValue? node else none

/-- The role of the endpoint at a node; consuming goes before sending. -/
def roleAt? (node : Node) : Option Role :=
  if (registry.matchesAny .consumer node).value then some .consumer
  else if (registry.matchesAny .producer node).value then some .producer
  else none

def endpointAt? (node : Node) : Option EndpointUse := do
  let uri ← readAt? registry node
  let role ← roleAt? registry node
  return {
    line := node.line
    role
    uri
    component? := Endpoint.component? uri
    hasQuery := Endpoint.hasQuery uri
    stringFormat := (registry.matchesAny .stringFormat node).value
    validate := !(registry.matchesAny .skipValidation node).value
    inRouteStart := (registry.inRouteStart node).value
    display := Endpoint.wrap settings.display.separator settings.display.lineBreak
      settings.display.wrapWidth uri }

/-- The expression at a node.  Its language is the first known one that fits. -/
def expressionAt? (node : Node) : Option ExpressionUse := do
  let text ← readAt? registry node
  let language ← settings.languages.known.find? fun language =>
    (registry.matchesAny (.expression language) node).value
  return {
    line := node.line
    language := Language.canonical language
    text
    predicate := (registry.matchesAny (.predicate language) node).value }

/-- The methods of a declared class that handle messages. -/
def handlersOf (entry : ClassEntry) : List String :=
  (entry.methods.filter (·.isHandler)).map fun method =>
    shownName entry ++ "." ++ method.name

/-- What a registry and a class index find among the given nodes of a file. -/
def ofNodes (file : String) (index : ClassIndex) (nodes : List Node) : Report where
  file
  routeStarts := nodes.filterMap (routeStartAt? registry)
  endpoints := nodes.filterMap (endpointAt? registry settings)
  expressions := nodes.filterMap (expressionAt? registry settings)
  beans := nodes.filterMap (beanAt? registry index.graph)
  skippedLiterals := nodes.countP (isSkipped registry)
  expressionClasses := (index.declaredEntries.filter fun (id, _) =>
    index.graph.isExpressionType (some id)).map fun (_, entry) => shownName entry
  routeBuilders := (index.declaredEntries.filter fun (id, _) =>
    index.graph.contributesRoutes id).map fun (_, entry) => shownName entry
  handlerMethods := index.declaredEntries.flatMap fun (_, entry) => handlersOf entry

/-- The registry for a Java file with the given class index. -/
def javaRegistry (settings : Settings) (index : ClassIndex) : Registry Node :=
  (Registry.ofCandidates [recognizer settings.recognizers.java index]).value

/-- The report on a Java file.  A literal without a value is not reported. -/
def ofTree (settings : Settings) (file : String) (tree : Tree) : Report :=
  let index := ClassIndex.ofTree tree
  ofNodes (javaRegistry settings index) settings file index tree.nodes

/-- Whether every literal that a scan reads has a value. -/
def isReadable (settings : Settings) (tree : Tree) : Bool :=
  let registry := javaRegistry settings (ClassIndex.ofTree tree)
  tree.nodes.all fun node => !(isBrokenLiteral node && isRead registry node)

/-- The report on a Java file, unless a literal would have to be read that has
no value. -/
def ofTree? (settings : Settings) (file : String) (tree : Tree) : Option Report :=
  if isReadable settings tree then some (ofTree settings file tree) else none

end RouteScope.Report
