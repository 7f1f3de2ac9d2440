import RouteScope.Camel.Names
import RouteScope.ClassGraph.Basic

/-!
# The role of a class in routes

Three questions about classes and methods.  Whether a class is an expression or
a language is decided by everything it derives from: `closure` collects the
classes that can be reached over supertypes.  Whether it contributes routes is
decided by its direct supertypes alone, and whether a method handles messages
by its own annotations.
-/

namespace RouteScope.ClassGraph

/-- The classes among `unseen` that can be reached from the pending ones over
supertypes without leaving `unseen`, each listed once. -/
def closure (graph : ClassGraph) (unseen : List ClassId) : List ClassId → List ClassId
  | [] => []
  | id :: pending =>
      if id ∈ unseen then
        id :: closure graph (unseen.erase id) (graph.supertypeIds id ++ pending)
      else
        closure graph unseen pending
termination_by pending => (unseen.length, pending.length)
decreasing_by
  · rename_i seen
    rw [List.length_erase_of_mem seen]
    have := List.length_pos_of_mem seen
    exact Prod.Lex.left _ _ (by omega)
  · exact Prod.Lex.right _ (by simp)

/-- The classes that a class derives from, itself included.  A number past the
end stands for no class. -/
def lineage (graph : ClassGraph) (id : ClassId) : List ClassId :=
  graph.closure (List.range graph.size) [id]

/-- Whether the class with the given number has one of the names. -/
def isNamedAmong (graph : ClassGraph) (names : List String) (id : ClassId) : Bool :=
  ((graph.get? id).bind (·.qualifiedName?)).any names.contains

/-- Whether a class, or anything it derives from, is an expression or a
language.  Where there is no class there is no such type. -/
def isExpressionType (graph : ClassGraph) (id? : Option ClassId) : Bool :=
  id?.any fun id => (graph.lineage id).any (graph.isNamedAmong Camel.expressionTypes)

/-- Whether a direct supertype of the class is the interface of classes that
contribute routes. -/
def contributesRoutes (graph : ClassGraph) (id : ClassId) : Bool :=
  (graph.supertypeIds id).any (graph.isNamedAmong [Camel.routesBuilder])

end RouteScope.ClassGraph

namespace RouteScope.Method

/-- Whether the method is marked as the one that handles messages. -/
def isHandler (method : Method) : Bool :=
  method.annotations.contains Camel.handlerAnnotation

end RouteScope.Method
