import RouteScope.Camel.Names
import RouteScope.Java.Scope

/-!
# Class index of a file

The class index of a Java file is a class graph of three parts: the known types
of Camel, the types that the file declares in document order, and bare classes
for all other types that the file refers to by a qualified name.

All declared types get their numbers before any of them is described, so a
reference may point forward as well as backward.
-/

namespace RouteScope

namespace Camel

/-- The class graph of the known types of Camel.  Their supertypes count as
implemented. -/
def graph : ClassGraph :=
  let bare : ClassGraph := ⟨knownTypes.map fun (name, _) => .named name⟩
  ⟨knownTypes.map fun (name, supertypes) =>
    { ClassEntry.named name with
      implemented := (supertypes.filterMap bare.find?).map .resolved }⟩

end Camel

namespace Java

/-- The graph of all classes that a file declares or refers to, with the numbers of the
declared types in document order. -/
structure ClassIndex where
  graph : ClassGraph
  declared : List ClassId

namespace ClassIndex

/-- The first declared type with the simple name. -/
def findDeclared? (index : ClassIndex) (simpleName : String) : Option ClassId :=
  index.declared.find? fun id =>
    ((index.graph.get? id).bind (·.simpleName?)) == some simpleName

/-- The descriptors of the declared types, with their numbers. -/
def declaredEntries (index : ClassIndex) : List (ClassId × ClassEntry) :=
  index.declared.filterMap fun id => (index.graph.get? id).map (id, ·)

/-- Adds a bare class for each declaration. -/
def declareAll (package? : Option String) (graph : ClassGraph)
    (declarations : List Declaration) : ClassGraph :=
  declarations.foldl
    (fun graph declaration => graph.add (.named (declaration.qualifiedName package?))) graph

/-- Describes one declared type.  It keeps the name under which it was declared. -/
def describeOne (scope : Scope) (graph : ClassGraph) (id : ClassId)
    (declaration : Declaration) : ClassGraph :=
  let (entry, graph) := scope.describe graph declaration.node
  graph.set id { entry with qualifiedName? := (graph.get? id).bind (·.qualifiedName?) }

/-- Describes the declared types one after the other. -/
def describeAll (scope : Scope) (graph : ClassGraph) :
    List (ClassId × Declaration) → ClassGraph
  | [] => graph
  | (id, declaration) :: rest =>
      describeAll scope (describeOne scope graph id declaration) rest

/-- The class index of a file with the given syntax tree. -/
def ofTree (tree : Tree) : ClassIndex :=
  let root := tree.root
  let declarations := declarations root
  let declared := List.range' Camel.graph.size declarations.length
  let numbered := declared.zip declarations
  let graph := declareAll (packageName? root) Camel.graph declarations
  { graph := describeAll (.ofFile root numbered) graph numbered
    declared }

end ClassIndex

end Java

end RouteScope
