import RouteScope.ClassGraph.Basic
import RouteScope.Java.Declaration

/-!
# What names mean in a file

A written name means, in this order, a type declared in the file, a type that
is imported, or the qualified name as which it is written.  A name that is
neither declared nor imported nor dotted means nothing that could be found.

Every suffix of a nesting path names the declared type; where two types claim
a name the first one has it.  Of two imports with the same simple name the
later one counts.
-/

namespace RouteScope.Java

/-- The names that are known in a file: those of declared types, of which the first entry
counts, and the simple and qualified names of imported types, of which the last one
does. -/
structure Scope where
  declared : List (String × ClassId)
  imported : List (String × String)

/-- The names under which a nested type is known: all suffixes of its nesting
path, the longest first. -/
def suffixes : List String → List String
  | [] => []
  | name :: path => ".".intercalate (name :: path) :: suffixes path

namespace Scope

/-- The scope of a file whose declarations have the given numbers. -/
def ofFile (root : Node) (declared : List (ClassId × Declaration)) : Scope where
  declared := declared.flatMap fun (id, declaration) =>
    (suffixes declaration.path).map (·, id)
  imported := importedNames root

/-- The qualified name of an imported type. -/
def import? (scope : Scope) (simpleName : String) : Option String :=
  scope.imported.reverse.lookup simpleName

/-- The qualified name that a name means if it is not declared in the file.
For `Outer.Inner` it is enough that `Outer` is imported. -/
def qualify? (scope : Scope) (written : String) : Option String :=
  match Text.splitFirst? '.' written with
  | some (outer, inner) =>
      some (match scope.import? outer with
        | some qualified => qualified ++ "." ++ inner
        | none => written)
  | none => scope.import? written

/-- What a written name refers to.  A class that is known by its qualified name
alone is added to the graph. -/
def resolve (scope : Scope) (graph : ClassGraph) (written : String) :
    TypeRef × ClassGraph :=
  match scope.declared.lookup written with
  | some id => (.resolved id, graph)
  | none =>
      match scope.qualify? written with
      | some qualified =>
          let (id, graph) := graph.intern qualified
          (.resolved id, graph)
      | none => (.unresolved written, graph)

/-- What written names refer to, one after the other. -/
def resolveAll (scope : Scope) (graph : ClassGraph) : List String → List TypeRef × ClassGraph
  | [] => ([], graph)
  | written :: names =>
      let (ref, graph) := scope.resolve graph written
      let (refs, graph) := scope.resolveAll graph names
      (ref :: refs, graph)

/-- The qualified name of an annotation.  One that is neither dotted nor
imported keeps its written name. -/
def annotationName (scope : Scope) (written : String) : String :=
  if written.toList.contains '.' then written else (scope.import? written).getD written

/-- The qualified names of the annotations of a declaration. -/
def annotations (scope : Scope) (declaration : Node) : List String :=
  (annotationNames declaration).map scope.annotationName

/-- The named methods of a declared type. -/
def methods (scope : Scope) (declaration : Node) : List Method :=
  (methodDeclarations declaration).filterMap fun method =>
    (declaredName? method).map fun name => { name, annotations := scope.annotations method }

/-- The descriptor of a declared type, and the graph with the classes that its
supertypes refer to. -/
def describe (scope : Scope) (graph : ClassGraph) (declaration : Node) :
    ClassEntry × ClassGraph :=
  let header := header declaration
  let (superclass, graph) := scope.resolveAll graph header.superclass?.toList
  let (extended, graph) := scope.resolveAll graph header.extended
  let (implemented, graph) := scope.resolveAll graph header.implemented
  ({ implemented
     extended := superclass ++ extended
     superclass? := superclass.head?
     annotations := scope.annotations declaration
     methods := scope.methods declaration }, graph)

end Scope

end RouteScope.Java
