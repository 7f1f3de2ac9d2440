import RouteScope.ClassGraph.Basic
import RouteScope.Java.TypeName
import RouteScope.Tree.Walk

/-!
# Type declarations

What a Java file says about its types, read off the syntax tree: the package,
the imports, and the declarations with their written supertypes.  Nothing is
looked up here, so all names are as written.

A type is declared by a class, an interface, an enum or a record.  Its nesting
path consists of the names of the declarations around it and its own name, the
outermost first.  A declaration counts only if all of these have a name.
-/

namespace RouteScope.Java

/-- The kinds of nodes that declare a type. -/
def declarationKinds : List String :=
  ["class_declaration", "interface_declaration", "enum_declaration", "record_declaration"]

def isDeclaration (node : Node) : Bool :=
  declarationKinds.contains node.kind

def declaredName? (node : Node) : Option String :=
  (node.field? "name").map (·.text)

/-- Whether the node is a name, qualified or not. -/
def isName (node : Node) : Bool :=
  node.kind == "scoped_identifier" || node.kind == "identifier"

/-- The package of a file, exactly as it is written. -/
def packageName? (root : Node) : Option String := do
  let declaration ← root.childOfKind? "package_declaration"
  let name ← declaration.namedChildren.find? isName
  return name.text

/-- The simple and the qualified name of an imported type.  A static import
names members and an import on demand names no type at all, so they give
nothing. -/
def importedName? (node : Node) : Option (String × String) := do
  guard (node.kind == "import_declaration")
  guard !(node.children.any fun part => part.kind == "static" || part.kind == "asterisk")
  let name ← node.namedChildren.find? isName
  let qualified := Text.withoutBlanks name.text
  return (Text.afterLast '.' qualified, qualified)

/-- The imported types of a file, in order. -/
def importedNames (root : Node) : List (String × String) :=
  root.namedChildren.filterMap importedName?

/-- The names of the declarations around a declaration and its own, the
outermost first; `none` if one of them has no name. -/
def nestingPath? (declaration : Node) : Option (List String) :=
  ((declaration :: (Ancestry.ancestors declaration).filter isDeclaration).mapM
    declaredName?).map List.reverse

/-- A node that declares a type, with its nesting path. -/
structure Declaration where
  node : Node
  path : List String

/-- The declarations of a file, in document order. -/
def declarations (root : Node) : List Declaration :=
  (root.descendants.filter isDeclaration).filterMap fun node =>
    (nestingPath? node).map (⟨node, ·⟩)

/-- The name of the type, prefixed by the package if there is one. -/
def Declaration.qualifiedName (package? : Option String) (declaration : Declaration) :
    String :=
  ".".intercalate (package?.toList ++ declaration.path)

/-- The supertypes that a declaration names, as they are written: the class that a class
extends, the interfaces that an interface extends, and those that a class, an enum or
a record implements. -/
structure Header where
  superclass? : Option String := none
  extended : List String := []
  implemented : List String := []

/-- The types that are named in the type list of a clause. -/
def typeList (clause? : Option Node) : List String :=
  match clause?.bind (·.childOfKind? "type_list") with
  | some list => list.namedChildren.map (typeName ·.tree)
  | none => []

/-- The supertypes that the declaration names. -/
def header (declaration : Node) : Header :=
  match declaration.kind with
  | "class_declaration" =>
      { superclass? := do
          let clause ← declaration.field? "superclass"
          let type ← clause.namedChildren.head?
          return typeName type.tree
        implemented := typeList (declaration.field? "interfaces") }
  | "interface_declaration" =>
      { extended := typeList (declaration.childOfKind? "extends_interfaces") }
  | "enum_declaration" | "record_declaration" =>
      { implemented := typeList (declaration.field? "interfaces") }
  | _ => {}

/-- The names of the annotations among the modifiers of a declaration. -/
def annotationNames (declaration : Node) : List String :=
  match declaration.childOfKind? "modifiers" with
  | some modifiers =>
      (modifiers.namedChildren.filter fun part =>
        part.kind == "marker_annotation" || part.kind == "annotation").filterMap declaredName?
  | none => []

/-- The declarations of the methods in the body of a type.  Those of an enum
stand in a part of the body of their own. -/
def methodDeclarations (declaration : Node) : List Node :=
  match declaration.field? "body" with
  | some body =>
      ((body.childOfKind? "enum_body_declarations").getD body).namedChildren.filter
        (·.kind == "method_declaration")
  | none => []

end RouteScope.Java
