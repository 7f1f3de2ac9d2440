import RouteScope.ClassGraph.Basic
import RouteScope.Failure
import RouteScope.Json.Decode
import RouteScope.Json.Printer
import RouteScope.Json.Reader

/-!
# Class graphs as JSON

A class graph is handed over as the list of its descriptors.  A descriptor is
an object with a fixed set of fields, of which a reader wants only the name of
a method and takes the rest as empty when missing.  Other fields are passed
over, but no field may occur twice.  A descriptor may also be given as the list
of its fields in their fixed order, where the last ones may be missing.

A reference is an object with one field, which tells whether it is resolved.
Numbers of classes are below 2⁶⁴.
-/

namespace RouteScope

open Json

/-! ## Writing -/

def TypeRef.toJson : TypeRef → Json
  | resolved id => record [("resolved", natural id)]
  | unresolved name => record [("unresolved", text name)]

def Method.toJson (method : Method) : Json :=
  record [("name", text method.name), ("annotations", texts method.annotations)]

def ClassEntry.toJson (entry : ClassEntry) : Json :=
  record [("qualified_name", optional (entry.qualifiedName?.map text)),
    ("implements", array (entry.implemented.map TypeRef.toJson)),
    ("extends", array (entry.extended.map TypeRef.toJson)),
    ("superclass", optional (entry.superclass?.map TypeRef.toJson)),
    ("annotations", texts entry.annotations),
    ("methods", array (entry.methods.map Method.toJson))]

def ClassGraph.toJson (graph : ClassGraph) : Json :=
  array (graph.entries.map ClassEntry.toJson)

/-! ## Reading -/

def ClassId.ofJson? (value : Json) : Option ClassId :=
  value.natural?.filter (· < UInt64.size)

def TypeRef.ofJson? : Json → Option TypeRef
  | object [(some "resolved", value)] => (ClassId.ofJson? value).map resolved
  | object [(some "unresolved", value)] => value.text?.map unresolved
  | _ => none

def Method.ofJson? (value : Json) : Option Method := do
  match ← value.fields? ["name", "annotations"] with
  | [some name, annotations?] =>
      return { name := ← name.text?
               annotations := ← listFieldOf? Json.text? annotations? }
  | _ => none

def ClassEntry.ofJson? (value : Json) : Option ClassEntry := do
  match ← value.fields? ["qualified_name", "implements", "extends", "superclass",
      "annotations", "methods"] with
  | [qualifiedName?, implemented?, extended?, superclass?, annotations?, methods?] =>
      return { qualifiedName? := ← optionFieldOf? Json.text? qualifiedName?
               implemented := ← listFieldOf? TypeRef.ofJson? implemented?
               extended := ← listFieldOf? TypeRef.ofJson? extended?
               superclass? := ← optionFieldOf? TypeRef.ofJson? superclass?
               annotations := ← listFieldOf? Json.text? annotations?
               methods := ← listFieldOf? Method.ofJson? methods? }
  | _ => none

namespace ClassGraph

/-- The class graph that a value spells. -/
def ofJson? (value : Json) : Option ClassGraph :=
  (listOf? ClassEntry.ofJson? value).map (⟨·⟩)

/-- The class graph that a JSON text spells. -/
def read (json : String) : Except Failure ClassGraph :=
  match (Json.read? json).bind ofJson? with
  | some graph => .ok graph
  | none => .error (.unwritable "invalid class arena: not a JSON list of classes")

end ClassGraph

end RouteScope
