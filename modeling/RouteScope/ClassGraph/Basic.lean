import RouteScope.Text.Split

/-!
# Class graphs

A class graph is a list of descriptors of classes and interfaces.  A class is
known by its number, which is its position in the list, and descriptors refer
to each other by these numbers.  A supertype that could not be found is kept by
the name under which it was written.  Nothing forbids cycles, or numbers past
the end of the list.
-/

namespace RouteScope

/-- The number of a class in a class graph. -/
abbrev ClassId := Nat

/-- A reference from one class to another, by its number, or under its written name if
it could not be found. -/
inductive TypeRef where
  | resolved (id : ClassId)
  | unresolved (name : String)
deriving DecidableEq, Repr

namespace TypeRef

/-- The number of the class that is referred to, if it was found. -/
def id? : TypeRef → Option ClassId
  | resolved id => some id
  | unresolved _ => none

end TypeRef

/-- A method with the qualified names of its annotations. -/
structure Method where
  name : String
  annotations : List String := []
deriving DecidableEq, Repr

/-- The descriptor of a class or an interface.  An anonymous class has no qualified
name, and only a class at the root has no superclass. -/
structure ClassEntry where
  qualifiedName? : Option String := none
  implemented : List TypeRef := []
  extended : List TypeRef := []
  superclass? : Option TypeRef := none
  annotations : List String := []
  methods : List Method := []
deriving DecidableEq, Repr

namespace ClassEntry

/-- A bare class, of which only the qualified name is known. -/
def named (qualifiedName : String) : ClassEntry :=
  { qualifiedName? := some qualifiedName }

/-- The last segment of the qualified name. -/
def simpleName? (entry : ClassEntry) : Option String :=
  entry.qualifiedName?.map (Text.afterLast '.')

/-- The references to direct supertypes: those implemented, those extended, and
the superclass. -/
def supertypes (entry : ClassEntry) : List TypeRef :=
  entry.implemented ++ entry.extended ++ entry.superclass?.toList

end ClassEntry

/-- Descriptors of classes, each known by its position. -/
structure ClassGraph where
  entries : List ClassEntry := []
deriving DecidableEq, Repr

namespace ClassGraph

def size (graph : ClassGraph) : Nat :=
  graph.entries.length

def get? (graph : ClassGraph) (id : ClassId) : Option ClassEntry :=
  graph.entries[id]?

def add (graph : ClassGraph) (entry : ClassEntry) : ClassGraph :=
  { entries := graph.entries ++ [entry] }

/-- Replaces the class with the given number; changes nothing if there is none. -/
def set (graph : ClassGraph) (id : ClassId) (entry : ClassEntry) : ClassGraph :=
  { entries := graph.entries.set id entry }

def find? (graph : ClassGraph) (qualifiedName : String) : Option ClassId :=
  graph.entries.findIdx? (·.qualifiedName? == some qualifiedName)

def findBySimpleName? (graph : ClassGraph) (simpleName : String) : Option ClassId :=
  graph.entries.findIdx? (·.simpleName? == some simpleName)

/-- The number of the first class with the qualified name, which is added as a
bare class if there is none. -/
def intern (graph : ClassGraph) (qualifiedName : String) : ClassId × ClassGraph :=
  match graph.find? qualifiedName with
  | some id => (id, graph)
  | none => (graph.size, graph.add (.named qualifiedName))

/-- The numbers of the direct supertypes of a class, as far as they are
resolved. -/
def supertypeIds (graph : ClassGraph) (id : ClassId) : List ClassId :=
  match graph.get? id with
  | some entry => entry.supertypes.filterMap TypeRef.id?
  | none => []

@[simp] theorem size_add (graph : ClassGraph) (entry : ClassEntry) :
    (graph.add entry).size = graph.size + 1 := by
  simp [add, size]

@[simp] theorem size_set (graph : ClassGraph) (id : ClassId) (entry : ClassEntry) :
    (graph.set id entry).size = graph.size := by
  simp [set, size]

theorem get?_eq_some_of_lt {graph : ClassGraph} {id : ClassId} (h : id < graph.size) :
    ∃ entry, graph.get? id = some entry :=
  ⟨graph.entries[id], List.getElem?_eq_getElem h⟩

theorem lt_size_of_get?_eq_some {graph : ClassGraph} {id : ClassId} {entry : ClassEntry}
    (found : graph.get? id = some entry) : id < graph.size :=
  (List.getElem?_eq_some_iff.1 found).1

theorem get?_add_of_lt {graph : ClassGraph} {id : ClassId} (entry : ClassEntry)
    (h : id < graph.size) : (graph.add entry).get? id = graph.get? id :=
  List.getElem?_append_left h

@[simp] theorem get?_add_size (graph : ClassGraph) (entry : ClassEntry) :
    (graph.add entry).get? graph.size = some entry := by
  simp [get?, add, size]

theorem get?_set_self {graph : ClassGraph} {id : ClassId} (entry : ClassEntry)
    (h : id < graph.size) : (graph.set id entry).get? id = some entry :=
  List.getElem?_set_self h

theorem get?_set_of_ne {graph : ClassGraph} {id other : ClassId} (entry : ClassEntry)
    (h : other ≠ id) : (graph.set id entry).get? other = graph.get? other :=
  List.getElem?_set_ne h.symm

end ClassGraph

end RouteScope
