import RouteScope.Proofs.Java.Reference
import RouteScope.Proofs.Java.WellFormed

/-!
# Expression classes of a file

Whether a class is an expression is found by a search through the class index.
What the search finds for the types of a file can be told from the file itself:
`IsExpressionClass` is the least set that holds the types with one of the four
names, the types that refer to a known expression, and the types that refer to
a type in the set.

* `isExpression_of_isNamedAmong`: where the search can end.
* `isExpression_of_derives`: where a path to one of the four names can begin.
* `isExpressionType_ofTree_iff`: the search finds these and no others.

In the index, a bare class has no supertypes and shares its name with no other
class, so no path leads through it, and none ends there with one of the four
names: all four belong to known types.
-/

namespace RouteScope

/-! ## Known expressions -/

namespace Camel

/-- The known types that are about routes. -/
def routeTypes : List String := [routesBuilder, "org.apache.camel.builder.RouteBuilder"]

/-- The class is a known type, and none of those that are about routes. -/
def IsExpression (id : ClassId) : Prop :=
  id < graph.size ∧ ∀ name ∈ routeTypes, graph.nameOf? id ≠ some name

instance (id : ClassId) : Decidable (IsExpression id) :=
  inferInstanceAs (Decidable (_ ∧ _))

example : ((List.range graph.size).filter (IsExpression ·)).filterMap graph.nameOf? =
    ["org.apache.camel.Expression",
      "org.apache.camel.Predicate",
      "org.apache.camel.model.language.ExpressionDefinition",
      "org.apache.camel.builder.ExpressionClause",
      "org.apache.camel.builder.ValueBuilder",
      "org.apache.camel.support.ExpressionAdapter",
      "org.apache.camel.support.ExpressionSupport"] := by
  decide

/-- A known expression has one of the four names, or a supertype that does. -/
theorem IsExpression.isNamedAmong {id : ClassId} (h : IsExpression id) :
    graph.isNamedAmong expressionTypes id = true ∨
      ∃ super ∈ graph.supertypeIds id, super < graph.size ∧
        graph.isNamedAmong expressionTypes super = true := by
  have tabled : ∀ id < graph.size, IsExpression id →
      graph.isNamedAmong expressionTypes id = true ∨
        ∃ super ∈ graph.supertypeIds id, super < graph.size ∧
          graph.isNamedAmong expressionTypes super = true := by
    decide
  exact tabled id h.1 h

/-- A known type with one of the four names is an expression. -/
theorem isExpression_of_isNamedAmong {id : ClassId}
    (h : graph.isNamedAmong expressionTypes id = true) : IsExpression id := by
  have tabled : ∀ id < graph.size, graph.isNamedAmong expressionTypes id = true →
      IsExpression id := by
    decide
  obtain ⟨entry, -, found, -, -⟩ := ClassGraph.isNamedAmong_iff.1 h
  exact tabled id (ClassGraph.lt_size_of_get?_eq_some found) h

/-- A known type with a supertype that is an expression is one, too. -/
theorem isExpression_of_mem_supertypeIds {id super : ClassId}
    (direct : super ∈ graph.supertypeIds id) (above : IsExpression super) :
    IsExpression id := by
  have tabled : ∀ id < graph.size, ∀ super ∈ graph.supertypeIds id, IsExpression super →
      IsExpression id := by
    decide
  obtain ⟨entry, found, -⟩ := ClassGraph.mem_supertypeIds_iff.1 direct
  exact tabled id (ClassGraph.lt_size_of_get?_eq_some found) super direct above

/-- Every one of the four names is that of a known type. -/
theorem exists_nameOf?_eq_some {name : String} (h : name ∈ expressionTypes) :
    ∃ id < graph.size, graph.nameOf? id = some name := by
  have tabled : ∀ name ∈ expressionTypes, ∃ id < graph.size, graph.nameOf? id = some name := by
    decide
  exact tabled name h

end Camel

namespace Java

variable {tree : Tree}

/-! ## Expression classes -/

/-- One of the names that the declaration extends or implements refers to the
class. -/
def Declaration.RefersTo (tree : Tree) (declaration : Declaration) (super : ClassId) : Prop :=
  ∃ written ∈ (header declaration.node).supertypes, Denotes tree written (.resolved super)

/-- The declared type is an expression: it has one of the four names, or it refers to a
known expression or to a declared type that is one.  Nothing depends on the order in
which types are declared. -/
inductive IsExpressionClass (tree : Tree) : ClassId → Prop where
  | named {id : ClassId} {declaration : Declaration}
      (stands : (id, declaration) ∈ ClassIndex.numbered tree)
      (name : declaration.qualifiedName (packageName? tree.root) ∈ Camel.expressionTypes) :
      IsExpressionClass tree id
  | known {id super : ClassId} {declaration : Declaration}
      (stands : (id, declaration) ∈ ClassIndex.numbered tree)
      (refers : declaration.RefersTo tree super) (expression : Camel.IsExpression super) :
      IsExpressionClass tree id
  | inherited {id super : ClassId} {declaration : Declaration}
      (stands : (id, declaration) ∈ ClassIndex.numbered tree)
      (refers : declaration.RefersTo tree super) (above : IsExpressionClass tree super) :
      IsExpressionClass tree id

/-- Only declared types are in the set. -/
theorem IsExpressionClass.mem_declared {id : ClassId} (h : IsExpressionClass tree id) :
    id ∈ (ClassIndex.ofTree tree).declared := by
  cases h with
  | named stands _ => exact (List.of_mem_zip stands).1
  | known stands _ _ => exact (List.of_mem_zip stands).1
  | inherited stands _ _ => exact (List.of_mem_zip stands).1

/-- A group of declared types that have none of the four names, and refer to no
known expression and to no declared type outside the group, has no expression
in it.  A cycle is such a group. -/
theorem not_isExpressionClass_of_group (group : ClassId → Prop)
    (closed : ∀ p ∈ ClassIndex.numbered tree, group p.1 →
      p.2.qualifiedName (packageName? tree.root) ∉ Camel.expressionTypes ∧
      ∀ super, p.2.RefersTo tree super → ¬ Camel.IsExpression super ∧
        (super ∈ (ClassIndex.ofTree tree).declared → group super))
    {id : ClassId} (inside : group id) : ¬ IsExpressionClass tree id := by
  intro h
  induction h with
  | named stands name => exact (closed _ stands inside).1 name
  | known stands refers expression => exact ((closed _ stands inside).2 _ refers).1 expression
  | inherited stands refers above ih =>
    exact ih (((closed _ stands inside).2 _ refers).2 above.mem_declared)

namespace ClassIndex

open ClassGraph (Derives)

/-- The supertypes in the index of a declared type are what it refers to. -/
theorem hasSupertype_iff_refersTo {declaration : Declaration} {entry : ClassEntry}
    {super : ClassId}
    (describes : (scopeOf tree).Describes (ofTree tree).graph declaration.node entry) :
    entry.HasSupertype super ↔ declaration.RefersTo tree super := by
  rw [describes.hasSupertype_iff]
  simp only [Declaration.RefersTo, denotes_iff_refers]

/-! ## The search -/

/-- A class with one of the four names is a known expression or a type in the
set.  It is no bare class, since one of the known types has its name. -/
theorem isExpression_of_isNamedAmong {id : ClassId}
    (h : (ofTree tree).graph.isNamedAmong Camel.expressionTypes id = true) :
    Camel.IsExpression id ∨ IsExpressionClass tree id := by
  obtain ⟨entry, name, found, hname, hmem⟩ := ClassGraph.isNamedAmong_iff.1 h
  cases origin found with
  | known hcamel =>
    exact .inl (Camel.isExpression_of_isNamedAmong
      (ClassGraph.isNamedAmong_iff.2 ⟨entry, name, hcamel, hname, hmem⟩))
  | declared stands _ =>
    have hdeclared := nameOf?_ofTree stands
    rw [ClassGraph.nameOf?, found, Option.bind_some, hname] at hdeclared
    exact .inr (.named stands (Option.some.inj hdeclared ▸ hmem))
  | external behind bare only =>
    subst bare
    obtain ⟨known, hknown, hshared⟩ := Camel.exists_nameOf?_eq_some hmem
    obtain rfl : known = id := by
      refine only known ?_
      rw [ClassGraph.nameOf?, get?_ofTree_of_lt tree hknown]
      exact hshared.trans hname.symm
    rw [size_declaredGraph] at behind
    omega

/-- A path to one of the four names begins at a known expression or a type in
the set.  The induction is over the path: what it begins with is seen from
where the class on it comes from. -/
theorem isExpression_of_derives {id ancestor : ClassId}
    (path : Derives (ofTree tree).graph id ancestor)
    (h : (ofTree tree).graph.isNamedAmong Camel.expressionTypes ancestor = true) :
    Camel.IsExpression id ∨ IsExpressionClass tree id := by
  induction path with
  | refl _ => exact isExpression_of_isNamedAmong h
  | @step id super ancestor entry found direct _ ih =>
    cases origin found with
    | known hcamel =>
      have hsuper : super < Camel.graph.size :=
        camel_supertype_lt entry (List.mem_of_getElem? hcamel) super direct
      rcases ih h with hexpression | hclass
      · exact .inl (Camel.isExpression_of_mem_supertypeIds
          (ClassGraph.mem_supertypeIds_iff.2 ⟨entry, hcamel, direct⟩) hexpression)
      · exact absurd hsuper (Nat.not_lt.2 (mem_declared_iff.1 hclass.mem_declared).1)
    | declared stands describes =>
      have hrefers := (hasSupertype_iff_refersTo describes).1 direct
      rcases ih h with hexpression | hclass
      · exact .inr (.known stands hrefers hexpression)
      · exact .inr (.inherited stands hrefers hclass)
    | external _ bare _ =>
      subst bare
      exact absurd direct (not_hasSupertype_named _ _)

theorem isNamedAmong_ofTree_of_lt {id : ClassId} (hid : id < Camel.graph.size)
    (names : List String) :
    (ofTree tree).graph.isNamedAmong names id = Camel.graph.isNamedAmong names id := by
  rw [ClassGraph.isNamedAmong, get?_ofTree_of_lt tree hid, ClassGraph.isNamedAmong]

/-- From a known expression, a path leads to one of the four names. -/
theorem exists_derives_of_isExpression (tree : Tree) {id : ClassId} (h : Camel.IsExpression id) :
    ∃ ancestor, Derives (ofTree tree).graph id ancestor ∧
      (ofTree tree).graph.isNamedAmong Camel.expressionTypes ancestor = true := by
  have start (other : ClassId) (hother : other < Camel.graph.size) :
      Derives (ofTree tree).graph other other := by
    obtain ⟨entry, found⟩ := ClassGraph.get?_eq_some_of_lt hother
    exact .refl ((get?_ofTree_of_lt tree hother).trans found)
  rcases h.isNamedAmong with hnamed | ⟨super, hdirect, hsuper, hnamed⟩
  · exact ⟨id, start id h.1, (isNamedAmong_ofTree_of_lt h.1 _).trans hnamed⟩
  · obtain ⟨entry, found, direct⟩ := ClassGraph.mem_supertypeIds_iff.1 hdirect
    exact ⟨super, .step ((get?_ofTree_of_lt tree h.1).trans found) direct (start super hsuper),
      (isNamedAmong_ofTree_of_lt hsuper _).trans hnamed⟩

/-- From a type that refers to a class, every path from that class goes on. -/
theorem derives_of_refersTo {id super ancestor : ClassId} {declaration : Declaration}
    (stands : (id, declaration) ∈ numbered tree) (refers : declaration.RefersTo tree super)
    (path : Derives (ofTree tree).graph super ancestor) :
    Derives (ofTree tree).graph id ancestor := by
  obtain ⟨entry, found, describes⟩ := (ofTree_spec tree).2 _ stands
  exact .step found ((hasSupertype_iff_refersTo describes).2 refers) path

/-- From a type in the set, a path leads to one of the four names. -/
theorem exists_derives_of_isExpressionClass {id : ClassId} (h : IsExpressionClass tree id) :
    ∃ ancestor, Derives (ofTree tree).graph id ancestor ∧
      (ofTree tree).graph.isNamedAmong Camel.expressionTypes ancestor = true := by
  induction h with
  | @named id declaration stands name =>
    obtain ⟨entry, found, hname⟩ := Option.bind_eq_some_iff.1 (nameOf?_ofTree stands)
    exact ⟨id, .refl found, ClassGraph.isNamedAmong_iff.2 ⟨entry, _, found, hname, name⟩⟩
  | known stands refers expression =>
    obtain ⟨ancestor, path, hnamed⟩ := exists_derives_of_isExpression tree expression
    exact ⟨ancestor, derives_of_refersTo stands refers path, hnamed⟩
  | inherited stands refers _ ih =>
    obtain ⟨ancestor, path, hnamed⟩ := ih
    exact ⟨ancestor, derives_of_refersTo stands refers path, hnamed⟩

/-- The search finds the known expressions and the types in the set. -/
theorem isExpressionType_ofTree_iff {id : ClassId} :
    (ofTree tree).graph.isExpressionType (some id) = true ↔
      Camel.IsExpression id ∨ IsExpressionClass tree id := by
  simp only [ClassGraph.isExpressionType, Option.any_some, List.any_eq_true,
    ClassGraph.mem_lineage_iff]
  constructor
  · rintro ⟨ancestor, path, hnamed⟩
    exact isExpression_of_derives path hnamed
  · rintro (hexpression | hclass)
    · exact exists_derives_of_isExpression tree hexpression
    · exact exists_derives_of_isExpressionClass hclass

end ClassIndex

end Java

end RouteScope
