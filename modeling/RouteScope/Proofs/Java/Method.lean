import RouteScope.ClassGraph.Role
import RouteScope.Proofs.Java.Nesting
import RouteScope.Proofs.Java.Reference
import RouteScope.Proofs.Tree.Order

/-!
# Methods and annotations

The class index has the methods of a type from the body of its declaration, and the
names of annotations from the modifiers of types and methods.  This module says which
nodes of the file these methods are, for which type each of them counts, and which of
them carry the annotation for message handlers.

* `HandlesMessages`: the annotation, written with its qualified name or imported.
* `IsMethodOf`: the place of a method in the body of a type.
* `isAround_of_isMethodOf`, `not_isMethodOf_of_classBody`: the type for which a method
  counts is the nearest one around it; the body of an anonymous class or an enum
  constant belongs to none.
-/

namespace RouteScope.Java

variable {tree : Tree} {declaration method : Node}

/-! ## Annotations -/

/-- An annotation with this name stands among the modifiers of the declaration. -/
def CarriesAnnotation (declaration : Node) (written : String) : Prop :=
  ∃ modifiers marker, declaration.childOfKind? "modifiers" = some modifiers ∧
    marker ∈ modifiers.namedChildren ∧
    (marker.kind = "marker_annotation" ∨ marker.kind = "annotation") ∧
    declaredName? marker = some written

/-- The method carries the annotation for message handlers: under its qualified name,
or under its simple name where that is imported. -/
def HandlesMessages (tree : Tree) (method : Node) : Prop :=
  CarriesAnnotation method "org.apache.camel.Handler" ∨
    CarriesAnnotation method "Handler" ∧
      Imports tree.root "Handler" "org.apache.camel.Handler"

theorem mem_annotationNames_iff {written : String} :
    written ∈ annotationNames declaration ↔ CarriesAnnotation declaration written := by
  unfold annotationNames CarriesAnnotation
  cases declaration.childOfKind? "modifiers" with
  | none => simp
  | some modifiers => simp [List.mem_filterMap, List.mem_filter, and_assoc]

/-- An annotation is qualified as it is written or by an import. -/
theorem annotationName_eq_iff {written qualified : String} (dotted : '.' ∈ qualified.toList) :
    Scope.annotationName (ClassIndex.scopeOf tree) written = qualified ↔
      written = qualified ∨
        '.' ∉ written.toList ∧ Imports tree.root written qualified := by
  unfold Scope.annotationName
  by_cases hdot : '.' ∈ written.toList
  · simp [hdot]
  · have hne : written ≠ qualified := fun heq => hdot (heq ▸ dotted)
    rw [← import?_iff]
    cases (ClassIndex.scopeOf tree).import? written <;> simp [hdot, hne]

theorem isHandler_iff (name : String) :
    Method.isHandler ⟨name, (ClassIndex.scopeOf tree).annotations method⟩ = true ↔
      HandlesMessages tree method := by
  have dotted : '.' ∈ "org.apache.camel.Handler".toList := by decide
  have hsimple : Text.afterLast '.' "org.apache.camel.Handler" = "Handler" := by decide
  unfold Method.isHandler HandlesMessages
  rw [List.contains_iff_mem, Scope.annotations, List.mem_map, ← mem_annotationNames_iff,
    ← mem_annotationNames_iff]
  constructor
  · rintro ⟨written, hwritten, hqualified⟩
    rcases (annotationName_eq_iff dotted).1 hqualified with rfl | ⟨-, imported⟩
    · exact .inl hwritten
    · obtain rfl : written = "Handler" := imported.simple_eq.trans hsimple
      exact .inr ⟨hwritten, imported⟩
  · rintro (hwritten | ⟨hwritten, imported⟩)
    · exact ⟨_, hwritten, (annotationName_eq_iff dotted).2 (.inl rfl)⟩
    · exact ⟨_, hwritten, (annotationName_eq_iff dotted).2 (.inr ⟨by decide, imported⟩)⟩

/-! ## Methods of a type -/

/-- The method stands in the body of the declaration.  The methods of an enum stand
behind its constants, in a part of the body of their own. -/
def IsMethodOf (declaration method : Node) : Prop :=
  method.kind = "method_declaration" ∧ method.tree.label.named = true ∧
    ∃ body, declaration.field? "body" = some body ∧
      method.parent? = some ((body.childOfKind? "enum_body_declarations").getD body)

/-- The part of a body that holds the methods is the body or stands right below it. -/
theorem eq_or_parent?_of_getD {body holder : Node}
    (h : (body.childOfKind? "enum_body_declarations").getD body = holder) :
    holder = body ∨ holder.kind = "enum_body_declarations" ∧ holder.parent? = some body := by
  cases hpart : body.childOfKind? "enum_body_declarations" with
  | none =>
    rw [hpart] at h
    exact .inl h.symm
  | some part =>
    obtain rfl : part = holder := by rwa [hpart] at h
    exact .inr ⟨by simpa using List.find?_some hpart,
      Node.parent?_of_mem_namedChildren (List.mem_of_find?_eq_some hpart)⟩

open Classical in
/-- The methods of a declaration are nodes of the file, in document order. -/
theorem methodDeclarations_eq_filter (hdeclaration : declaration ∈ tree.nodes) :
    methodDeclarations declaration =
      tree.nodes.filter fun method => IsMethodOf declaration method := by
  unfold methodDeclarations
  cases hbody : declaration.field? "body" with
  | none => simp [IsMethodOf, hbody]
  | some body =>
    have hmem : (body.childOfKind? "enum_body_declarations").getD body ∈ tree.nodes := by
      have hbodyMem := mem_nodes_of_mem_children hdeclaration
        (Node.mem_children_of_parent? (Node.parent?_of_field? hbody))
      rcases eq_or_parent?_of_getD rfl with heq | ⟨-, hparent⟩
      · rwa [heq]
      · exact mem_nodes_of_mem_children hbodyMem (Node.mem_children_of_parent? hparent)
    dsimp only
    rw [Node.namedChildren, Node.children_eq_filter hmem, List.filter_filter, List.filter_filter]
    refine List.filter_congr fun method _ => ?_
    rw [Bool.eq_iff_iff]
    simp [IsMethodOf, hbody, and_assoc]

/-- No body of a declared type is itself the declaration of a type. -/
def HasBodies (tree : Tree) : Prop :=
  ∀ node ∈ tree.nodes, isDeclaration node = true → ∀ body, node.field? "body" = some body →
    isDeclaration body = false

/-- A method counts for the nearest type around it. -/
theorem isAround_of_isMethodOf (bodies : HasBodies tree) (hdeclaration : declaration ∈ tree.nodes)
    (declares : isDeclaration declaration = true) (h : IsMethodOf declaration method) :
    IsAround declaration method := by
  obtain ⟨-, -, body, hbody, hholder⟩ := h
  have houtside := bodies declaration hdeclaration declares body hbody
  have hbodyAround : IsAround declaration body :=
    (Ancestry.isNearest_iff_of_parent?_eq_some (Node.parent?_of_field? hbody)).2
      (.inl ⟨declares, rfl⟩)
  refine (Ancestry.isNearest_iff_of_parent?_eq_some hholder).2 (.inr ?_)
  rcases eq_or_parent?_of_getD rfl with heq | ⟨hkind, hparent⟩
  · rw [heq]
    exact ⟨houtside, hbodyAround⟩
  · refine ⟨?_, (Ancestry.isNearest_iff_of_parent?_eq_some hparent).2
      (.inr ⟨houtside, hbodyAround⟩)⟩
    rw [isDeclaration, hkind]
    decide

/-- The methods in the body of an anonymous class or of an enum constant are methods
of no declared type. -/
theorem not_isMethodOf_of_classBody {body creator : Node}
    (declares : isDeclaration declaration = true) (hbody : method.parent? = some body)
    (hkind : body.kind = "class_body") (hcreator : body.parent? = some creator)
    (undeclared : isDeclaration creator = false) : ¬ IsMethodOf declaration method := by
  rintro ⟨-, -, own, hown, hholder⟩
  obtain rfl := Option.some.inj (hbody.symm.trans hholder)
  rcases eq_or_parent?_of_getD rfl with heq | ⟨hpart, -⟩
  · rw [heq, Node.parent?_of_field? hown] at hcreator
    obtain rfl := Option.some.inj hcreator
    exact absurd (declares.symm.trans undeclared) (by decide)
  · exact absurd (hkind.symm.trans hpart) (by decide)

end RouteScope.Java
