import RouteScope.Proofs.Java.Method
import RouteScope.Proofs.Java.NameGrammar
import RouteScope.Proofs.Tree.Search

/-!
# The names in a file

What the grammar of names and types says about the places of a file from which the
class index takes a name.  Imports are freed of blanks.  The package and the names of
annotations are taken as they are written, so they are qualified names apart from
blanks.

* `HasNameGrammar`: the names of a file follow the grammar.
* `isQualified_iff_of_qualifiedAs`: a name and what it means are qualified names or
  neither of them is.
* `isQualified_qualifiedName_iff`, `isQualified_annotationName_iff`: the names of declared
  types and of annotations.
* `isQualified_typeName_supertype_iff`: the names of supertypes.
-/

namespace RouteScope.Java

open Text (Alphabet HasNoBlank)

/-- The types in the list of a clause. -/
def listedTypes (clause? : Option Node) : List Node :=
  match clause?.bind (·.childOfKind? "type_list") with
  | some list => list.namedChildren
  | none => []

/-- The types that a declaration names as its supertypes. -/
def supertypeNodes (declaration : Node) : List Node :=
  match declaration.kind with
  | "class_declaration" =>
      ((declaration.field? "superclass").bind (·.namedChildren.head?)).toList ++
        listedTypes (declaration.field? "interfaces")
  | "interface_declaration" => listedTypes (declaration.childOfKind? "extends_interfaces")
  | "enum_declaration" | "record_declaration" => listedTypes (declaration.field? "interfaces")
  | _ => []

/-- What the grammar promises of the names in a file that has no comments, no errors
and no missing parts. -/
structure HasNameGrammar (alphabet : Alphabet) (tree : Tree) : Prop where
  names : ∀ node ∈ tree.nodes, isName node = true → IsWrittenName alphabet node.tree
  declared : ∀ node ∈ tree.nodes, isDeclaration node = true →
    ∀ name, node.field? "name" = some name → name.kind = "identifier"
  annotations : ∀ node ∈ tree.nodes, node.kind = "marker_annotation" ∨ node.kind = "annotation" →
    ∀ name, node.field? "name" = some name → isName name = true
  supertypes : ∀ node ∈ tree.nodes, isDeclaration node = true →
    ∀ type ∈ supertypeNodes node, IsType alphabet type.tree

/-! ## Supertypes -/

theorem typeList_eq (clause? : Option Node) :
    typeList clause? = (listedTypes clause?).map (typeName ·.tree) := by
  unfold typeList listedTypes
  cases clause?.bind (·.childOfKind? "type_list") <;> rfl

theorem supertypes_header (declaration : Node) :
    (header declaration).supertypes = (supertypeNodes declaration).map (typeName ·.tree) := by
  unfold header supertypeNodes
  generalize declaration.kind = kind
  split
  · cases hclause : declaration.field? "superclass" with
    | none => simp [Header.supertypes, typeList_eq]
    | some clause =>
      cases htype : clause.namedChildren.head? <;> simp [Header.supertypes, typeList_eq, htype]
  · simp [Header.supertypes, typeList_eq]
  · simp [Header.supertypes, typeList_eq]
  · simp [Header.supertypes, typeList_eq]
  · simp [Header.supertypes]

/-! ## Names in a file -/

section Grammar

variable {alphabet : Alphabet} {tree : Tree} (grammar : HasNameGrammar alphabet tree)

include grammar

/-- A name among the children of a node. -/
theorem HasNameGrammar.isWrittenName_of_find? {node name : Node} (hnode : node ∈ tree.nodes)
    (h : node.namedChildren.find? isName = some name) : IsWrittenName alphabet name.tree :=
  grammar.names name (mem_nodes_of_mem_namedChildren hnode (List.mem_of_find?_eq_some h))
    (List.find?_some h)

theorem HasNameGrammar.isIdentifier_of_declared {node name : Node} (hnode : node ∈ tree.nodes)
    (declares : isDeclaration node = true) (h : node.field? "name" = some name) :
    alphabet.isIdentifier name.text = true := by
  have hkind := grammar.declared node hnode declares name h
  have hmem := mem_nodes_of_mem_children hnode (List.mem_of_find?_eq_some h)
  exact (grammar.names name hmem (by rw [isName, hkind]; decide)).isIdentifier_of_kind hkind

/-- The name of an annotation is a qualified name apart from blanks, and without a dot
it is an identifier. -/
theorem HasNameGrammar.isWrittenName_of_mem_annotationNames {node : Node}
    (hnode : node ∈ tree.nodes) {written : String} (h : written ∈ annotationNames node) :
    alphabet.IsQualified (Text.withoutBlanks written) ∧
      ('.' ∉ written.toList → alphabet.isIdentifier written = true) := by
  obtain ⟨modifiers, marker, hmodifiers, hmarker, hkind, hwritten⟩ := mem_annotationNames_iff.1 h
  obtain ⟨name, hfield, rfl⟩ := Option.map_eq_some_iff.1 hwritten
  have hmem := mem_nodes_of_mem_namedChildren
    (mem_nodes_of_mem_namedChildren hnode (List.mem_of_find?_eq_some hmodifiers)) hmarker
  have hnameMem := mem_nodes_of_mem_children hmem (List.mem_of_find?_eq_some hfield)
  have hname := grammar.names name hnameMem (grammar.annotations marker hmem hkind name hfield)
  exact ⟨hname.isQualified, hname.isIdentifier⟩

/-- The names of a nesting path are identifiers. -/
theorem isIdentifier_of_mem_path {declaration : Declaration}
    (h : declaration ∈ declarations tree.root) {name : String} (hname : name ∈ declaration.path) :
    alphabet.isIdentifier name = true := by
  obtain ⟨hnode, declares⟩ := ClassIndex.mem_nodes_of_mem_declarations h
  obtain ⟨node, hmem, hdeclares, hfound⟩ := exists_declaredName?_of_mem_path hnode declares
    (ClassIndex.nestingPath?_of_mem_declarations h) hname
  obtain ⟨own, hown, rfl⟩ := Option.map_eq_some_iff.1 hfound
  exact grammar.isIdentifier_of_declared hmem hdeclares hown

/-- A name that calls a declared type is a qualified name. -/
theorem Declaration.IsCalled.isQualified {declaration : Declaration} {written : String}
    (h : declaration ∈ declarations tree.root) (called : declaration.IsCalled written) :
    alphabet.IsQualified written := by
  obtain ⟨suffix, hne, hsuffix, rfl⟩ := called
  exact ⟨suffix, hne,
    fun name hname => isIdentifier_of_mem_path grammar h (hsuffix.subset hname), rfl⟩

/-- Imports are freed of blanks. -/
theorem isQualified_of_mem_importedNames {simple qualified : String}
    (h : (simple, qualified) ∈ importedNames tree.root) : alphabet.IsQualified qualified := by
  obtain ⟨node, hnode, hname⟩ := List.mem_filterMap.1 h
  obtain ⟨name, hfind, rfl, -⟩ := exists_of_importedName?_eq_some hname
  have hmem : node ∈ tree.nodes :=
    mem_nodes_of_mem_namedChildren (Tree.mem_nodes_iff.2 rfl) hnode
  exact (grammar.isWrittenName_of_find? hmem hfind).isQualified

/-- A package is a qualified name apart from blanks. -/
theorem isQualified_package {package : String} (h : packageName? tree.root = some package) :
    alphabet.IsQualified (Text.withoutBlanks package) := by
  obtain ⟨declaration, hdeclaration, hname⟩ := Option.bind_eq_some_iff.1 h
  obtain ⟨name, hfind, hpackage⟩ := Option.bind_eq_some_iff.1 hname
  obtain rfl : name.text = package := Option.some.inj hpackage
  have hmem : declaration ∈ tree.nodes := mem_nodes_of_mem_namedChildren
    (Tree.mem_nodes_iff.2 rfl) (List.mem_of_find?_eq_some hdeclaration)
  exact (grammar.isWrittenName_of_find? hmem hfind).isQualified

/-- A name and the qualified name that it means are qualified names, or neither is. -/
theorem isQualified_iff_of_qualifiedAs {written name : String}
    (h : QualifiedAs tree.root written name) :
    alphabet.IsQualified name ↔ alphabet.IsQualified written := by
  have himported {simple qualified : String} (imported : Imports tree.root simple qualified) :
      alphabet.IsQualified qualified ∧ alphabet.IsQualified simple := by
    have hqualified := isQualified_of_mem_importedNames grammar imported.mem
    rw [imported.simple_eq]
    exact ⟨hqualified, .of_isIdentifier hqualified.afterLast⟩
  cases h with
  | inner simple imported =>
    obtain ⟨hqualified, hsimple⟩ := himported imported
    simp [Alphabet.isQualified_append_iff, hqualified, hsimple]
  | written simple unknown => exact Iff.rfl
  | imported simple imported => exact iff_of_true (himported imported).1 (himported imported).2

/-- The name of a declared type is a qualified name exactly if the package is. -/
theorem isQualified_qualifiedName_iff {declaration : Declaration}
    (hdeclaration : declaration ∈ declarations tree.root) :
    alphabet.IsQualified (declaration.qualifiedName (packageName? tree.root)) ↔
      ∀ package, packageName? tree.root = some package → HasNoBlank package := by
  have hpath : alphabet.IsQualified (".".intercalate declaration.path) :=
    ⟨declaration.path, path_ne_nil hdeclaration,
      fun name hname => isIdentifier_of_mem_path grammar hdeclaration hname, rfl⟩
  cases hpackage : packageName? tree.root with
  | none => exact iff_of_true hpath fun package h => absurd h (Option.some_ne_none _).symm
  | some package =>
    have hname : declaration.qualifiedName (some package) =
        package ++ "." ++ ".".intercalate declaration.path :=
      String.intercalate_cons_of_ne_nil (path_ne_nil hdeclaration)
    rw [hname, Alphabet.isQualified_append_iff,
      Text.isQualified_iff_hasNoBlank (isQualified_package grammar hpackage)]
    simp [hpath]

/-- What an annotation is called is a qualified name exactly if it is written without
blanks. -/
theorem isQualified_annotationName_iff {node : Node} (hnode : node ∈ tree.nodes) {written : String}
    (h : written ∈ annotationNames node) :
    alphabet.IsQualified (Scope.annotationName (ClassIndex.scopeOf tree) written) ↔
      HasNoBlank written := by
  have hname := grammar.isWrittenName_of_mem_annotationNames hnode h
  unfold Scope.annotationName
  by_cases hdot : '.' ∈ written.toList
  · rw [if_pos (by simpa using hdot)]
    exact Text.isQualified_iff_hasNoBlank hname.1
  · rw [if_neg (by simpa using hdot)]
    have hqualified : alphabet.IsQualified written := .of_isIdentifier (hname.2 hdot)
    refine iff_of_true ?_ hqualified.hasNoBlank
    cases himport : (ClassIndex.scopeOf tree).import? written with
    | none => exact hqualified
    | some qualified =>
      exact isQualified_of_mem_importedNames grammar (import?_iff.1 himport).mem

/-- The supertypes of a file are known by qualified names exactly if they are plain. -/
theorem isQualified_typeName_supertype_iff {declaration : Declaration}
    (hdeclaration : declaration ∈ declarations tree.root) {type : Node}
    (htype : type ∈ supertypeNodes declaration.node) :
    alphabet.IsQualified (typeName type.tree) ↔ IsPlain type.tree := by
  obtain ⟨hmem, declares⟩ := ClassIndex.mem_nodes_of_mem_declarations hdeclaration
  exact isQualified_typeName_iff (grammar.supertypes _ hmem declares type htype)

end Grammar

end RouteScope.Java
