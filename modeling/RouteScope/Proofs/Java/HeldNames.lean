import RouteScope.Proofs.Java.FileGrammar
import RouteScope.Proofs.Java.NameOrigin

/-!
# Names in a class index

A class index holds qualified names of classes, names of supertypes that mean nothing,
and names of annotations.  All of them go back to the source, where the grammar allows
blanks in a name and more than names in a type.  Imports are freed of all that and
supertypes of most of it, but packages and annotations are taken as they are written.
So the names that are held are qualified names as long as the file is written in a
plain way (`WritesPlainNames`), and no longer.

* `holds_iff`: where the names in an index come from.
* `held_names_qualified_iff`: the names of an index.
-/

namespace RouteScope.Java

open Text (Alphabet HasNoBlank)

/-- The index holds the name, as that of a class, of a supertype that could not be found,
or of an annotation of a class or a method. -/
inductive ClassIndex.Holds (index : ClassIndex) : String → Prop where
  | ofClass {id : ClassId} {entry : ClassEntry} {name : String}
      (found : index.graph.get? id = some entry) (named : entry.qualifiedName? = some name) :
      Holds index name
  | ofSupertype {id : ClassId} {entry : ClassEntry} {name : String}
      (found : index.graph.get? id = some entry) (refers : .unresolved name ∈ entry.supertypes) :
      Holds index name
  | onClass {id : ClassId} {entry : ClassEntry} {name : String}
      (found : index.graph.get? id = some entry) (carried : name ∈ entry.annotations) :
      Holds index name
  | onMethod {id : ClassId} {entry : ClassEntry} {method : Method} {name : String}
      (found : index.graph.get? id = some entry) (declared : method ∈ entry.methods)
      (carried : name ∈ method.annotations) : Holds index name

/-- The node is a declared type or a named method in the body of one. -/
def IsDescribed (tree : Tree) (node : Node) : Prop :=
  ∃ declaration ∈ declarations tree.root, node = declaration.node ∨
    node ∈ methodDeclarations declaration.node ∧ ∃ name, declaredName? node = some name

/-- No name is written in such a way that the index holds more than the name.  The package
does not matter if no type is declared in it. -/
structure WritesPlainNames (tree : Tree) : Prop where
  package : declarations tree.root ≠ [] →
    ∀ package, packageName? tree.root = some package → HasNoBlank package
  annotations : ∀ node, IsDescribed tree node → ∀ written ∈ annotationNames node,
    HasNoBlank written
  supertypes : ∀ declaration ∈ declarations tree.root, ∀ type ∈ supertypeNodes declaration.node,
    IsPlain type.tree

variable {tree : Tree}

/-! ## The names that are held -/

/-- A known type has no annotations, no methods and no unresolved supertypes. -/
theorem camel_bare : ∀ entry ∈ Camel.graph.entries, entry.annotations = [] ∧
    entry.methods = [] ∧ ∀ ref ∈ entry.supertypes, ref.id?.isSome = true := by
  decide

/-- A class holds no other names than its own, unless it is declared in the file. -/
theorem bare_or_describes {id : ClassId} {entry : ClassEntry}
    (found : (ClassIndex.ofTree tree).graph.get? id = some entry) :
    (entry.annotations = [] ∧ entry.methods = [] ∧ ∀ ref ∈ entry.supertypes,
      ref.id?.isSome = true) ∨
    ∃ declaration ∈ declarations tree.root, (ClassIndex.scopeOf tree).Describes
      (ClassIndex.ofTree tree).graph declaration.node entry := by
  cases ClassIndex.origin found with
  | known hcamel => exact .inl (camel_bare entry (List.mem_of_getElem? hcamel))
  | @declared declaration stands describes =>
    exact .inr ⟨declaration, ClassIndex.mem_declarations_of_mem_numbered stands, describes⟩
  | external _ bare _ =>
    subst bare
    exact .inl ⟨rfl, rfl, by simp [ClassEntry.supertypes, ClassEntry.named]⟩

/-- A name that means nothing is held. -/
theorem holds_of_refers {declaration : Declaration} (h : declaration ∈ declarations tree.root)
    {written name : String} (hwritten : written ∈ (header declaration.node).supertypes)
    (refers : (ClassIndex.scopeOf tree).Refers (ClassIndex.ofTree tree).graph written
      (.unresolved name)) :
    (ClassIndex.ofTree tree).Holds name := by
  obtain ⟨id, entry, -, found, describes⟩ := ClassIndex.exists_describes h
  exact .ofSupertype found (describes.mem_supertypes_iff.2 ⟨written, hwritten, refers⟩)

/-- The names of the annotations of what is described are held. -/
theorem holds_of_mem_annotationNames {node : Node} (h : IsDescribed tree node) {written : String}
    (hwritten : written ∈ annotationNames node) :
    (ClassIndex.ofTree tree).Holds (Scope.annotationName (ClassIndex.scopeOf tree) written) := by
  obtain ⟨declaration, hdeclaration, hnode⟩ := h
  obtain ⟨id, entry, -, found, describes⟩ := ClassIndex.exists_describes hdeclaration
  rcases hnode with rfl | ⟨hnode, own, hown⟩
  · refine .onClass found ?_
    rw [describes.annotations]
    exact List.mem_map_of_mem hwritten
  · have hmethod : (⟨own, (ClassIndex.scopeOf tree).annotations node⟩ : Method) ∈
        entry.methods := by
      rw [describes.methods]
      exact List.mem_filterMap.2 ⟨node, hnode, by rw [hown]; rfl⟩
    exact .onMethod found hmethod (List.mem_map_of_mem hwritten)

/-- The names that an index holds are those of its classes, those of supertypes that
mean nothing, and those of the annotations of what is described. -/
theorem holds_iff {name : String} :
    (ClassIndex.ofTree tree).Holds name ↔
      (∃ id, (ClassIndex.ofTree tree).graph.nameOf? id = some name) ∨
      (∃ declaration ∈ declarations tree.root, ∃ written ∈ (header declaration.node).supertypes,
        (ClassIndex.scopeOf tree).Refers (ClassIndex.ofTree tree).graph written
          (.unresolved name)) ∨
      ∃ node, IsDescribed tree node ∧ ∃ written ∈ annotationNames node,
        Scope.annotationName (ClassIndex.scopeOf tree) written = name := by
  constructor
  · intro h
    cases h with
    | @ofClass id entry _ found named =>
      exact .inl ⟨id, by rw [ClassGraph.nameOf?, found]; exact named⟩
    | ofSupertype found refers =>
      rcases bare_or_describes found with ⟨-, -, hresolved⟩ | ⟨declaration, hmem, describes⟩
      · exact absurd (hresolved _ refers) (by simp [TypeRef.id?])
      · obtain ⟨written, hwritten, hrefers⟩ := describes.mem_supertypes_iff.1 refers
        exact .inr (.inl ⟨declaration, hmem, written, hwritten, hrefers⟩)
    | onClass found carried =>
      rcases bare_or_describes found with ⟨hnone, -, -⟩ | ⟨declaration, hmem, describes⟩
      · exact absurd (hnone ▸ carried) List.not_mem_nil
      · rw [describes.annotations] at carried
        obtain ⟨written, hwritten, hname⟩ := List.mem_map.1 carried
        exact .inr (.inr ⟨_, ⟨declaration, hmem, .inl rfl⟩, written, hwritten, hname⟩)
    | onMethod found declared carried =>
      rcases bare_or_describes found with ⟨-, hnone, -⟩ | ⟨declaration, hmem, describes⟩
      · exact absurd (hnone ▸ declared) List.not_mem_nil
      · rw [describes.methods] at declared
        obtain ⟨node, hnode, hmethod⟩ := List.mem_filterMap.1 declared
        obtain ⟨own, hown, rfl⟩ := Option.map_eq_some_iff.1 hmethod
        obtain ⟨written, hwritten, hname⟩ := List.mem_map.1 carried
        exact .inr (.inr ⟨node, ⟨declaration, hmem, .inr ⟨hnode, own, hown⟩⟩, written,
          hwritten, hname⟩)
  · rintro (⟨id, hname⟩ | ⟨declaration, hdeclaration, written, hwritten, refers⟩ |
      ⟨node, hnode, written, hwritten, rfl⟩)
    · obtain ⟨entry, found, named⟩ := Option.bind_eq_some_iff.1 hname
      exact .ofClass found named
    · exact holds_of_refers hdeclaration hwritten refers
    · exact holds_of_mem_annotationNames hnode hwritten

/-- A described node is a node of the file. -/
theorem mem_nodes_of_isDescribed {node : Node} (h : IsDescribed tree node) : node ∈ tree.nodes := by
  obtain ⟨declaration, hdeclaration, hnode⟩ := h
  have hmem := (ClassIndex.mem_nodes_of_mem_declarations hdeclaration).1
  rcases hnode with rfl | ⟨hmethod, -⟩
  · exact hmem
  · classical
    rw [methodDeclarations_eq_filter hmem] at hmethod
    exact (List.mem_filter.1 hmethod).1

/-- The names of the known types, cut at their dots. -/
def knownPaths : List (List String) :=
  [["org", "apache", "camel", "Expression"],
    ["org", "apache", "camel", "Predicate"],
    ["org", "apache", "camel", "RoutesBuilder"],
    ["org", "apache", "camel", "model", "language", "ExpressionDefinition"],
    ["org", "apache", "camel", "builder", "ExpressionClause"],
    ["org", "apache", "camel", "builder", "RouteBuilder"],
    ["org", "apache", "camel", "builder", "ValueBuilder"],
    ["org", "apache", "camel", "support", "ExpressionAdapter"],
    ["org", "apache", "camel", "support", "ExpressionSupport"]]

theorem isQualified_known (alphabet : Alphabet) {p : String × List String}
    (h : p ∈ Camel.knownTypes) : alphabet.IsQualified p.1 := by
  have hjoined : Camel.knownTypes.map (·.1) = knownPaths.map (".".intercalate) := by decide
  have hnames : ∀ path ∈ knownPaths, path ≠ [] ∧
      ∀ name ∈ path, Text.ascii.isIdentifier name = true := by
    decide
  have hmem : p.1 ∈ knownPaths.map (".".intercalate) := hjoined ▸ List.mem_map_of_mem h
  obtain ⟨path, hpath, hname⟩ := List.mem_map.1 hmem
  obtain ⟨hne, hidentifiers⟩ := hnames path hpath
  exact ⟨path, hne, fun name h => Alphabet.isIdentifier_of_ascii (hidentifiers name h), hname⟩

section Grammar

variable {alphabet : Alphabet} (grammar : HasNameGrammar alphabet tree)

include grammar

/-- If the index holds qualified names alone, the names of supertypes are among them,
apart from those of declared types, which are qualified names in any case. -/
theorem isQualified_supertype
    (held : ∀ name, (ClassIndex.ofTree tree).Holds name → alphabet.IsQualified name)
    {declaration : Declaration} (hdeclaration : declaration ∈ declarations tree.root)
    {written : String} (hwritten : written ∈ (header declaration.node).supertypes) :
    alphabet.IsQualified written := by
  obtain ⟨-, entry, -, -, describes⟩ := ClassIndex.exists_describes hdeclaration
  obtain ⟨ref, refers⟩ := describes.exists_refers hwritten
  cases refers with
  | declared known =>
    obtain ⟨place, other, stands, called, -, -⟩ := lookup_declared_eq_some_iff.1 known
    exact called.isQualified grammar (List.mem_of_getElem? stands)
  | qualified undeclared means found =>
    have hname := held _ (holds_iff.2 (.inl ⟨_, (ClassGraph.find?_eq_some_iff.1 found).1⟩))
    exact (isQualified_iff_of_qualifiedAs grammar (qualify?_eq_some_iff.1 means)).1 hname
  | nothing undeclared meaningless =>
    exact held _ (holds_of_refers hdeclaration hwritten (.nothing undeclared meaningless))

end Grammar

/-- All names in the class index of a file are qualified names exactly if the file is
written in a plain way: without blanks in the package and in the names of annotations,
and with nothing but names and dots in a supertype, apart from type arguments at its
end. -/
theorem held_names_qualified_iff {alphabet : Alphabet} (grammar : HasNameGrammar alphabet tree) :
    (∀ name, (ClassIndex.ofTree tree).Holds name → alphabet.IsQualified name) ↔
      WritesPlainNames tree := by
  constructor
  · intro held
    refine ⟨fun hne => ?_, fun node hnode written hwritten => ?_,
      fun declaration hdeclaration type htype => ?_⟩
    · obtain ⟨declaration, hdeclaration⟩ := List.exists_mem_of_ne_nil _ hne
      obtain ⟨id, hp⟩ := ClassIndex.exists_mem_numbered_of_mem_declarations hdeclaration
      have hname := held _ (holds_iff.2 (.inl ⟨id, ClassIndex.nameOf?_ofTree hp⟩))
      exact (isQualified_qualifiedName_iff grammar hdeclaration).1 hname
    · have hname := held _ (holds_of_mem_annotationNames hnode hwritten)
      exact (isQualified_annotationName_iff grammar (mem_nodes_of_isDescribed hnode) hwritten).1 hname
    · have hwritten : typeName type.tree ∈ (header declaration.node).supertypes := by
        rw [supertypes_header]
        exact List.mem_map_of_mem htype
      exact (isQualified_typeName_supertype_iff grammar hdeclaration htype).1
        (isQualified_supertype grammar held hdeclaration hwritten)
  · intro plain name hname
    have hsupertype : ∀ declaration ∈ declarations tree.root,
        ∀ written ∈ (header declaration.node).supertypes, alphabet.IsQualified written := by
      intro declaration hdeclaration written hwritten
      rw [supertypes_header] at hwritten
      obtain ⟨type, htype, rfl⟩ := List.mem_map.1 hwritten
      exact (isQualified_typeName_supertype_iff grammar hdeclaration htype).2
        (plain.supertypes declaration hdeclaration type htype)
    rcases holds_iff.1 hname with ⟨id, hclass⟩ | ⟨declaration, hdeclaration, written, hwritten,
      refers⟩ | ⟨node, hnode, written, hwritten, rfl⟩
    · have known : ∀ p ∈ Camel.knownTypes, alphabet.IsQualified p.1 :=
        fun p hp => isQualified_known alphabet hp
      refine ClassIndex.namesAll_ofTree known ?_ ?_ id name hclass
      · intro declaration hdeclaration
        exact (isQualified_qualifiedName_iff grammar hdeclaration).2
          (plain.package (List.ne_nil_of_mem hdeclaration))
      · intro declaration hdeclaration written hwritten name means
        exact (isQualified_iff_of_qualifiedAs grammar (qualify?_eq_some_iff.1 means)).2
          (hsupertype declaration hdeclaration written hwritten)
    · cases refers with
      | nothing => exact hsupertype declaration hdeclaration _ hwritten
    · exact (isQualified_annotationName_iff grammar (mem_nodes_of_isDescribed hnode) hwritten).2
        (plain.annotations node hnode written hwritten)

/-! ## Two files -/

/-- An identifier as a part of a file. -/
def identifier (text : String) (start row : Nat) (field? : Option String) : Tree :=
  .node ⟨"identifier", true, text, start, row, field?⟩ []

theorem isWrittenName_identifier {text : String} (start row : Nat) (field? : Option String)
    (h : Text.ascii.isIdentifier text = true) :
    IsWrittenName Text.ascii (identifier text start row field?) :=
  .identifier rfl h

/-- The name of a package, written with blanks. -/
def spacedPackage : Tree :=
  .node ⟨"scoped_identifier", true, "java . util", 7, 0, some "scope"⟩
    [identifier "java" 7 0 (some "scope"), .node ⟨".", false, ".", 12, 0, none⟩ [],
      identifier "util" 14 0 (some "name")]

/-- The name of an imported type, written with blanks. -/
def spacedImport : Tree :=
  .node ⟨"scoped_identifier", true, "java . util . List", 7, 0, none⟩
    [spacedPackage, .node ⟨".", false, ".", 19, 0, none⟩ [], identifier "List" 21 0 (some "name")]

/-- The type `List<T>`. -/
def genericList : Tree :=
  .node ⟨"generic_type", true, "List<T>", 43, 1, none⟩
    [.node ⟨"type_identifier", true, "List", 43, 1, none⟩ [],
      .node ⟨"type_arguments", true, "<T>", 47, 1, none⟩
        [.node ⟨"<", false, "<", 47, 1, none⟩ [],
          .node ⟨"type_identifier", true, "T", 48, 1, none⟩ [],
          .node ⟨">", false, ">", 49, 1, none⟩ []]]

/-- A file with blanks in an import and type arguments behind a supertype. -/
def plainFile : Tree :=
  .node ⟨"program", true, "import java . util . List;\nclass A extends List<T> {}", 0, 0, none⟩
    [.node ⟨"import_declaration", true, "import java . util . List;", 0, 0, none⟩
        [.node ⟨"import", false, "import", 0, 0, none⟩ [], spacedImport,
          .node ⟨";", false, ";", 25, 0, none⟩ []],
      .node ⟨"class_declaration", true, "class A extends List<T> {}", 27, 1, none⟩
        [.node ⟨"class", false, "class", 27, 1, none⟩ [], identifier "A" 33 1 (some "name"),
          .node ⟨"superclass", true, "extends List<T>", 35, 1, some "superclass"⟩
            [.node ⟨"extends", false, "extends", 35, 1, none⟩ [], genericList],
          .node ⟨"class_body", true, "{}", 51, 1, some "body"⟩
            [.node ⟨"\x7b", false, "\x7b", 51, 1, none⟩ [],
              .node ⟨"\x7d", false, "\x7d", 52, 1, none⟩ []]]]

theorem isWrittenName_spacedPackage : IsWrittenName Text.ascii spacedPackage := by
  have hcovers : CoversParts spacedPackage.label spacedPackage.children := by
    unfold CoversParts
    decide
  exact .nested rfl (isWrittenName_identifier _ _ _ (by decide)) rfl (by decide) hcovers

theorem isWrittenName_spacedImport : IsWrittenName Text.ascii spacedImport := by
  have hcovers : CoversParts spacedImport.label spacedImport.children := by
    unfold CoversParts
    decide
  exact .nested rfl isWrittenName_spacedPackage rfl (by decide) hcovers

theorem isType_genericList : IsType Text.ascii genericList := by
  have hcovers : CoversParts genericList.label genericList.children := by
    unfold CoversParts
    decide
  exact .generic rfl rfl (.word (by decide) (by decide)) (by decide) hcovers

theorem tree_of_mem_supertypeNodes_plainFile {node type : Node} (hnode : node ∈ plainFile.nodes)
    (declares : isDeclaration node = true) (htype : type ∈ supertypeNodes node) :
    type.tree = genericList := by
  have hlist : ((Tree.preorder [] plainFile).filter isDeclaration).map
      (fun node => (supertypeNodes node).map (·.tree)) = [[genericList]] := rfl
  rw [Tree.nodes_eq_preorder] at hnode
  have hmem : (supertypeNodes node).map (·.tree) ∈ [[genericList]] :=
    hlist ▸ List.mem_map_of_mem (List.mem_filter.2 ⟨hnode, declares⟩)
  have htree : type.tree ∈ (supertypeNodes node).map (·.tree) := List.mem_map_of_mem htype
  rwa [List.mem_singleton.1 hmem, List.mem_singleton] at htree

theorem hasNameGrammar_plainFile : HasNameGrammar Text.ascii plainFile where
  names := by
    have hlist : ((Tree.preorder [] plainFile).filter isName).map (·.tree) =
        [spacedImport, spacedPackage, identifier "java" 7 0 (some "scope"),
          identifier "util" 14 0 (some "name"), identifier "List" 21 0 (some "name"),
          identifier "A" 33 1 (some "name")] := rfl
    have hnames : ∀ name ∈ ((Tree.preorder [] plainFile).filter isName).map (·.tree),
        IsWrittenName Text.ascii name := by
      rw [hlist]
      simp only [List.forall_mem_cons]
      refine ⟨isWrittenName_spacedImport, isWrittenName_spacedPackage, ?_, ?_, ?_, ?_,
        List.forall_mem_nil _⟩
      all_goals exact isWrittenName_identifier _ _ _ (by decide)
    intro node hnode hname
    rw [Tree.nodes_eq_preorder] at hnode
    exact hnames _ (List.mem_map_of_mem (List.mem_filter.2 ⟨hnode, hname⟩))
  declared := by
    have hkinds : ∀ node ∈ Tree.preorder [] plainFile, isDeclaration node = true →
        ∀ name ∈ node.field? "name", name.kind = "identifier" := by
      decide
    rw [← Tree.nodes_eq_preorder] at hkinds
    exact hkinds
  annotations := by
    have hnames : ∀ node ∈ Tree.preorder [] plainFile,
        node.kind = "marker_annotation" ∨ node.kind = "annotation" →
        ∀ name ∈ node.field? "name", isName name = true := by
      decide
    rw [← Tree.nodes_eq_preorder] at hnames
    exact hnames
  supertypes := by
    intro node hnode declares type htype
    rw [tree_of_mem_supertypeNodes_plainFile hnode declares htype]
    exact isType_genericList

theorem writesPlainNames_plainFile : WritesPlainNames plainFile where
  package _ package hpackage := by
    have hnone : packageName? plainFile.root = none := by decide
    exact absurd (hnone.symm.trans hpackage) (Option.some_ne_none package).symm
  annotations node hnode written hwritten := by
    have hnone : ∀ node ∈ Tree.preorder [] plainFile, annotationNames node = [] := by decide
    rw [← Tree.nodes_eq_preorder] at hnone
    rw [hnone node (mem_nodes_of_isDescribed hnode)] at hwritten
    exact absurd hwritten List.not_mem_nil
  supertypes declaration hdeclaration type htype := by
    obtain ⟨hnode, declares⟩ := ClassIndex.mem_nodes_of_mem_declarations hdeclaration
    rw [tree_of_mem_supertypeNodes_plainFile hnode declares htype]
    exact .generic rfl (.bare (.word (by decide)))

theorem drop_entries_plainFile : (ClassIndex.ofTree plainFile).graph.entries.drop 9 =
    [{ ClassEntry.named "A" with
        extended := [.resolved 10]
        superclass? := some (.resolved 10) },
      .named "java.util.List"] := by
  simp only [ClassIndex.ofTree, declarations_root_eq]
  decide

/-- The blanks of an import and type arguments at the end of a supertype are no part of
the names that are held. -/
theorem held_names_qualified_iff_plain :
    HasNameGrammar Text.ascii plainFile ∧
      (ClassIndex.ofTree plainFile).Holds "java.util.List" ∧
      ∀ name, (ClassIndex.ofTree plainFile).Holds name → Text.ascii.IsQualified name := by
  have found : (ClassIndex.ofTree plainFile).graph.get? 10 = some (.named "java.util.List") := by
    rw [ClassGraph.get?, ← List.getElem?_drop (i := 9) (j := 1), drop_entries_plainFile]
    rfl
  exact ⟨hasNameGrammar_plainFile, .ofClass found rfl,
    (held_names_qualified_iff hasNameGrammar_plainFile).2 writesPlainNames_plainFile⟩

/-- A file with blanks in its package and in an annotation, type arguments in the middle
of a supertype, and an annotation in front of another one. -/
def spacedFile : Tree :=
  .node ⟨"program", true,
      "package com . acme;\n@org . x . H class A extends Outer<T>.Inner implements @Ann Foo {}", 0, 0,
      none⟩
    [.node ⟨"package_declaration", true, "package com . acme;", 0, 0, none⟩
        [.node ⟨"package", false, "package", 0, 0, none⟩ [],
          .node ⟨"scoped_identifier", true, "com . acme", 8, 0, none⟩
            [identifier "com" 8 0 (some "scope"), .node ⟨".", false, ".", 12, 0, none⟩ [],
              identifier "acme" 14 0 (some "name")],
          .node ⟨";", false, ";", 18, 0, none⟩ []],
      .node ⟨"class_declaration", true,
          "@org . x . H class A extends Outer<T>.Inner implements @Ann Foo {}", 20, 1, none⟩
        [.node ⟨"modifiers", true, "@org . x . H", 20, 1, none⟩
            [.node ⟨"marker_annotation", true, "@org . x . H", 20, 1, none⟩
              [.node ⟨"@", false, "@", 20, 1, none⟩ [],
                .node ⟨"scoped_identifier", true, "org . x . H", 21, 1, some "name"⟩
                  [.node ⟨"scoped_identifier", true, "org . x", 21, 1, some "scope"⟩
                      [identifier "org" 21 1 (some "scope"),
                        .node ⟨".", false, ".", 25, 1, none⟩ [], identifier "x" 27 1 (some "name")],
                    .node ⟨".", false, ".", 29, 1, none⟩ [], identifier "H" 31 1 (some "name")]]],
          .node ⟨"class", false, "class", 33, 1, none⟩ [], identifier "A" 39 1 (some "name"),
          .node ⟨"superclass", true, "extends Outer<T>.Inner", 41, 1, some "superclass"⟩
            [.node ⟨"extends", false, "extends", 41, 1, none⟩ [],
              .node ⟨"scoped_type_identifier", true, "Outer<T>.Inner", 49, 1, none⟩
                [.node ⟨"generic_type", true, "Outer<T>", 49, 1, none⟩
                    [.node ⟨"type_identifier", true, "Outer", 49, 1, none⟩ [],
                      .node ⟨"type_arguments", true, "<T>", 54, 1, none⟩
                        [.node ⟨"<", false, "<", 54, 1, none⟩ [],
                          .node ⟨"type_identifier", true, "T", 55, 1, none⟩ [],
                          .node ⟨">", false, ">", 56, 1, none⟩ []]],
                  .node ⟨".", false, ".", 57, 1, none⟩ [],
                  .node ⟨"type_identifier", true, "Inner", 58, 1, none⟩ []]],
          .node ⟨"super_interfaces", true, "implements @Ann Foo", 64, 1, some "interfaces"⟩
            [.node ⟨"implements", false, "implements", 64, 1, none⟩ [],
              .node ⟨"type_list", true, "@Ann Foo", 75, 1, none⟩
                [.node ⟨"annotated_type", true, "@Ann Foo", 75, 1, none⟩
                  [.node ⟨"marker_annotation", true, "@Ann", 75, 1, none⟩
                      [.node ⟨"@", false, "@", 75, 1, none⟩ [],
                        identifier "Ann" 76 1 (some "name")],
                    .node ⟨"type_identifier", true, "Foo", 80, 1, none⟩ []]]],
          .node ⟨"class_body", true, "{}", 84, 1, some "body"⟩
            [.node ⟨"\x7b", false, "\x7b", 84, 1, none⟩ [],
              .node ⟨"\x7d", false, "\x7d", 85, 1, none⟩ []]]]

theorem drop_entries_spacedFile : (ClassIndex.ofTree spacedFile).graph.entries.drop 9 =
    [{ ClassEntry.named "com . acme.A" with
        implemented := [.unresolved "@AnnFoo"]
        extended := [.resolved 10]
        superclass? := some (.resolved 10)
        annotations := ["org . x . H"] },
      .named "Outer<T>.Inner"] := by
  simp only [ClassIndex.ofTree, declarations_root_eq]
  decide

/-- There are no comments and no errors in the file, and yet the index holds names that
are no qualified names. -/
theorem held_names_spacedFile :
    (∀ node ∈ spacedFile.nodes, node.isComment = false ∧ node.kind ≠ "ERROR") ∧
      ∀ name ∈ ["com . acme.A", "org . x . H", "Outer<T>.Inner", "@AnnFoo"],
        (ClassIndex.ofTree spacedFile).Holds name ∧ ¬ Text.ascii.IsQualified name := by
  have hcode : ∀ node ∈ Tree.preorder [] spacedFile,
      node.isComment = false ∧ node.kind ≠ "ERROR" := by
    decide
  rw [← Tree.nodes_eq_preorder] at hcode
  have hentry (place : Nat) : (ClassIndex.ofTree spacedFile).graph.get? (9 + place) =
      ((ClassIndex.ofTree spacedFile).graph.entries.drop 9)[place]? :=
    List.getElem?_drop.symm
  rw [drop_entries_spacedFile] at hentry
  refine ⟨hcode, ?_⟩
  simp only [List.forall_mem_cons]
  refine ⟨⟨.ofClass (hentry 0) rfl, fun h => ?_⟩, ⟨.onClass (hentry 0) (by decide), fun h => ?_⟩,
    ⟨.ofClass (hentry 1) rfl, fun h => ?_⟩, ⟨.ofSupertype (hentry 0) (by decide), fun h => ?_⟩,
    List.forall_mem_nil _⟩
  · exact absurd (h.isBlank_eq_false (c := ' ') (by decide)) (by decide)
  · exact absurd (h.isBlank_eq_false (c := ' ') (by decide)) (by decide)
  · exact h.not_mem (by decide) (by decide) (by decide : '<' ∈ "Outer<T>.Inner".toList)
  · exact h.not_mem (by decide) (by decide) (by decide : '@' ∈ "@AnnFoo".toList)

end RouteScope.Java
