import RouteScope.Proofs.Java.Description
import RouteScope.Proofs.Text.Split

/-!
# Meaning of written supertypes

What the name of a supertype refers to follows from the file as a whole: from
its declarations, its imports, and the finished class index.  `Denotes` says so
without any order in which names are looked up, and
`declared_references_denote` proves that every reference of every declared type
is what its written name denotes.

The table of declared names keeps the first type for a name and the list of
imports the last one.  `lookup_declared_eq_some_iff` and `import?_iff` say what
that means for a file.
-/

namespace RouteScope.Java

/-! ## Names in a file -/

/-- A declared type is called by the names that end its nesting path, joined by
dots. -/
def Declaration.IsCalled (declaration : Declaration) (written : String) : Prop :=
  ∃ suffix : List String, suffix ≠ [] ∧ suffix <:+ declaration.path ∧
    ".".intercalate suffix = written

/-- The last import with the simple name is that of the qualified name. -/
def Imports (root : Node) (simple qualified : String) : Prop :=
  ∃ before after, importedNames root = before ++ (simple, qualified) :: after ∧
    ∀ later ∈ after, later.1 ≠ simple

/-- The qualified name that a name means where no declared type is called by it.  The
first part of a dotted name may be imported; otherwise the name is qualified. -/
inductive QualifiedAs (root : Node) : String → String → Prop where
  | inner {outer rest qualified : String} (simple : '.' ∉ outer.toList)
      (imported : Imports root outer qualified) :
      QualifiedAs root (outer ++ "." ++ rest) (qualified ++ "." ++ rest)
  | written {outer rest : String} (simple : '.' ∉ outer.toList)
      (unknown : ∀ imported ∈ importedNames root, imported.1 ≠ outer) :
      QualifiedAs root (outer ++ "." ++ rest) (outer ++ "." ++ rest)
  | imported {written qualified : String} (simple : '.' ∉ written.toList)
      (imported : Imports root written qualified) : QualifiedAs root written qualified

/-- What a written name refers to in the class index of a file: the first declared type
that is called by it, the first class with the qualified name that it means, or
nothing. -/
inductive Denotes (tree : Tree) : String → TypeRef → Prop where
  | declared {written : String} {place : Nat} {declaration : Declaration} {id : ClassId}
      (stands : (declarations tree.root)[place]? = some declaration)
      (called : declaration.IsCalled written)
      (first : ∀ earlier < place, ∀ other, (declarations tree.root)[earlier]? = some other →
        ¬ other.IsCalled written)
      (number : (ClassIndex.ofTree tree).declared[place]? = some id) :
      Denotes tree written (.resolved id)
  | qualified {written name : String} {id : ClassId}
      (undeclared : ∀ declaration ∈ declarations tree.root, ¬ declaration.IsCalled written)
      (means : QualifiedAs tree.root written name)
      (found : (ClassIndex.ofTree tree).graph.find? name = some id) :
      Denotes tree written (.resolved id)
  | unknown {written : String}
      (undeclared : ∀ declaration ∈ declarations tree.root, ¬ declaration.IsCalled written)
      (simple : '.' ∉ written.toList)
      (unimported : ∀ imported ∈ importedNames tree.root, imported.1 ≠ written) :
      Denotes tree written (.unresolved written)

/-! ## Declared types -/

/-- The table of names lists the suffixes of a nesting path. -/
theorem mem_suffixes_iff {path : List String} {written : String} :
    written ∈ suffixes path ↔
      ∃ suffix : List String, suffix ≠ [] ∧ suffix <:+ path ∧
        ".".intercalate suffix = written := by
  induction path with
  | nil =>
    constructor
    · simp [suffixes]
    · rintro ⟨suffix, hne, hsuffix, _⟩
      exact absurd (List.suffix_nil.1 hsuffix) hne
  | cons name path ih =>
    rw [suffixes, List.mem_cons, ih]
    constructor
    · rintro (rfl | ⟨suffix, hne, hsuffix, hjoined⟩)
      · exact ⟨name :: path, List.cons_ne_nil _ _, List.suffix_refl _, rfl⟩
      · exact ⟨suffix, hne, hsuffix.trans (List.suffix_cons _ _), hjoined⟩
    · rintro ⟨suffix, hne, hsuffix, hjoined⟩
      rcases List.suffix_cons_iff.1 hsuffix with rfl | hsuffix
      · exact .inl hjoined.symm
      · exact .inr ⟨suffix, hne, hsuffix, hjoined⟩

theorem isCalled_iff {declaration : Declaration} {written : String} :
    declaration.IsCalled written ↔ written ∈ suffixes declaration.path :=
  mem_suffixes_iff.symm

/-- In the table of names, the first declared type for a name counts. -/
theorem lookup_names_eq (numbered : List (ClassId × Declaration)) (written : String) :
    (numbered.flatMap fun (id, declaration) =>
      (suffixes declaration.path).map (·, id)).lookup written =
        (numbered.find? fun p => written ∈ suffixes p.2.path).map (·.1) := by
  induction numbered with
  | nil => rfl
  | cons p numbered ih =>
    have hown : ((suffixes p.2.path).map (·, p.1)).lookup written =
        if written ∈ suffixes p.2.path then some p.1 else none := by
      induction suffixes p.2.path with
      | nil => rfl
      | cons name names ih =>
        rw [List.map_cons, List.lookup_cons, ih]
        by_cases h : written = name
        · simp [h]
        · have hbeq : (written == name) = false := by simpa using h
          simp [h, hbeq]
    rw [List.flatMap_cons, List.lookup_append, ih, hown, List.find?_cons]
    by_cases h : written ∈ suffixes p.2.path <;> simp [h]

theorem lookup_declared_eq (tree : Tree) (written : String) :
    (ClassIndex.scopeOf tree).declared.lookup written =
      ((ClassIndex.numbered tree).find? fun p => written ∈ suffixes p.2.path).map (·.1) :=
  lookup_names_eq _ written

theorem lookup_declared_eq_none_iff {tree : Tree} {written : String} :
    (ClassIndex.scopeOf tree).declared.lookup written = none ↔
      ∀ declaration ∈ declarations tree.root, ¬ declaration.IsCalled written := by
  rw [lookup_declared_eq, Option.map_eq_none_iff, List.find?_eq_none]
  conv_rhs => rw [← ClassIndex.map_snd_numbered tree, List.forall_mem_map]
  simp only [decide_eq_true_eq, isCalled_iff]

/-- A name is known for the first declared type that is called by it. -/
theorem lookup_declared_eq_some_iff {tree : Tree} {written : String} {id : ClassId} :
    (ClassIndex.scopeOf tree).declared.lookup written = some id ↔
      ∃ (place : Nat) (declaration : Declaration),
        (declarations tree.root)[place]? = some declaration ∧
        declaration.IsCalled written ∧
        (∀ earlier < place, ∀ other : Declaration,
          (declarations tree.root)[earlier]? = some other → ¬ other.IsCalled written) ∧
        (ClassIndex.ofTree tree).declared[place]? = some id := by
  rw [lookup_declared_eq,
    ClassIndex.find?_numbered_eq_some_iff fun declaration => written ∈ suffixes declaration.path]
  simp only [decide_eq_true_eq, decide_eq_false_iff_not, isCalled_iff]

/-! ## Imports -/

/-- Of two imports with the same simple name the later one counts. -/
theorem import?_iff {tree : Tree} {simple qualified : String} :
    (ClassIndex.scopeOf tree).import? simple = some qualified ↔
      Imports tree.root simple qualified := by
  have himported : (ClassIndex.scopeOf tree).imported = importedNames tree.root := rfl
  rw [Scope.import?, himported, List.lookup_eq_some_iff]
  constructor
  · rintro ⟨after, before, hlist, hlater⟩
    refine ⟨before.reverse, after.reverse, ?_, fun later hmem heq => ?_⟩
    · rw [← List.reverse_reverse (importedNames tree.root), hlist]
      simp
    · have := hlater later (List.mem_reverse.1 hmem)
      simp [heq] at this
  · rintro ⟨before, after, hlist, hlater⟩
    refine ⟨after.reverse, before.reverse, by simp [hlist], fun later hmem => ?_⟩
    simpa using (hlater later (List.mem_reverse.1 hmem)).symm

theorem import?_eq_none_iff {tree : Tree} {simple : String} :
    (ClassIndex.scopeOf tree).import? simple = none ↔
      ∀ imported ∈ importedNames tree.root, imported.1 ≠ simple := by
  have himported : (ClassIndex.scopeOf tree).imported = importedNames tree.root := rfl
  rw [Scope.import?, himported, List.lookup_eq_none_iff]
  constructor
  · intro h imported hmem heq
    have := h imported (List.mem_reverse.2 hmem)
    simp [heq] at this
  · intro h imported hmem
    simpa using (h imported (List.mem_reverse.1 hmem)).symm

theorem Imports.mem {root : Node} {simple qualified : String} (h : Imports root simple qualified) :
    (simple, qualified) ∈ importedNames root := by
  obtain ⟨before, after, hlist, -⟩ := h
  simp [hlist]

/-- An import has its names from the first name in it: the qualified one is all of that
without blanks, and the simple one is the last part of it. -/
theorem exists_of_importedName?_eq_some {node : Node} {simple qualified : String}
    (h : importedName? node = some (simple, qualified)) :
    ∃ name, node.namedChildren.find? isName = some name ∧
      qualified = Text.withoutBlanks name.text ∧ simple = Text.afterLast '.' qualified := by
  unfold importedName? at h
  obtain ⟨-, -, h⟩ := Option.bind_eq_some_iff.1 h
  obtain ⟨-, -, h⟩ := Option.bind_eq_some_iff.1 h
  obtain ⟨name, hfind, hpair⟩ := Option.bind_eq_some_iff.1 h
  obtain ⟨rfl, rfl⟩ := Prod.mk.inj (Option.some.inj hpair)
  exact ⟨name, hfind, rfl, rfl⟩

/-- An imported type goes by the last part of its qualified name. -/
theorem Imports.simple_eq {root : Node} {simple qualified : String}
    (h : Imports root simple qualified) : simple = Text.afterLast '.' qualified := by
  obtain ⟨node, -, hname⟩ := List.mem_filterMap.1 h.mem
  obtain ⟨-, -, -, hsimple⟩ := exists_of_importedName?_eq_some hname
  exact hsimple

/-! ## Qualified names -/

theorem splitFirst?_dotted {outer : String} (rest : String) (simple : '.' ∉ outer.toList) :
    Text.splitFirst? '.' (outer ++ "." ++ rest) = some (outer, rest) :=
  Text.splitFirst?_append rest simple

theorem qualify?_eq_none_iff {tree : Tree} {written : String} :
    (ClassIndex.scopeOf tree).qualify? written = none ↔
      '.' ∉ written.toList ∧
        ∀ imported ∈ importedNames tree.root, imported.1 ≠ written := by
  rw [← import?_eq_none_iff, ← Text.splitFirst?_eq_none_iff, Scope.qualify?]
  cases Text.splitFirst? '.' written <;> simp

/-- The qualified name of a name with a dot depends on what stands in front of
the first dot. -/
theorem qualify?_eq_some_iff {tree : Tree} {written name : String} :
    (ClassIndex.scopeOf tree).qualify? written = some name ↔
      QualifiedAs tree.root written name := by
  constructor
  · intro h
    by_cases hdot : '.' ∈ written.toList
    · obtain ⟨outer, rest, hwritten, simple⟩ := Text.exists_eq_append_of_mem hdot
      obtain rfl : written = outer ++ "." ++ rest := hwritten
      rw [Scope.qualify?, splitFirst?_dotted rest simple] at h
      cases himport : (ClassIndex.scopeOf tree).import? outer with
      | none =>
        obtain rfl : outer ++ "." ++ rest = name := by simpa [himport] using h
        exact .written simple (import?_eq_none_iff.1 himport)
      | some qualified =>
        obtain rfl : qualified ++ "." ++ rest = name := by simpa [himport] using h
        exact .inner simple (import?_iff.1 himport)
    · rw [Scope.qualify?, Text.splitFirst?_eq_none_iff.2 hdot] at h
      exact .imported hdot (import?_iff.1 h)
  · intro h
    cases h with
    | inner simple imported =>
      rw [Scope.qualify?, splitFirst?_dotted _ simple]
      simp [import?_iff.2 imported]
    | written simple unknown =>
      rw [Scope.qualify?, splitFirst?_dotted _ simple]
      simp [import?_eq_none_iff.2 unknown]
    | imported simple imported =>
      rw [Scope.qualify?, Text.splitFirst?_eq_none_iff.2 simple]
      exact import?_iff.2 imported

/-! ## References -/

/-- A name denotes what it refers to in the finished index. -/
theorem denotes_iff_refers {tree : Tree} {written : String} {ref : TypeRef} :
    Denotes tree written ref ↔
      (ClassIndex.scopeOf tree).Refers (ClassIndex.ofTree tree).graph written ref := by
  constructor
  · intro h
    cases h with
    | declared stands called first number =>
      exact .declared (lookup_declared_eq_some_iff.2 ⟨_, _, stands, called, first, number⟩)
    | qualified undeclared means found =>
      exact .qualified (lookup_declared_eq_none_iff.2 undeclared)
        (qualify?_eq_some_iff.2 means) found
    | unknown undeclared simple unimported =>
      exact .nothing (lookup_declared_eq_none_iff.2 undeclared)
        (qualify?_eq_none_iff.2 ⟨simple, unimported⟩)
  · intro h
    cases h with
    | declared known =>
      obtain ⟨place, declaration, stands, called, first, number⟩ :=
        lookup_declared_eq_some_iff.1 known
      exact .declared stands called first number
    | qualified undeclared means found =>
      exact .qualified (lookup_declared_eq_none_iff.1 undeclared)
        (qualify?_eq_some_iff.1 means) found
    | nothing undeclared meaningless =>
      obtain ⟨simple, unimported⟩ := qualify?_eq_none_iff.1 meaningless
      exact .unknown (lookup_declared_eq_none_iff.1 undeclared) simple unimported

/-- Every reference of every declared type is what its written name denotes in
the finished index, and a name denotes one thing, whichever names were looked
up before it. -/
theorem declared_references_denote (tree : Tree) :
    List.Forall₂
      (fun id declaration => ∃ entry,
        (ClassIndex.ofTree tree).graph.get? id = some entry ∧
        List.Forall₂ (Denotes tree) (header declaration.node).superclass?.toList
          entry.superclass?.toList ∧
        List.Forall₂ (Denotes tree)
          ((header declaration.node).superclass?.toList ++ (header declaration.node).extended)
          entry.extended ∧
        List.Forall₂ (Denotes tree) (header declaration.node).implemented entry.implemented)
      (ClassIndex.ofTree tree).declared (declarations tree.root) ∧
    ∀ written ref other, Denotes tree written ref → Denotes tree written other →
      ref = other := by
  constructor
  · refine List.forall₂_iff_zip.2 ⟨ClassIndex.length_declared tree, fun hmem => ?_⟩
    obtain ⟨entry, hget, hdescribes⟩ := (ClassIndex.ofTree_spec tree).2 _ hmem
    exact ⟨entry, hget, hdescribes.superclass.imp fun _ _ => denotes_iff_refers.2,
      hdescribes.extended.imp fun _ _ => denotes_iff_refers.2,
      hdescribes.implemented.imp fun _ _ => denotes_iff_refers.2⟩
  · intro written ref other h h'
    exact (denotes_iff_refers.1 h).unique (denotes_iff_refers.1 h')

end RouteScope.Java
