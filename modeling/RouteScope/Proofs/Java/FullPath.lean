import RouteScope.Proofs.Java.Bean
import RouteScope.Proofs.Java.Reference

/-!
# References by full path

A type may be referred to by its full path: by its own name and the names of all
types around it, joined by dots.  Such a path is one of the names of the type,
but it may be a name of another type too, since the end of every nesting path
names a type.  With the types `B` and `A.B` in a file, both are called `B`, and
the one that is declared first has the name.

* `isCalled_pathName_iff`: a full path names the types whose paths end with it.
* `lookup_pathName_iff`: it stands for its own type unless a nested namesake is
  declared before that.
* `full_path_refers_iff`: all references of all declared types.
-/

namespace RouteScope.Java

/-- The names on the nesting path of a type, joined by dots. -/
def Declaration.pathName (declaration : Declaration) : String :=
  ".".intercalate declaration.path

/-- The other type is nested, and the inner part of its path is the path of the
type. -/
def Declaration.IsNestedNamesake (other declaration : Declaration) : Prop :=
  ∃ outer : List String, outer ≠ [] ∧ other.path = outer ++ declaration.path

/-- No name of a declared type has a dot in it. -/
def HasDotlessPaths (tree : Tree) : Prop :=
  ∀ declaration ∈ declarations tree.root, ∀ name ∈ declaration.path, '.' ∉ name.toList

/-- If the written name is the full path of a declared type, the reference is to a
type of the file, and it is to that very type exactly if no nested namesake is
declared before it. -/
def FindsByPath (tree : Tree) (written : String) (ref : TypeRef) : Prop :=
  ∀ (place : Nat) (target : Declaration) (id : ClassId),
    (declarations tree.root)[place]? = some target →
    (ClassIndex.ofTree tree).declared[place]? = some id →
    written = target.pathName →
      (∃ found ∈ (ClassIndex.ofTree tree).declared, ref = .resolved found) ∧
      (ref = .resolved id ↔ ∀ earlier < place, ∀ other,
        (declarations tree.root)[earlier]? = some other → ¬ other.IsNestedNamesake target)

variable {tree : Tree}

/-! ## Full paths among the names of types -/

/-- The types that are called by the full path of a type are those whose paths end
with its path. -/
theorem isCalled_pathName_iff (dotless : HasDotlessPaths tree) {other target : Declaration}
    (hother : other ∈ declarations tree.root) (htarget : target ∈ declarations tree.root) :
    other.IsCalled target.pathName ↔ target.path <:+ other.path := by
  constructor
  · rintro ⟨suffix, hne, hsuffix, hjoined⟩
    have hpath : suffix = target.path :=
      Text.intercalate_inj hne (path_ne_nil htarget)
        (fun name hname => dotless other hother name (hsuffix.subset hname))
        (dotless target htarget) hjoined
    exact hpath ▸ hsuffix
  · exact fun hsuffix => ⟨target.path, path_ne_nil htarget, hsuffix, rfl⟩

/-- Another path that ends with the path of a type is longer than that. -/
theorem isNestedNamesake_iff {other target : Declaration} (hne : other.path ≠ target.path) :
    other.IsNestedNamesake target ↔ target.path <:+ other.path := by
  constructor
  · rintro ⟨outer, -, hpath⟩
    exact ⟨outer, hpath.symm⟩
  · rintro ⟨outer, hpath⟩
    refine ⟨outer, ?_, hpath.symm⟩
    rintro rfl
    exact hne hpath.symm

/-- Declarations with different numbers have different paths. -/
theorem path_ne_of_lt (distinct : ((declarations tree.root).map (·.path)).Nodup)
    {earlier place : Nat} {other target : Declaration} (hlt : earlier < place)
    (hother : (declarations tree.root)[earlier]? = some other)
    (htarget : (declarations tree.root)[place]? = some target) : other.path ≠ target.path := by
  intro heq
  have hearlier : ((declarations tree.root).map (·.path))[earlier]? = some other.path := by
    rw [List.getElem?_map, hother, Option.map_some]
  have hplace : ((declarations tree.root).map (·.path))[place]? = some other.path := by
    rw [List.getElem?_map, htarget, Option.map_some, heq]
  obtain ⟨hbound, -⟩ := List.getElem?_eq_some_iff.1 hearlier
  exact absurd ((List.getElem?_inj hbound distinct).1 (hearlier.trans hplace.symm))
    (Nat.ne_of_lt hlt)

/-! ## Looking up a full path -/

section Lookup

variable {place : Nat} {target : Declaration}
  (htarget : (declarations tree.root)[place]? = some target)

include htarget

/-- A full path is a name of its own type, so it is known. -/
theorem exists_lookup_pathName : ∃ found,
    (ClassIndex.scopeOf tree).declared.lookup target.pathName = some found := by
  have hmem := List.mem_of_getElem? htarget
  refine Option.ne_none_iff_exists'.1 fun hnone => ?_
  exact lookup_declared_eq_none_iff.1 hnone target hmem
    ⟨target.path, path_ne_nil hmem, List.suffix_refl _, rfl⟩

/-- A full path is looked up as its own type unless a nested namesake comes
before. -/
theorem lookup_pathName_iff (dotless : HasDotlessPaths tree)
    (distinct : ((declarations tree.root).map (·.path)).Nodup) {id : ClassId}
    (hid : (ClassIndex.ofTree tree).declared[place]? = some id) :
    (ClassIndex.scopeOf tree).declared.lookup target.pathName = some id ↔
      ∀ earlier < place, ∀ other, (declarations tree.root)[earlier]? = some other →
        ¬ other.IsNestedNamesake target := by
  have hmem := List.mem_of_getElem? htarget
  have hcalled {earlier : Nat} (hlt : earlier < place) {other : Declaration}
      (hother : (declarations tree.root)[earlier]? = some other) :
      other.IsCalled target.pathName ↔ other.IsNestedNamesake target := by
    rw [isCalled_pathName_iff dotless (List.mem_of_getElem? hother) hmem,
      isNestedNamesake_iff (path_ne_of_lt distinct hlt hother htarget)]
  have hown : target.pathName ∈ suffixes target.path :=
    isCalled_iff.1 ((isCalled_pathName_iff dotless hmem hmem).2 (List.suffix_refl _))
  rw [lookup_declared_eq, ClassIndex.find?_numbered_iff_of_getElem?
    (fun declaration => target.pathName ∈ suffixes declaration.path) htarget hid
    (decide_eq_true hown)]
  refine forall₄_congr fun earlier hlt other hother => ?_
  rw [decide_eq_false_iff_not, ← isCalled_iff, hcalled hlt hother]

end Lookup

/-- Whatever a name refers to is found by its path. -/
theorem findsByPath_of_refers (dotless : HasDotlessPaths tree)
    (distinct : ((declarations tree.root).map (·.path)).Nodup) {written : String} {ref : TypeRef}
    (refers : (ClassIndex.scopeOf tree).Refers (ClassIndex.ofTree tree).graph written ref) :
    FindsByPath tree written ref := by
  rintro place target id htarget hid rfl
  obtain ⟨found, hfound⟩ := exists_lookup_pathName htarget
  obtain rfl : ref = .resolved found := refers.unique (.declared hfound)
  refine ⟨⟨found, ClassIndex.mem_declared_of_lookup hfound, rfl⟩, ?_⟩
  rw [← lookup_pathName_iff htarget dotless distinct hid, hfound, TypeRef.resolved.injEq,
    Option.some.injEq]

/-! ## All references -/

/-- Where the nesting paths of the declared types are pairwise different, a reference
by the full path of a declared type is to a type of the file, and it is to that very
type exactly if no nested type whose path ends with the same names is declared before
it.  This holds for every reference of every declared type. -/
theorem full_path_refers_iff (tree : Tree) (dotless : HasDotlessPaths tree)
    (distinct : ((declarations tree.root).map (·.path)).Nodup) :
    ∀ p ∈ ClassIndex.numbered tree, ∃ entry,
      (ClassIndex.ofTree tree).graph.get? p.1 = some entry ∧
      List.Forall₂ (FindsByPath tree) (header p.2.node).superclass?.toList
        entry.superclass?.toList ∧
      List.Forall₂ (FindsByPath tree)
        ((header p.2.node).superclass?.toList ++ (header p.2.node).extended) entry.extended ∧
      List.Forall₂ (FindsByPath tree) (header p.2.node).implemented entry.implemented := by
  intro p hp
  obtain ⟨entry, hget, hdescribes⟩ := (ClassIndex.ofTree_spec tree).2 p hp
  have finds {names : List String} {refs : List TypeRef}
      (h : List.Forall₂ ((ClassIndex.scopeOf tree).Refers (ClassIndex.ofTree tree).graph)
        names refs) : List.Forall₂ (FindsByPath tree) names refs :=
    h.imp fun _ _ => findsByPath_of_refers dotless distinct
  exact ⟨entry, hget, finds hdescribes.superclass, finds hdescribes.extended,
    finds hdescribes.implemented⟩

/-- A file whose class `C` extends the class `B`, and in which a class `A.B` is
declared before that. -/
def shadowedFile : Tree :=
  .node ⟨"program", true, "class A { class B {} } class B {} class C extends B {}", 0, 0, none⟩
    [.node ⟨"class_declaration", true, "class A { class B {} }", 0, 0, none⟩
      [.node ⟨"class", false, "class", 0, 0, none⟩ [],
        .node ⟨"identifier", true, "A", 6, 0, some "name"⟩ [],
        .node ⟨"class_body", true, "{ class B {} }", 8, 0, some "body"⟩
          [.node ⟨"\x7b", false, "\x7b", 8, 0, none⟩ [],
            .node ⟨"class_declaration", true, "class B {}", 10, 0, none⟩
              [.node ⟨"class", false, "class", 10, 0, none⟩ [],
                .node ⟨"identifier", true, "B", 16, 0, some "name"⟩ [],
                .node ⟨"class_body", true, "{}", 18, 0, some "body"⟩
                  [.node ⟨"\x7b", false, "\x7b", 18, 0, none⟩ [],
                    .node ⟨"\x7d", false, "\x7d", 19, 0, none⟩ []]],
            .node ⟨"\x7d", false, "\x7d", 21, 0, none⟩ []]],
      .node ⟨"class_declaration", true, "class B {}", 23, 0, none⟩
        [.node ⟨"class", false, "class", 23, 0, none⟩ [],
          .node ⟨"identifier", true, "B", 29, 0, some "name"⟩ [],
          .node ⟨"class_body", true, "{}", 31, 0, some "body"⟩
            [.node ⟨"\x7b", false, "\x7b", 31, 0, none⟩ [],
              .node ⟨"\x7d", false, "\x7d", 32, 0, none⟩ []]],
      .node ⟨"class_declaration", true, "class C extends B {}", 34, 0, none⟩
        [.node ⟨"class", false, "class", 34, 0, none⟩ [],
          .node ⟨"identifier", true, "C", 40, 0, some "name"⟩ [],
          .node ⟨"superclass", true, "extends B", 42, 0, some "superclass"⟩
            [.node ⟨"extends", false, "extends", 42, 0, none⟩ [],
              .node ⟨"type_identifier", true, "B", 50, 0, none⟩ []],
          .node ⟨"class_body", true, "{}", 52, 0, some "body"⟩
            [.node ⟨"\x7b", false, "\x7b", 52, 0, none⟩ [],
              .node ⟨"\x7d", false, "\x7d", 53, 0, none⟩ []]]]

theorem paths_shadowedFile : (declarations shadowedFile.root).map (·.path) =
    [["A"], ["A", "B"], ["B"], ["C"]] := by
  rw [declarations_root_eq]
  decide

/-- The superclass `B` of `C` is not the type 11, which has the path `B`. -/
theorem full_path_refers_iff_shadowed :
    HasDotlessPaths shadowedFile ∧ ((declarations shadowedFile.root).map (·.path)).Nodup ∧
      ((ClassIndex.ofTree shadowedFile).graph.get? 12).bind (·.superclass?) ≠
        some (.resolved 11) := by
  have dotless : HasDotlessPaths shadowedFile := by
    intro declaration hmem name hname
    have hpath : declaration.path ∈ [["A"], ["A", "B"], ["B"], ["C"]] :=
      paths_shadowedFile ▸ List.mem_map_of_mem hmem
    have hnames : ∀ path ∈ [["A"], ["A", "B"], ["B"], ["C"]], ∀ name ∈ path,
        '.' ∉ name.toList := by
      decide
    exact hnames _ hpath name hname
  have distinct : ((declarations shadowedFile.root).map (·.path)).Nodup := by
    rw [paths_shadowedFile]
    decide
  refine ⟨dotless, distinct, fun hsuper => ?_⟩
  have hdeclared : (ClassIndex.ofTree shadowedFile).declared = [9, 10, 11, 12] := by
    rw [ClassIndex.ofTree, declarations_root_eq]
    decide
  have hwritten : ∀ p ∈ ClassIndex.numbered shadowedFile, p.1 = 12 →
      (header p.2.node).superclass? = some "B" := by
    rw [ClassIndex.numbered, hdeclared, declarations_root_eq]
    decide
  have hpaths (place : Nat) : (declarations shadowedFile.root)[place]?.map (·.path) =
      [["A"], ["A", "B"], ["B"], ["C"]][place]? := by
    rw [← paths_shadowedFile, List.getElem?_map]
  obtain ⟨nested, hnested, hnestedPath⟩ := Option.map_eq_some_iff.1 (hpaths 1)
  obtain ⟨target, htarget, htargetPath⟩ := Option.map_eq_some_iff.1 (hpaths 2)
  have hlast : 12 ∈ (ClassIndex.ofTree shadowedFile).declared := by
    rw [hdeclared]
    decide
  obtain ⟨declaration, hp⟩ := ClassIndex.exists_mem_numbered hlast
  obtain ⟨entry, hget, hfinds, -, -⟩ := full_path_refers_iff shadowedFile dotless distinct _ hp
  rw [hget, Option.bind_some] at hsuper
  rw [hwritten _ hp rfl, hsuper] at hfinds
  obtain ⟨hB, -⟩ := List.forall₂_cons.1 hfinds
  have hname : "B" = target.pathName := by
    rw [Declaration.pathName, htargetPath]
    decide
  have honly := (hB 2 target 11 htarget (by rw [hdeclared]; rfl) hname).2.1 rfl
  exact honly 1 (by decide) nested hnested ⟨["A"], by decide, by rw [hnestedPath, htargetPath]; rfl⟩

/-- The superclass `B` of `C` is the type 10, which has the path `A.B`. -/
theorem superclass_shadowedFile :
    (declarations shadowedFile.root).map (fun d => (d.path, (header d.node).superclass?)) =
      [(["A"], none), (["A", "B"], none), (["B"], none), (["C"], some "B")] ∧
    (ClassIndex.ofTree shadowedFile).declared = [9, 10, 11, 12] ∧
      ((ClassIndex.ofTree shadowedFile).graph.get? 12).bind (·.superclass?) =
        some (.resolved 10) := by
  simp only [ClassIndex.ofTree, declarations_root_eq]
  decide

end RouteScope.Java
