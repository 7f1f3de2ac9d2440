import RouteScope.Proofs.Path

/-!
# Kinds of files by their extensions

There are two ways to ask for the kind of a file, and both disregard the case of
letters.  A program may take the small letters of all of Unicode for that, where one
character can become several and what it becomes can depend on its surroundings, or
those of ASCII alone.  For the names of the kinds this makes no difference, since
no character beyond ASCII becomes a part of them.

* `Lowercasing.lower_eq_name_iff`: small letters of Unicode and of ASCII tell the
  same kinds.
* `ofPath_eq_ok_iff`, `isRouteFile_iff`: when a path has a kind, and when it passes
  the check.
* `file_checks_agree`: the two ways to ask agree.
-/

namespace RouteScope

/-- The small letters of Unicode: what a character becomes, given what stands
before it and behind it.  A character of ASCII becomes its small letter, and no
other one becomes a part of the name of a kind alone. -/
structure Lowercasing where
  small : List Char → Char → List Char → List Char
  ascii : ∀ before c after, c.toNat < 128 → small before c after = [c.toLower]
  foreign : ∀ before c after, 128 ≤ c.toNat →
    ∃ d ∈ small before c after, ∀ kind : FileKind, d ∉ kind.name.toList

namespace Lowercasing

/-- The small letters of what stands behind some characters. -/
def lowerBehind (unicode : Lowercasing) (before : List Char) : List Char → List Char
  | [] => []
  | c :: after => unicode.small before c after ++ unicode.lowerBehind (before ++ [c]) after

/-- A text in small letters. -/
def lower (unicode : Lowercasing) (text : String) : String :=
  String.ofList (unicode.lowerBehind [] text.toList)

variable {unicode : Lowercasing}

theorem lowerBehind_of_ascii {chars : List Char} (h : ∀ c ∈ chars, c.toNat < 128)
    (before : List Char) : unicode.lowerBehind before chars = chars.map Char.toLower := by
  induction chars generalizing before with
  | nil => rfl
  | cons c after ih =>
    rw [lowerBehind, unicode.ascii _ _ _ (h c List.mem_cons_self),
      ih (fun d hd => h d (List.mem_cons_of_mem c hd))]
    rfl

theorem exists_mem_lowerBehind {chars : List Char} {c : Char} (hc : c ∈ chars)
    (hforeign : 128 ≤ c.toNat) (before : List Char) :
    ∃ d ∈ unicode.lowerBehind before chars, ∀ kind : FileKind, d ∉ kind.name.toList := by
  induction chars generalizing before with
  | nil => exact absurd hc List.not_mem_nil
  | cons first after ih =>
    rw [lowerBehind]
    rcases List.mem_cons.1 hc with rfl | hc
    · obtain ⟨d, hd, hout⟩ := unicode.foreign before c after hforeign
      exact ⟨d, List.mem_append_left _ hd, hout⟩
    · obtain ⟨d, hd, hout⟩ := ih hc (before ++ [first])
      exact ⟨d, List.mem_append_right _ hd, hout⟩

end Lowercasing

/-! ## Letters of ASCII -/

theorem toLower_of_foreign {c : Char} (h : 128 ≤ c.toNat) : c.toLower = c := by
  have hcapital : ¬ (c.val ≥ 'A'.val ∧ c.val ≤ 'Z'.val) := by
    simp only [ge_iff_le, UInt32.le_iff_toNat_le]
    change ¬ (65 ≤ c.toNat ∧ c.toNat ≤ 90)
    omega
  exact dif_neg hcapital

namespace FileKind

theorem toNat_lt_of_mem_name {kind : FileKind} : ∀ c ∈ kind.name.toList, c.toNat < 128 := by
  have hname : kind.name.toList.all (fun c => c.toNat < 128) = true := by
    cases kind <;> rfl
  simpa using hname

/-- The names of the kinds are in small letters. -/
theorem sameLetters_name_iff {text : String} {kind : FileKind} :
    Text.sameLetters text kind.name = true ↔ Text.lower text = kind.name.toList := by
  have hname : Text.lower kind.name = kind.name.toList := by
    cases kind <;> decide
  rw [Text.sameLetters, hname, beq_iff_eq]

end FileKind

open FileKind in
/-- Small letters of Unicode and of ASCII tell the same kinds. -/
theorem Lowercasing.lower_eq_name_iff {unicode : Lowercasing} {text : String} {kind : FileKind} :
    unicode.lower text = kind.name ↔ Text.sameLetters text kind.name = true := by
  rw [sameLetters_name_iff, lower, Text.lower, ← String.toList_inj, String.toList_ofList]
  by_cases hascii : ∀ c ∈ text.toList, c.toNat < 128
  · rw [lowerBehind_of_ascii hascii]
  · simp only [not_forall, Nat.not_lt] at hascii
    obtain ⟨c, hc, hforeign⟩ := hascii
    refine iff_of_false (fun heq => ?_) (fun heq => ?_)
    · obtain ⟨d, hd, hout⟩ : ∃ d ∈ unicode.lowerBehind [] text.toList,
          ∀ kind : FileKind, d ∉ kind.name.toList := exists_mem_lowerBehind hc hforeign []
      exact hout kind (heq ▸ hd)
    · have hmem : c ∈ kind.name.toList := by
        rw [← heq, ← toLower_of_foreign hforeign]
        exact List.mem_map_of_mem hc
      exact absurd (toNat_lt_of_mem_name c hmem) (Nat.not_lt.2 hforeign)

/-! ## The kind of a path -/

namespace FileKind

theorem ofExtension_eq_ok_iff {extension : String} {kind : FileKind} :
    ofExtension extension = .ok kind ↔ Text.sameLetters extension kind.name = true := by
  have hchars (name : String) : String.ofList (Text.lower extension) = name ↔
      Text.lower extension = name.toList := by
    rw [← String.toList_inj, String.toList_ofList]
  rw [sameLetters_name_iff, ← hchars, ofExtension]
  split
  · rename_i hjava
    rw [hjava]
    cases kind <;> decide
  · rename_i hxml
    rw [hxml]
    cases kind <;> decide
  · rename_i hjava hxml
    refine iff_of_false (fun h => nomatch h) fun h => ?_
    cases kind with
    | java => exact hjava h
    | xml => exact hxml h

theorem eq_of_ofExtension_eq_error {extension : String} {failure : Failure}
    (h : ofExtension extension = .error failure) : failure = .unsupportedFile extension := by
  rw [ofExtension] at h
  split at h
  · exact nomatch h
  · exact nomatch h
  · exact (Except.error.inj h).symm

/-- A path has the kind whose name is its extension, apart from the case of letters. -/
theorem ofPath_eq_ok_iff {path : Path} {kind : FileKind} :
    ofPath path = .ok kind ↔
      ∃ extension, path.HasExtension (Text.bytes extension) ∧
        Text.sameLetters extension kind.name = true := by
  simp only [← Path.extensionText?_eq_some_iff]
  rw [ofPath]
  cases hextension : path.extensionText? with
  | none => simp
  | some extension => simp [ofExtension_eq_ok_iff]

/-- A path without a kind is refused with its extension as it is written, or with
`none` if no text is its extension. -/
theorem refused_of_ofPath_eq_error {path : Path} {failure : Failure}
    (h : ofPath path = .error failure) :
    (∃ extension, path.HasExtension (Text.bytes extension) ∧
        failure = .unsupportedFile extension) ∨
      (∀ extension, ¬ path.HasExtension (Text.bytes extension)) ∧
        failure = .unsupportedFile "none" := by
  simp only [← Path.extensionText?_eq_some_iff]
  rw [ofPath] at h
  cases hextension : path.extensionText? with
  | none =>
    rw [hextension] at h
    exact .inr ⟨fun extension => (Option.some_ne_none extension).symm, (Except.error.inj h).symm⟩
  | some extension =>
    rw [hextension] at h
    exact .inl ⟨extension, rfl, eq_of_ofExtension_eq_error h⟩

/-- The names of the kinds are the extensions of route files. -/
theorem mem_routeExtensions_iff {extension : String} :
    extension ∈ routeExtensions ↔ ∃ kind : FileKind, kind.name = extension := by
  constructor
  · intro h
    rcases List.mem_cons.1 h with rfl | h
    · exact ⟨.java, rfl⟩
    · exact ⟨.xml, (List.mem_singleton.1 h).symm⟩
  · rintro ⟨kind, rfl⟩
    cases kind <;> decide

end FileKind

theorem isRouteFile_iff {path : Path} :
    isRouteFile path = true ↔
      ∃ extension, path.HasExtension (Text.bytes extension) ∧
        ∃ known ∈ routeExtensions, Text.sameLetters extension known = true := by
  simp only [← Path.extensionText?_eq_some_iff]
  rw [isRouteFile, Option.any_eq_true]
  simp only [List.any_eq_true]

/-! ## Agreement -/

/-- A path passes the check exactly if it has a kind.  Then its extension, in small
letters of Unicode or apart from the case of letters of ASCII, is the name of the
kind, which is one of the known extensions.  Any other path is refused with its
extension as it is written, or with `none` if it has no extension or one that is no
text. -/
theorem file_checks_agree (unicode : Lowercasing) (path : Path) :
    (isRouteFile path = true ↔ ∃ kind, FileKind.ofPath path = .ok kind) ∧
    (∀ kind, FileKind.ofPath path = .ok kind ↔
      ∃ extension, path.HasExtension (Text.bytes extension) ∧
        unicode.lower extension = kind.name) ∧
    (∀ kind, FileKind.ofPath path = .ok kind →
      kind.name ∈ routeExtensions ∧
        ∃ extension, path.HasExtension (Text.bytes extension) ∧
          Text.sameLetters extension kind.name = true) ∧
    (∀ failure, FileKind.ofPath path = .error failure →
      (∃ extension, path.HasExtension (Text.bytes extension) ∧
          failure = .unsupportedFile extension) ∨
        (∀ extension, ¬ path.HasExtension (Text.bytes extension)) ∧
          failure = .unsupportedFile "none") := by
  refine ⟨?agree, ?unicode, ?ascii, fun failure => FileKind.refused_of_ofPath_eq_error⟩
  case agree =>
    rw [isRouteFile_iff]
    constructor
    · rintro ⟨extension, hextension, known, hknown, hsame⟩
      obtain ⟨kind, rfl⟩ := FileKind.mem_routeExtensions_iff.1 hknown
      exact ⟨kind, FileKind.ofPath_eq_ok_iff.2 ⟨extension, hextension, hsame⟩⟩
    · rintro ⟨kind, hkind⟩
      obtain ⟨extension, hextension, hsame⟩ := FileKind.ofPath_eq_ok_iff.1 hkind
      exact ⟨extension, hextension, kind.name,
        FileKind.mem_routeExtensions_iff.2 ⟨kind, rfl⟩, hsame⟩
  case unicode =>
    intro kind
    simp only [Lowercasing.lower_eq_name_iff]
    exact FileKind.ofPath_eq_ok_iff
  case ascii =>
    exact fun kind hkind =>
      ⟨FileKind.mem_routeExtensions_iff.2 ⟨kind, rfl⟩, FileKind.ofPath_eq_ok_iff.1 hkind⟩

/-- The small letters of ASCII, and that of the Kelvin sign, the one character beyond
ASCII that becomes a letter of ASCII. -/
def Lowercasing.kelvin : Lowercasing where
  small _ c _ := if c = '\u212A' then ['k'] else [c.toLower]
  ascii _ c _ h := by
    have hne : c ≠ '\u212A' := by
      rintro rfl
      exact absurd h (by decide)
    rw [if_neg hne]
  foreign _ c _ h := by
    split
    · refine ⟨'k', List.mem_singleton_self _, fun kind => ?_⟩
      cases kind <;> decide
    · refine ⟨c.toLower, List.mem_singleton_self _, fun kind hmem => ?_⟩
      rw [toLower_of_foreign h] at hmem
      exact absurd (FileKind.toNat_lt_of_mem_name c hmem) (Nat.not_lt.2 h)

/-- The path of a file whose name has two dots and ends in capital letters.  The
path goes on behind the name. -/
def capitalPath : Path := .ofText "routes/../.camel/Main.Route.JAVA/./"

theorem file_checks_agree_capitals :
    isRouteFile capitalPath = true ∧ FileKind.ofPath capitalPath = .ok .java ∧
      ∃ extension, capitalPath.HasExtension (Text.bytes extension) ∧
        Lowercasing.kelvin.lower extension = "java" := by
  have hkind : FileKind.ofPath capitalPath = .ok .java := by decide +kernel
  obtain ⟨hagree, hunicode, -⟩ := file_checks_agree Lowercasing.kelvin capitalPath
  exact ⟨hagree.2 ⟨.java, hkind⟩, hkind, (hunicode .java).1 hkind⟩

/-- The path of a file whose extension is the letter `é` in Latin-1. -/
def latinPath : Path := ⟨Text.bytes "Route." ++ [0xE9]⟩

/-- The extension is one byte that is no text.  The path is refused as if it had no
extension at all, and not with its extension as it is written. -/
theorem refused_latinPath :
    latinPath.HasExtension [0xE9] ∧ isRouteFile latinPath = false ∧
      FileKind.ofPath latinPath = .error (.unsupportedFile "none") ∧
      ¬ ((∃ extension, latinPath.HasExtension (Text.bytes extension) ∧
            FileKind.ofPath latinPath = .error (.unsupportedFile extension)) ∨
          (∀ extension, ¬ latinPath.HasExtension extension) ∧
            FileKind.ofPath latinPath = .error (.unsupportedFile "none")) := by
  have hextension : latinPath.HasExtension [0xE9] := by
    rw [← Path.extension?_eq_some_iff]
    decide +kernel
  refine ⟨hextension, by decide +kernel, by decide +kernel, ?_⟩
  rintro (⟨extension, htext, -⟩ | ⟨hnone, -⟩)
  · have hbytes : Text.ofBytes? [0xE9] = some extension :=
      Text.ofBytes?_eq_some_iff.2 (hextension.unique htext)
    have hforeign : Text.ofBytes? [0xE9] = none := by decide +kernel
    rw [hforeign] at hbytes
    exact absurd hbytes.symm (Option.some_ne_none extension)
  · exact hnone [0xE9] hextension

end RouteScope
