import Mathlib.Data.List.TakeWhile
import RouteScope.FileKind

/-!
# File names and extensions

A path is a row of parts with slashes between them, and its file name is the last
part that is neither empty nor `.`.  An extension is what stands behind the last
dot of the file name, unless nothing stands in front of that dot.  Here both are
told by how the path is written, without a search.  All of them are rows of bytes;
none has to be a text.

* `fileName?_eq_some_iff`: the file name of a path.
* `extension?_eq_some_iff`: the extension of a path.
* `extensionText?_eq_some_iff`: the extension of a path as a text.
-/

namespace RouteScope

section Lists

variable {α : Type} {items rest : List α} {item : α}

/-- A list that is cut at its last element that fails the test. -/
theorem eq_append_of_dropWhile_reverse_eq_cons {test : α → Bool}
    (h : items.reverse.dropWhile test = item :: rest) :
    test item = false ∧
      items = rest.reverse ++ item :: (items.reverse.takeWhile test).reverse := by
  have hcut : items.reverse.takeWhile test ++ item :: rest = items.reverse := by
    rw [← h, List.takeWhile_append_dropWhile]
  have hitem := List.head_dropWhile_not test (l := items.reverse) (by simp [h])
  have hitems := congrArg List.reverse hcut
  rw [List.reverse_reverse, List.reverse_append, List.reverse_cons, List.append_assoc] at hitems
  exact ⟨by simpa [h] using hitem, hitems.symm⟩

/-- The last element that fails the test is found again. -/
theorem dropWhile_reverse_append_cons {test : α → Bool} {front behind : List α}
    (hitem : test item = false) (hbehind : ∀ other ∈ behind, test other = true) :
    (front ++ item :: behind).reverse.dropWhile test = item :: front.reverse := by
  have hreverse : ∀ other ∈ behind.reverse, test other = true :=
    fun other hother => hbehind other (List.mem_reverse.1 hother)
  rw [List.reverse_append, List.reverse_cons, List.append_assoc,
    List.dropWhile_append_of_pos hreverse, List.singleton_append,
    List.dropWhile_cons_of_neg (Bool.eq_false_iff.1 hitem)]

/-- What stands behind the last element that fails the test. -/
theorem takeWhile_reverse_append_cons {test : α → Bool} {front behind : List α}
    (hitem : test item = false) (hbehind : ∀ other ∈ behind, test other = true) :
    ((front ++ item :: behind).reverse.takeWhile test).reverse = behind := by
  have hreverse : ∀ other ∈ behind.reverse, test other = true :=
    fun other hother => hbehind other (List.mem_reverse.1 hother)
  rw [List.reverse_append, List.reverse_cons, List.append_assoc,
    List.takeWhile_append_of_pos hreverse, List.singleton_append,
    List.takeWhile_cons_of_neg (Bool.eq_false_iff.1 hitem), List.append_nil, List.reverse_reverse]

theorem of_mem_reverse_takeWhile {test : α → Bool} {other : α}
    (h : other ∈ (items.takeWhile test).reverse) : test other = true :=
  List.mem_takeWhile_imp (List.mem_reverse.1 h)

variable [BEq α] [LawfulBEq α]

theorem not_mem_of_mem_splitOn {part : List α} (h : part ∈ items.splitOn item) : item ∉ part := by
  induction items generalizing part with
  | nil =>
    obtain rfl : part = [] := by simpa using h
    exact List.not_mem_nil
  | cons first items ih =>
    rw [List.splitOn_cons_eq_if_modifyHead] at h
    split at h
    · rcases List.mem_cons.1 h with rfl | h
      · exact List.not_mem_nil
      · exact ih h
    · rename_i hne
      cases hparts : items.splitOn item with
      | nil => exact absurd hparts (List.splitOn_ne_nil item items)
      | cons front parts =>
        rw [hparts, List.modifyHead_cons] at h
        rcases List.mem_cons.1 h with rfl | h
        · have hfront : item ∉ front := ih (hparts ▸ List.mem_cons_self)
          rw [List.mem_cons]
          rintro (rfl | hmem)
          · exact hne (beq_self_eq_true _)
          · exact hfront hmem
        · exact ih (hparts ▸ List.mem_cons_of_mem front h)

/-- Parts in front that can be split further do not change the parts behind. -/
theorem splitOn_intercalate_append {outer parts : List (List α)}
    (h : ∀ part ∈ parts, item ∉ part) (hne : parts ≠ []) :
    ([item].intercalate (outer ++ parts)).splitOn item =
      outer.flatMap (·.splitOn item) ++ parts := by
  induction outer with
  | nil => exact List.splitOn_intercalate item h hne
  | cons part outer ih =>
    obtain ⟨next, others, hrest⟩ : ∃ next others, outer ++ parts = next :: others :=
      List.exists_cons_of_ne_nil (List.append_ne_nil_of_right_ne_nil outer hne)
    rw [hrest] at ih
    rw [List.cons_append, hrest, List.intercalate_cons_cons, List.append_assoc,
      List.singleton_append, List.splitOn_append_cons_self, ih, List.flatMap_cons,
      List.append_assoc]

end Lists

namespace Path

/-- The name is the last part of the path at which the path does not just stay where
it is, and it does not lead a folder up. -/
structure IsFileName (path : Path) (name : List UInt8) : Prop where
  written : ∃ outer skipped : List (List UInt8),
    path.bytes = [slash].intercalate (outer ++ name :: skipped) ∧
      ∀ part ∈ skipped, part = [] ∨ part = [dot]
  noSlash : slash ∉ name
  proper : name ≠ [] ∧ name ≠ [dot] ∧ name ≠ [dot, dot]

/-- The extension stands behind the last dot of the file name, and something stands
in front of that dot. -/
def HasExtension (path : Path) (extension : List UInt8) : Prop :=
  ∃ stem, path.IsFileName (stem ++ dot :: extension) ∧ stem ≠ [] ∧ dot ∉ extension

variable {path : Path} {name extension : List UInt8}

/-! ## File names -/

/-- The path stays where it is at an empty part and at `.`. -/
theorem stays_iff {part : List UInt8} :
    (part == [] || part == [dot]) = true ↔ part = [] ∨ part = [dot] := by
  simp

theorem fileName?_eq_some_iff : path.fileName? = some name ↔ path.IsFileName name := by
  constructor
  · intro h
    rw [fileName?] at h
    split at h
    · exact absurd h.symm (Option.some_ne_none name)
    · rename_i last rest hlast
      split at h
      · exact absurd h.symm (Option.some_ne_none name)
      · rename_i hup
        obtain rfl := Option.some.inj h
        obtain ⟨hstays, hparts⟩ := eq_append_of_dropWhile_reverse_eq_cons hlast
        have hbytes : [slash].intercalate (path.bytes.splitOn slash) = path.bytes :=
          List.intercalate_splitOn slash
        rw [hparts] at hbytes
        refine ⟨⟨_, _, hbytes.symm, fun part hpart => ?_⟩, ?_, ?_⟩
        · have hstay := of_mem_reverse_takeWhile hpart
          exact stays_iff.1 hstay
        · exact not_mem_of_mem_splitOn (hparts ▸ List.mem_append_right _ List.mem_cons_self)
        · simpa [and_assoc] using And.intro hstays hup
  · rintro ⟨⟨outer, skipped, hbytes, hskipped⟩, hslash, hempty, hdot, hup⟩
    have hparts : path.bytes.splitOn slash =
        outer.flatMap (·.splitOn slash) ++ name :: skipped := by
      rw [hbytes]
      refine splitOn_intercalate_append (fun part hpart => ?_) (List.cons_ne_nil _ _)
      rcases List.mem_cons.1 hpart with rfl | hpart
      · exact hslash
      · rcases hskipped part hpart with rfl | rfl <;> decide
    have hstays : ∀ part ∈ skipped, (part == [] || part == [dot]) = true :=
      fun part hpart => stays_iff.2 (hskipped part hpart)
    have hname : (name == [] || name == [dot]) = false := by
      rw [Bool.eq_false_iff, ne_eq, stays_iff]
      exact fun h => h.elim hempty hdot
    have hlast : (outer.flatMap (·.splitOn slash) ++ name :: skipped).reverse.dropWhile
        (fun part => part == [] || part == [dot]) =
          name :: (outer.flatMap (·.splitOn slash)).reverse :=
      dropWhile_reverse_append_cons hname hstays
    rw [fileName?, hparts, hlast]
    simp [hup]

/-! ## Extensions -/

/-- The extension of a file name. -/
theorem extension?_of_fileName? (h : path.fileName? = some name) :
    path.extension? = some extension ↔
      ∃ stem, name = stem ++ dot :: extension ∧ stem ≠ [] ∧ dot ∉ extension := by
  rw [extension?, h]
  simp only [Option.bind_eq_bind, Option.bind_some]
  constructor
  · intro hfound
    split at hfound
    · exact absurd hfound.symm (Option.some_ne_none extension)
    · rename_i hfront
      obtain rfl := Option.some.inj hfound
      obtain ⟨last, front, hcut⟩ : ∃ last front,
          name.reverse.dropWhile (· != dot) = last :: front := by
        refine List.exists_cons_of_ne_nil fun hnil => hfront ?_
        rw [hnil]
        rfl
      obtain ⟨hlast, hname⟩ := eq_append_of_dropWhile_reverse_eq_cons hcut
      obtain rfl : last = dot := by simpa using hlast
      rw [hcut, List.drop_one, List.tail_cons, List.isEmpty_iff] at hfront
      refine ⟨front.reverse, hname, List.reverse_ne_nil_iff.2 hfront, fun hmem => ?_⟩
      exact absurd (of_mem_reverse_takeWhile hmem) (by simp)
  · rintro ⟨stem, rfl, hstem, hdot⟩
    have hpass : ∀ byte ∈ extension, (byte != dot) = true := by
      intro byte hbyte
      rw [bne_iff_ne]
      rintro rfl
      exact hdot hbyte
    have hmark : (dot != dot) = false := by decide
    have hfront : (stem ++ dot :: extension).reverse.dropWhile (· != dot) = dot :: stem.reverse :=
      dropWhile_reverse_append_cons hmark hpass
    have hback : ((stem ++ dot :: extension).reverse.takeWhile (· != dot)).reverse = extension :=
      takeWhile_reverse_append_cons hmark hpass
    rw [hfront, hback]
    simp [hstem]

theorem extension?_eq_some_iff : path.extension? = some extension ↔ path.HasExtension extension := by
  constructor
  · intro h
    cases hname : path.fileName? with
    | none => simp [extension?, hname] at h
    | some name =>
      obtain ⟨stem, rfl, hstem, hdot⟩ := (extension?_of_fileName? hname).1 h
      exact ⟨stem, fileName?_eq_some_iff.1 hname, hstem, hdot⟩
  · rintro ⟨stem, hname, hstem, hdot⟩
    exact (extension?_of_fileName? (fileName?_eq_some_iff.2 hname)).2 ⟨stem, rfl, hstem, hdot⟩

/-- A path has one extension at most. -/
theorem HasExtension.unique {other : List UInt8} (h : path.HasExtension extension)
    (hother : path.HasExtension other) : extension = other :=
  Option.some.inj ((extension?_eq_some_iff.2 h).symm.trans (extension?_eq_some_iff.2 hother))

theorem extensionText?_eq_some_iff {text : String} :
    path.extensionText? = some text ↔ path.HasExtension (Text.bytes text) := by
  rw [extensionText?, Option.bind_eq_some_iff]
  constructor
  · rintro ⟨extension, hextension, htext⟩
    obtain rfl := Text.ofBytes?_eq_some_iff.1 htext
    exact extension?_eq_some_iff.1 hextension
  · intro h
    exact ⟨Text.bytes text, extension?_eq_some_iff.2 h, Text.ofBytes?_eq_some_iff.2 rfl⟩

end Path

end RouteScope
