import Mathlib.Data.List.TakeDrop
import Mathlib.Data.List.TakeWhile
import RouteScope.Text.Split

/-!
# Cutting a string at a mark

`splitFirst?` finds the only way to write a string as a part without the mark,
the mark, and a rest.  There is such a way exactly if the mark occurs in the
string.

`afterLast` sees nothing in front of a mark, and gives back what was put behind
one, as long as that has no mark in it.

Names without dots can be told from the text that they make when dots join them
(`intercalate_inj`).
-/

namespace RouteScope.Text

/-- All characters of a text pass the test for a mark that does not occur in
it. -/
theorem forall_bne_of_not_mem {mark : Char} {chars : List Char} (h : mark ∉ chars) :
    ∀ c ∈ chars, (c != mark) = true := by
  intro c hc
  simpa using fun heq : c = mark => h (heq ▸ hc)

theorem splitFirst?_append {mark : Char} {front : String} (rest : String)
    (hfront : mark ∉ front.toList) :
    splitFirst? mark (front ++ String.singleton mark ++ rest) = some (front, rest) := by
  have hpass := forall_bne_of_not_mem hfront
  have hchars : (front ++ String.singleton mark ++ rest).toList =
      front.toList ++ mark :: rest.toList := by simp
  rw [splitFirst?, hchars, List.span_eq_takeWhile_dropWhile,
    List.takeWhile_append_of_pos hpass, List.dropWhile_append_of_pos hpass]
  simp

/-- A string in which the mark occurs is cut in front of its first mark. -/
theorem exists_eq_append_of_mem {mark : Char} {text : String} (h : mark ∈ text.toList) :
    ∃ front rest : String,
      text = front ++ String.singleton mark ++ rest ∧ mark ∉ front.toList := by
  obtain ⟨front, rest, hchars, hfront⟩ := List.eq_append_cons_of_mem h
  refine ⟨String.ofList front, String.ofList rest, ?_, by simpa using hfront⟩
  rw [← String.toList_inj, hchars]
  simp

theorem splitFirst?_eq_none_iff {mark : Char} {text : String} :
    splitFirst? mark text = none ↔ mark ∉ text.toList := by
  constructor
  · intro h hmem
    obtain ⟨front, rest, rfl, hfront⟩ := exists_eq_append_of_mem hmem
    rw [splitFirst?_append rest hfront] at h
    simp at h
  · intro h
    rw [splitFirst?, List.span_eq_takeWhile_dropWhile,
      List.dropWhile_eq_nil_iff.2 (forall_bne_of_not_mem h)]

theorem afterLast_eq_self {mark : Char} {text : String} (h : mark ∉ text.toList) :
    afterLast mark text = text := by
  have hpass := forall_bne_of_not_mem (mt List.mem_reverse.1 h)
  rw [afterLast, List.takeWhile_eq_self_iff.2 hpass]
  simp

/-- What stands in front of a mark is left out. -/
theorem afterLast_append (mark : Char) (front rest : String) :
    afterLast mark (front ++ String.singleton mark ++ rest) = afterLast mark rest := by
  have hchars : (front ++ String.singleton mark ++ rest).toList.reverse =
      rest.toList.reverse ++ mark :: front.toList.reverse := by simp
  have hmark : (mark :: front.toList.reverse).takeWhile (· != mark) = [] := by simp
  rw [afterLast, hchars, List.takeWhile_append, hmark, List.append_nil]
  split
  · rename_i hall
    rw [afterLast, (List.takeWhile_prefix _).eq_of_length hall]
  · rfl

/-- Of some names that are joined by dots, the first ones do not matter. -/
theorem afterLast_intercalate_append {names : List String} (outer : List String)
    (hnames : names ≠ []) : afterLast '.' (".".intercalate (outer ++ names)) =
      afterLast '.' (".".intercalate names) := by
  by_cases houter : outer = []
  · rw [houter, List.nil_append]
  · rw [String.intercalate_append_of_ne_nil houter hnames]
    exact afterLast_append '.' _ _

/-- The last of some names that are joined by dots. -/
theorem afterLast_intercalate_concat {last : String} (names : List String)
    (h : '.' ∉ last.toList) : afterLast '.' (".".intercalate (names ++ [last])) = last := by
  rw [afterLast_intercalate_append names (List.cons_ne_nil _ _), String.intercalate_singleton,
    afterLast_eq_self h]

/-! ## Names joined by dots -/

/-- A text of two names or more is cut behind the first of them. -/
theorem splitFirst?_intercalate_cons {name : String} {names : List String}
    (simple : '.' ∉ name.toList) (hnames : names ≠ []) :
    splitFirst? '.' (".".intercalate (name :: names)) = some (name, ".".intercalate names) := by
  rw [String.intercalate_cons_of_ne_nil hnames]
  exact splitFirst?_append _ simple

/-- A text without a dot is no text of two names or more. -/
theorem intercalate_cons_ne {name : String} {names : List String} {text : String}
    (simple : '.' ∉ name.toList) (hnames : names ≠ []) (htext : '.' ∉ text.toList) :
    ".".intercalate (name :: names) ≠ text := by
  intro heq
  have hcut := splitFirst?_intercalate_cons simple hnames
  rw [heq, splitFirst?_eq_none_iff.2 htext] at hcut
  exact absurd hcut (Option.some_ne_none _).symm

/-- Different lists of names without dots make different texts. -/
theorem intercalate_inj {names others : List String} (hnames : names ≠ []) (hothers : others ≠ [])
    (simple : ∀ name ∈ names, '.' ∉ name.toList) (simple' : ∀ name ∈ others, '.' ∉ name.toList)
    (same : ".".intercalate names = ".".intercalate others) : names = others := by
  induction names generalizing others with
  | nil => exact absurd rfl hnames
  | cons name names ih =>
    obtain ⟨other, others, rfl⟩ := List.exists_cons_of_ne_nil hothers
    have hname := simple name List.mem_cons_self
    have hother := simple' other List.mem_cons_self
    by_cases hlast : names = [] <;> by_cases hlast' : others = []
    · subst hlast hlast'
      rw [String.intercalate_singleton, String.intercalate_singleton] at same
      rw [same]
    · subst hlast
      rw [String.intercalate_singleton] at same
      exact absurd same.symm (intercalate_cons_ne hother hlast' hname)
    · subst hlast'
      rw [String.intercalate_singleton] at same
      exact absurd same (intercalate_cons_ne hname hlast hother)
    · have hcut := splitFirst?_intercalate_cons hname hlast
      rw [same, splitFirst?_intercalate_cons hother hlast', Option.some.injEq,
        Prod.mk.injEq] at hcut
      obtain ⟨rfl, hrest⟩ := hcut
      rw [ih hlast hlast' (fun name h => simple name (List.mem_cons_of_mem _ h))
        (fun name h => simple' name (List.mem_cons_of_mem _ h)) hrest.symm]

end RouteScope.Text
