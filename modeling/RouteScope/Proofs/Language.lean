import RouteScope.Language

/-!
# Names of languages

Every name stands for one language: the names that begin with `tokenize` stand for
`tokenize`, `js` and `javascript` in any case for `javaScript`, and any other name for
itself.  The name that a language goes by stands for itself, so making a name canonical
twice is the same as doing it once.

* `StandsFor`: what a name stands for, told by how it is written.
* `canonical_eq_iff`: the canonical name of a name is what it stands for.
* `canonical_canonical`: canonical names stay as they are.
-/

namespace RouteScope.Language

/-- What a name of a language stands for. -/
inductive StandsFor : String → String → Prop where
  | tokenize (rest : String) : StandsFor ("tokenize" ++ rest) "tokenize"
  | javaScript {name : String}
      (letters : Text.sameLetters name "js" = true ∨ Text.sameLetters name "javascript" = true) :
      StandsFor name "javaScript"
  | itself {name : String} (plain : ∀ rest, name ≠ "tokenize" ++ rest)
      (noScript : ¬ (Text.sameLetters name "js" = true ∨ Text.sameLetters name "javascript" = true)) :
      StandsFor name name

variable {name language : String}

theorem begins_tokenize_iff :
    "tokenize".toList.isPrefixOf name.toList = true ↔ ∃ rest, name = "tokenize" ++ rest := by
  rw [List.isPrefixOf_iff_prefix]
  constructor
  · rintro ⟨rest, hrest⟩
    exact ⟨String.ofList rest, String.toList_inj.1 (by simp [← hrest])⟩
  · rintro ⟨rest, rfl⟩
    rw [String.toList_append]
    exact List.prefix_append _ _

/-- Neither `js` nor `javascript` begins with `tokenize`, whatever the case of their
letters. -/
theorem not_sameLetters_tokenize (rest : String) :
    ¬ (Text.sameLetters ("tokenize" ++ rest) "js" = true ∨
      Text.sameLetters ("tokenize" ++ rest) "javascript" = true) := by
  simp [Text.sameLetters, Text.lower]

theorem standsFor_canonical (name : String) : StandsFor name (canonical name) := by
  unfold canonical
  split
  · rename_i hbegins
    obtain ⟨rest, rfl⟩ := begins_tokenize_iff.1 hbegins
    exact .tokenize rest
  · rename_i hbegins
    split
    · rename_i hletters
      exact .javaScript (by simpa using hletters)
    · rename_i hletters
      refine .itself (fun rest h => hbegins (begins_tokenize_iff.2 ⟨rest, h⟩)) ?_
      simpa using hletters

theorem StandsFor.unique {other : String} (h : StandsFor name language)
    (hother : StandsFor name other) : language = other := by
  cases h with
  | tokenize rest =>
    generalize hname : "tokenize" ++ rest = name at hother
    cases hother with
    | tokenize rest => rfl
    | javaScript letters => exact absurd (hname ▸ letters) (not_sameLetters_tokenize rest)
    | itself plain _ => exact absurd hname.symm (plain rest)
  | javaScript letters =>
    cases hother with
    | tokenize rest => exact absurd letters (not_sameLetters_tokenize rest)
    | javaScript _ => rfl
    | itself _ plain => exact absurd letters plain
  | itself plain noScript =>
    cases hother with
    | tokenize rest => exact absurd rfl (plain rest)
    | javaScript letters => exact absurd letters noScript
    | itself _ _ => rfl

theorem canonical_eq_iff : canonical name = language ↔ StandsFor name language := by
  constructor
  · rintro rfl
    exact standsFor_canonical name
  · exact (standsFor_canonical name).unique

theorem StandsFor.canonical_eq_self (h : StandsFor name language) :
    canonical language = language := by
  cases h with
  | tokenize rest => decide
  | javaScript letters => decide
  | itself plain noScript => exact canonical_eq_iff.2 (.itself plain noScript)

theorem canonical_canonical (name : String) : canonical (canonical name) = canonical name :=
  (standsFor_canonical name).canonical_eq_self

end RouteScope.Language
