import Mathlib
import RouteScope.Json.Decode
import RouteScope.Proofs.Json.Written

/-!
# Values of records

What is put into a value is got out again by the functions that take records
apart: natural numbers, lists, values that may be missing, and the fields of a
record.  Values that are put together from plain ones are plain.

* `optionFieldOf?_optional`: a value that may be missing.
* `fields?_record`: a record with distinct fields.
-/

namespace RouteScope.Json

/-! ## Parts of a value -/

theorem natural?_natural (n : Nat) : natural? (natural n) = some n := by
  have hchars : (toString n).toList = Nat.toDigits 10 n := Nat.toList_repr
  have hdigits : (toString n).toList.all Char.isDigit = true := by
    rw [hchars, List.all_eq_true]
    exact fun c hc => Nat.isDigit_of_mem_toDigits (by decide) (by decide) hc
  rw [natural, natural?, if_pos hdigits]
  exact Nat.toNat?_repr n

/-- If every item is read back, so is the list. -/
theorem listOf?_array_map {α : Type} {item? : Json → Option α} {toJson : α → Json} {values : List α}
    (h : ∀ value ∈ values, item? (toJson value) = some value) :
    listOf? item? (array (values.map toJson)) = some values := by
  have hmap : (values.map toJson).mapM item? = some values := by
    induction values with
    | nil => rfl
    | cons value values ih =>
      rw [List.map_cons, List.mapM_cons, h value List.mem_cons_self,
        ih fun other hother => h other (List.mem_cons_of_mem _ hother)]
      rfl
  exact hmap

theorem listOf?_texts (values : List String) : listOf? text? (texts values) = some values :=
  listOf?_array_map fun _ _ => rfl

/-- A value that may be missing is told from `null` if no value is written so. -/
theorem optionFieldOf?_optional {α : Type} {item? : Json → Option α} {toJson : α → Json}
    {value? : Option α} (hnull : ∀ value, toJson value ≠ .null)
    (h : ∀ value ∈ value?, item? (toJson value) = some value) :
    optionFieldOf? item? (some (optional (value?.map toJson))) = some value? := by
  cases value? with
  | none => rfl
  | some value =>
    rw [Option.map_some, optional, Option.getD_some, optionFieldOf?, h value rfl]
    · rfl
    · exact fun heq => hnull value heq

/-! ## Fields of a record -/

/-- A field is found if no other field has its name. -/
theorem field?_of_mem {members : List (String × Json)} (distinct : (members.map (·.1)).Nodup)
    {name : String} {value : Json} (h : (name, value) ∈ members) :
    field? (members.map fun (key, value) => (some key, value)) name = some (some value) := by
  have hfilter : (members.map fun (key, value) => (some key, value)).filter (·.1 == some name) =
      [(some name, value)] := by
    induction members with
    | nil => exact absurd h List.not_mem_nil
    | cons member members ih =>
      rw [List.map_cons, List.nodup_cons] at distinct
      rw [List.map_cons]
      rcases List.mem_cons.1 h with rfl | hmem
      · rw [List.filter_cons_of_pos (by simp), List.filter_eq_nil_iff.2]
        intro other hother heq
        obtain ⟨rest, hrest, rfl⟩ := List.mem_map.1 hother
        have hsame : rest.1 = name := by simpa using heq
        exact distinct.1 (hsame ▸ List.mem_map_of_mem (f := (·.1)) hrest)
      · have hother : member.1 ≠ name := by
          rintro rfl
          exact distinct.1 (List.mem_map_of_mem (f := (·.1)) hmem)
        rw [List.filter_cons_of_neg (by simpa using hother), ih distinct.2 hmem]
  rw [field?, hfilter]

/-- A record gives back its fields if they are asked for in their order. -/
theorem fields?_record (members : List (String × Json)) (distinct : (members.map (·.1)).Nodup) :
    fields? (members.map (·.1)) (record members) =
      some (members.map fun member => some member.2) := by
  have hkeys : (members.map fun (key, value) => ((some key, value) : Option String × Json)).all
      (·.1.isSome) = true := by
    simp
  have hfields : ∀ part ⊆ members, (part.map (·.1)).mapM
      (field? (members.map fun (key, value) => (some key, value))) =
        some (part.map fun member => some member.2) := by
    intro part hsub
    induction part with
    | nil => rfl
    | cons member rest ih =>
      rw [List.map_cons, List.mapM_cons, field?_of_mem distinct (hsub List.mem_cons_self),
        ih fun other hother => hsub (List.mem_cons_of_mem _ hother)]
      rfl
  rw [record, fields?, if_pos hkeys, hfields members (List.Subset.refl _)]

/-! ## Plain values -/

theorem isPlain_array_map {α : Type} {toJson : α → Json} (plain : ∀ value, IsPlain (toJson value))
    (values : List α) : IsPlain (array (values.map toJson)) := by
  refine .array fun item hitem => ?_
  obtain ⟨value, -, rfl⟩ := List.mem_map.1 hitem
  exact plain value

theorem isPlain_texts (values : List String) : IsPlain (texts values) :=
  isPlain_array_map .text values

theorem isPlain_optional {α : Type} {toJson : α → Json} (plain : ∀ value, IsPlain (toJson value))
    (value? : Option α) : IsPlain (optional (value?.map toJson)) := by
  cases value? with
  | none => exact .null
  | some value => exact plain value

end RouteScope.Json
