import RouteScope.Text.Bytes

/-!
# Cutting at bytes

A range of bytes is a part of a text exactly if its two bounds stand in order and
each of them lies at an end of the text or between two of its characters.  What the
range covers is then the characters between the bounds.

* `byteRange?_eq_some_iff`: the part that a range covers, told by what stands in front
  of it and behind it.
* `isValid_iff`: the positions between characters, told by the characters in front.
* `isSome_byteRange?_iff`: the ranges that are a part of the text.
-/

namespace RouteScope.Text

variable {text part rest : List Char} {start stop : Nat}

/-- The bytes of a text are those of its characters. -/
theorem byteLength_toList (text : String) : byteLength text.toList = text.utf8ByteSize := by
  have hlist (chars : List Char) :
      byteLength chars = (String.ofList chars).utf8ByteSize := by
    induction chars with
    | nil => simp
    | cons c chars ih =>
      rw [byteLength_cons, ih, ← List.singleton_append, String.ofList_append,
        String.utf8ByteSize_append, ← String.singleton_eq_ofList, String.utf8ByteSize_singleton]
  rw [hlist, String.ofList_toList]

/-- Every character takes a byte at least. -/
theorem byteLength_eq_zero_iff : byteLength text = 0 ↔ text = [] := by
  cases text with
  | nil => simp
  | cons c text =>
    have hpos := c.utf8Size_pos
    simp only [byteLength_cons, reduceCtorEq, iff_false]
    omega

/-! ## Cuts -/

/-- What is left behind a cut. -/
theorem dropBytes?_eq_some_iff :
    dropBytes? start text = some rest ↔
      ∃ before, text = before ++ rest ∧ byteLength before = start := by
  fun_induction dropBytes? start text with
  | case1 text => simp [byteLength_eq_zero_iff]
  | case2 n => simp
  | case3 n c text fits ih =>
    rw [ih]
    clear ih
    constructor
    · rintro ⟨before, rfl, hbefore⟩
      refine ⟨c :: before, rfl, ?_⟩
      rw [byteLength_cons]
      omega
    · rintro ⟨_ | ⟨d, before⟩, htext, hbefore⟩
      · simp at hbefore
      · obtain ⟨rfl, rfl⟩ := List.cons.inj htext
        refine ⟨before, rfl, ?_⟩
        rw [byteLength_cons] at hbefore
        omega
  | case4 n c text beyond =>
    simp only [reduceCtorEq, false_iff, not_exists, not_and]
    rintro (_ | ⟨d, before⟩) htext hbefore
    · simp at hbefore
    · obtain ⟨rfl, -⟩ := List.cons.inj htext
      rw [byteLength_cons] at hbefore
      omega

/-- What stands in front of a cut. -/
theorem takeBytes?_eq_some_iff :
    takeBytes? stop text = some part ↔
      ∃ after, text = part ++ after ∧ byteLength part = stop := by
  fun_induction takeBytes? stop text generalizing part with
  | case1 text =>
    simp only [Option.some.injEq, exists_and_right, byteLength_eq_zero_iff]
    constructor
    · rintro rfl
      exact ⟨⟨text, rfl⟩, rfl⟩
    · exact fun h => h.2.symm
  | case2 n =>
    simp only [reduceCtorEq, false_iff, not_exists, not_and]
    intro after htext
    rw [(List.append_eq_nil_iff.1 htext.symm).1, byteLength_nil]
    omega
  | case3 n c text fits ih =>
    simp only [Option.map_eq_some_iff, ih]
    constructor
    · rintro ⟨part, ⟨after, rfl, hpart⟩, rfl⟩
      refine ⟨after, rfl, ?_⟩
      rw [byteLength_cons]
      omega
    · rintro ⟨after, htext, hpart⟩
      rcases part with _ | ⟨d, part⟩
      · simp at hpart
      · obtain ⟨rfl, rfl⟩ := List.cons.inj htext
        refine ⟨part, ⟨after, rfl, ?_⟩, rfl⟩
        rw [byteLength_cons] at hpart
        omega
  | case4 n c text beyond =>
    simp only [reduceCtorEq, false_iff, not_exists, not_and]
    intro after htext hpart
    rcases part with _ | ⟨d, part⟩
    · simp at hpart
    · obtain ⟨rfl, -⟩ := List.cons.inj htext
      rw [byteLength_cons] at hpart
      omega

/-! ## Ranges -/

/-- A range covers the part of the text with as many bytes in front of it. -/
theorem byteRange?_eq_some_iff :
    byteRange? text start stop = some part ↔
      ∃ before after, text = before ++ part ++ after ∧ byteLength before = start ∧
        start + byteLength part = stop := by
  unfold byteRange?
  constructor
  · intro h
    split at h
    · obtain ⟨rest, hrest, hpart⟩ := Option.bind_eq_some_iff.1 h
      obtain ⟨before, rfl, hbefore⟩ := dropBytes?_eq_some_iff.1 hrest
      obtain ⟨after, rfl, hlength⟩ := takeBytes?_eq_some_iff.1 hpart
      refine ⟨before, after, (List.append_assoc ..).symm, hbefore, ?_⟩
      omega
    · exact absurd h (Option.some_ne_none part).symm
  · rintro ⟨before, after, rfl, rfl, rfl⟩
    have hrest : dropBytes? (byteLength before) (before ++ part ++ after) =
        some (part ++ after) :=
      dropBytes?_eq_some_iff.2 ⟨before, List.append_assoc .., rfl⟩
    rw [if_pos (Nat.le_add_right ..), hrest, Option.bind_some, Nat.add_sub_cancel_left]
    exact takeBytes?_eq_some_iff.2 ⟨after, rfl, rfl⟩

/-- A position is one between characters if the characters in front of it take all the
bytes up to it. -/
theorem isValid_iff {text : String} {offset : Nat} :
    String.Pos.Raw.IsValid text ⟨offset⟩ ↔
      ∃ before after, text.toList = before ++ after ∧ byteLength before = offset := by
  rw [String.Pos.Raw.isValid_iff_exists_append]
  constructor
  · rintro ⟨front, back, rfl, hoffset⟩
    refine ⟨front.toList, back.toList, String.toList_append, ?_⟩
    rw [byteLength_toList]
    exact (congrArg String.Pos.Raw.byteIdx hoffset).symm
  · rintro ⟨before, after, htext, rfl⟩
    refine ⟨String.ofList before, String.ofList after, ?_, ?_⟩
    · rw [← String.ofList_append, ← htext, String.ofList_toList]
    · rw [String.rawEndPos, ← byteLength_toList, String.toList_ofList]

/-- A range is a part of the text exactly if its bounds are in order and stand between
characters. -/
theorem isSome_byteRange?_iff {text : String} :
    (byteRange? text.toList start stop).isSome = true ↔
      start ≤ stop ∧ String.Pos.Raw.IsValid text ⟨start⟩ ∧
        String.Pos.Raw.IsValid text ⟨stop⟩ := by
  simp only [Option.isSome_iff_exists, byteRange?_eq_some_iff, isValid_iff]
  constructor
  · rintro ⟨part, before, after, htext, rfl, rfl⟩
    refine ⟨Nat.le_add_right .., ⟨before, part ++ after, ?_, rfl⟩,
      ⟨before ++ part, after, htext, byteLength_append ..⟩⟩
    rw [htext, List.append_assoc]
  · rintro ⟨hle, ⟨before, rest, htext, rfl⟩, ⟨front, after, htext', rfl⟩⟩
    have hprefix : before <+: front := by
      have hshorter := List.prefix_or_prefix_of_prefix ⟨rest, htext.symm⟩ ⟨after, htext'.symm⟩
      rcases hshorter with h | ⟨more, rfl⟩
      · exact h
      · have hnone : more = [] := by
          rw [byteLength_append] at hle
          exact byteLength_eq_zero_iff.1 (by omega)
        simp [hnone]
    obtain ⟨part, rfl⟩ := hprefix
    exact ⟨part, before, after, htext', rfl, (byteLength_append ..).symm⟩

end RouteScope.Text
