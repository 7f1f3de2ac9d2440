import RouteScope.Proofs.Text.Pieces

/-!
# Separators without borders

A border of a word is a part at its beginning that stands at its end too, and
is neither empty nor the whole word.  Two occurrences of a word can overlap only
in a border.  So if a separator has none, the separators that are put between
lines are found again when the lines are cut apart, whatever the lines hold: no
occurrence begins in a line and ends in the separator behind it.

* `Unbordered.prefix_of_prefix_append`: such an occurrence would be a border.
* `Splits.append`: a text is cut at a separator between its parts, and the parts
  are cut as if they stood alone.
* `split_intercalate`: the same for any number of lines.
-/

namespace RouteScope.Text

/-- No part of the word but the whole of it is both at its beginning and at its
end. -/
def Unbordered (word : List Char) : Prop :=
  ∀ n < word.length, 0 < n → ¬ word.take n <:+ word

instance : DecidablePred Unbordered := fun word =>
  inferInstanceAs (Decidable (∀ n < word.length, 0 < n → ¬ word.take n <:+ word))

variable {separator text rest : List Char}

/-- An occurrence that begins in a text in front of the separator ends in it. -/
theorem Unbordered.prefix_of_prefix_append (unbordered : Unbordered separator)
    (hne : text ≠ []) (occurs : separator <+: text ++ separator ++ rest) :
    separator <+: text := by
  rw [List.append_assoc] at occurs
  by_cases hlength : separator.length ≤ text.length
  · exact List.prefix_of_prefix_length_le occurs (List.prefix_append _ _) hlength
  · obtain ⟨border, hborder⟩ : text <+: separator :=
      List.prefix_of_prefix_length_le (List.prefix_append _ _) occurs (by omega)
    have hbegins : border <+: separator ++ rest := by
      rw [← List.prefix_append_right_inj text, hborder]
      exact occurs
    have hlengths : text.length + border.length = separator.length := by
      rw [← List.length_append, hborder]
    have htext : 0 < text.length := List.length_pos_of_ne_nil hne
    have htake : separator.take border.length = border :=
      (List.prefix_iff_eq_take.1 (List.prefix_of_prefix_length_le hbegins
        (List.prefix_append _ _) (by omega))).symm
    refine absurd ?_ (unbordered border.length (by omega) (by omega))
    rw [htake]
    exact ⟨text, hborder⟩

/-- A text in front of a separator is cut as if it stood alone.  The induction is
over its own pieces: only the last one stands right in front of the separator. -/
theorem Splits.append {tokens others : List (List Char)} (unbordered : Unbordered separator)
    (splits : Splits separator text tokens) (behind : Splits separator rest others) :
    Splits separator (text ++ separator ++ rest) (tokens ++ others) := by
  induction splits with
  | @last text absent =>
    refine .next (fun n hn occurs => ?_) behind
    have hdrop : (text ++ separator ++ rest).drop n = text.drop n ++ separator ++ rest := by
      rw [List.append_assoc, List.drop_append_of_le_length (Nat.le_of_lt hn), List.append_assoc]
    have hne : text.drop n ≠ [] := by simpa using hn
    rw [hdrop] at occurs
    have hinside := unbordered.prefix_of_prefix_append hne occurs
    exact absent (hinside.isInfix.trans (List.drop_suffix n text).isInfix)
  | @next piece inner more first _ ih =>
    have htext : piece ++ separator ++ inner ++ separator ++ rest =
        piece ++ separator ++ (inner ++ separator ++ rest) := by simp
    rw [htext]
    refine .next (fun n hn occurs => first n hn ?_) ih
    have hlength : separator.length ≤ ((piece ++ separator ++ inner).drop n).length := by
      simp only [List.length_drop, List.length_append]
      omega
    rw [← htext, List.append_assoc (_ ++ inner),
      List.drop_append_of_le_length (by simp only [List.length_append]; omega)] at occurs
    exact List.prefix_of_prefix_length_le occurs (List.prefix_append _ _) hlength

theorem splits_intercalate (hne : separator ≠ []) (unbordered : Unbordered separator)
    {lines : List (List Char)} (hlines : lines ≠ []) :
    Splits separator (separator.intercalate lines) (lines.flatMap (pieces separator)) := by
  induction lines with
  | nil => exact absurd rfl hlines
  | cons line lines ih =>
    have hline := splits_pieces hne line
    cases lines with
    | nil => simpa using hline
    | cons next lines =>
      rw [List.intercalate_cons_cons, List.flatMap_cons]
      exact hline.append unbordered (ih (List.cons_ne_nil next lines))

/-! ## Strings -/

/-- Joined lines are cut apart again, and each of them is cut where it holds the
separator itself. -/
theorem split_intercalate {separator : String} (hne : separator ≠ "")
    (unbordered : Unbordered separator.toList) {lines : List String} (hlines : lines ≠ []) :
    split separator (separator.intercalate lines) = lines.flatMap (split separator) := by
  have hlist : separator.toList ≠ [] := by simpa using hne
  have hsplits := splits_intercalate hlist unbordered
    (mt List.map_eq_nil_iff.1 hlines : lines.map String.toList ≠ [])
  rw [split, String.toList_intercalate, (splits_pieces hlist _).unique hsplits,
    List.flatMap_map, List.map_flatMap]
  rfl

theorem split_eq_singleton {separator text : String} (hne : separator ≠ "")
    (absent : ¬ separator.toList <:+: text.toList) : split separator text = [text] := by
  have hlist : separator.toList ≠ [] := by simpa using hne
  rw [split, (splits_pieces hlist text.toList).eq_of_absent absent]
  simp

end RouteScope.Text
