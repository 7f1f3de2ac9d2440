import Mathlib.Data.List.Infix
import RouteScope.Text.Split

/-!
# Pieces of a text

A text is cut at the occurrences of a separator, which are found from left to
right and do not overlap.  `Splits` says what the pieces are without a search:
no occurrence of the separator begins inside of a piece, and behind the last
separator there is none at all.

* `splits_pieces`: `pieces` gives such pieces.
* `Splits.unique`: a text has one list of pieces.
* `Splits.intercalate_eq`: the pieces, joined by the separator, are the text.
-/

namespace RouteScope.Text

/-- The text is cut into the pieces at the separator.  Each piece but the last reaches up
to the first occurrence of the separator. -/
inductive Splits (separator : List Char) : List Char → List (List Char) → Prop where
  | last {text : List Char} (absent : ¬ separator <:+: text) : Splits separator text [text]
  | next {piece rest : List Char} {more : List (List Char)}
      (first : ∀ n < piece.length, ¬ separator <+: (piece ++ separator ++ rest).drop n)
      (behind : Splits separator rest more) :
      Splits separator (piece ++ separator ++ rest) (piece :: more)

variable {separator text : List Char}

namespace Splits

variable {tokens others : List (List Char)}

theorem ne_nil (splits : Splits separator text tokens) : tokens ≠ [] := by
  cases splits <;> simp

/-- A character in front of a text goes to the first piece, unless the
separator begins with it. -/
theorem cons {c : Char} (fresh : ¬ separator <+: c :: text)
    (splits : Splits separator text tokens) :
    Splits separator (c :: text) (tokens.modifyHead (c :: ·)) := by
  cases splits with
  | last absent => exact .last fun occurs => (List.infix_cons_iff.1 occurs).elim fresh absent
  | @next piece rest more first behind =>
    show Splits separator ((c :: piece) ++ separator ++ rest) ((c :: piece) :: more)
    refine .next (fun n hn => ?_) behind
    cases n with
    | zero => exact fresh
    | succ n => exact first n (by simpa using hn)

/-- The pieces of a text in which the separator does not occur. -/
theorem eq_of_absent (splits : Splits separator text tokens)
    (absent : ¬ separator <:+: text) : tokens = [text] := by
  cases splits with
  | last _ => rfl
  | @next piece rest more first behind => exact absurd ⟨piece, rest, rfl⟩ absent

/-- The text is put together again from its pieces. -/
theorem intercalate_eq (splits : Splits separator text tokens) :
    separator.intercalate tokens = text := by
  induction splits with
  | last absent => simp
  | @next piece rest more first behind ih =>
    obtain ⟨token, tokens, rfl⟩ := List.exists_cons_of_ne_nil behind.ne_nil
    rw [List.intercalate_cons_cons, ih]

/-- A piece that reaches up to a first occurrence of the separator is no longer
than any other one that reaches up to an occurrence. -/
theorem length_le_of_first {piece rest other behind : List Char}
    (first : ∀ n < piece.length, ¬ separator <+: (piece ++ separator ++ rest).drop n)
    (same : piece ++ separator ++ rest = other ++ separator ++ behind) :
    piece.length ≤ other.length := by
  refine Nat.not_lt.1 fun shorter => first other.length shorter ?_
  rw [same, List.append_assoc, List.drop_left]
  exact List.prefix_append _ _

theorem unique (splits : Splits separator text tokens) (splits' : Splits separator text others) :
    tokens = others := by
  induction splits generalizing others with
  | last absent => exact (splits'.eq_of_absent absent).symm
  | @next piece rest more first behind ih =>
    generalize htext : piece ++ separator ++ rest = whole at splits'
    cases splits' with
    | last absent => exact absurd ⟨piece, rest, htext⟩ absent
    | @next piece' rest' more' first' behind' =>
      have hlength : piece.length = piece'.length :=
        Nat.le_antisymm (length_le_of_first first htext) (length_le_of_first first' htext.symm)
      rw [List.append_assoc, List.append_assoc] at htext
      obtain ⟨rfl, hback⟩ := List.append_inj htext hlength
      obtain rfl : rest = rest' := List.append_cancel_left hback
      rw [ih behind']

end Splits

/-- What is cut off a text behind an occurrence of the separator are its pieces.
The induction follows the search, which may have to pass over the rest of the
occurrence that it found last. -/
theorem splits_cut (hne : separator ≠ []) (pass : Nat) (text : List Char) :
    Splits separator (text.drop pass) (cut separator pass text) := by
  have absent : ¬ separator <:+: [] := fun occurs => hne (List.infix_nil.1 occurs)
  induction text generalizing pass with
  | nil => simpa [cut] using Splits.last absent
  | cons c rest ih =>
    cases pass with
    | succ pass => simpa [cut] using ih pass
    | zero =>
      rw [List.drop_zero, cut]
      split
      · rename_i begins
        obtain ⟨behind, htext⟩ := List.isPrefixOf_iff_prefix.1 begins
        obtain ⟨d, tail, rfl⟩ := List.exists_cons_of_ne_nil hne
        obtain ⟨rfl, rfl⟩ : d = c ∧ tail ++ behind = rest := by simpa using htext
        have hbehind := ih ((d :: tail).length - 1)
        rw [List.length_cons, Nat.add_sub_cancel, List.drop_left] at hbehind
        show Splits (d :: tail) ([] ++ (d :: tail) ++ behind) ([] :: _)
        exact .next (by simp) hbehind
      · rename_i begins
        exact (ih 0).cons fun h => begins (List.isPrefixOf_iff_prefix.2 h)

theorem splits_pieces (hne : separator ≠ []) (text : List Char) :
    Splits separator text (pieces separator text) := by
  rw [pieces, if_neg (by simpa using hne)]
  exact splits_cut hne 0 text

end RouteScope.Text
