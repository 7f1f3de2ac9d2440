import RouteScope.Proofs.Endpoint.Filling

/-!
# The fewest lines

Lines that are filled greedily are as few as possible.  The comparison is with
every cut of the tokens into lines that may be shown at all: a line may be too
wide only if nothing but empty tokens stands in front of its last token.

`Fills.length_le` is the greedy argument.  Wherever another cut begins its
lines, at each line of the filling it lags behind or is level, since no line
that may be shown reaches over a break of the filling.  A cut that may be shown
at one width may be shown at every greater one, so a text has no more lines
there.
-/

namespace RouteScope.Endpoint

/-- The line may be shown: it is no wider than the limit, or all of its tokens
but the last are empty. -/
def Fits (limit : Nat) (line : Line) : Prop :=
  width line ≤ limit ∨ ∀ token ∈ line.dropLast, token = []

/-- The tokens are cut in their order into lines that may be shown, none of them
empty. -/
structure IsCut (limit : Nat) (tokens : List (List Char)) (cut : List Line) : Prop where
  flatten_eq : cut.flatten = tokens
  ne_nil : ∀ line ∈ cut, line ≠ []
  fits : ∀ line ∈ cut, Fits limit line

variable {limit wider : Nat} {front : Line} {tokens : List (List Char)} {lines cut : List Line}

theorem fits_of_unbroken {line : Line} (unbroken : Unbroken limit line) : Fits limit line := by
  rcases width_le_or_of_unbroken unbroken with hle | ⟨front, token, rfl, -, hblank⟩
  · exact .inl hle
  · exact .inr (by simpa using hblank)

/-- No line that may be shown reaches over a break. -/
theorem not_fits_of_overflows {token : List Char} (full : Overflows limit front token)
    (before back : Line) : ¬ Fits limit (before ++ (front ++ token :: back)) := by
  obtain ⟨hwide, hover⟩ := full
  rintro (hle | hblank)
  · have hwidth : width (before ++ (front ++ token :: back)) =
        width before + (width front + (token.length + width back)) := by
      rw [← List.singleton_append, width_append, width_append, width_append, width_singleton]
    omega
  · have hdrop : (before ++ (front ++ token :: back)).dropLast =
        before ++ (front ++ (token :: back).dropLast) := by
      rw [List.dropLast_append_of_ne_nil (by simp), List.dropLast_append_of_ne_nil (by simp)]
    have hfront : width front = 0 := by
      refine width_eq_zero_iff.2 fun other hother => hblank other ?_
      simp [hdrop, hother]
    omega

theorem IsCut.mono (isCut : IsCut limit tokens cut) (hle : limit ≤ wider) :
    IsCut wider tokens cut where
  flatten_eq := isCut.flatten_eq
  ne_nil := isCut.ne_nil
  fits line hline := (isCut.fits line hline).imp_left fun hwidth => Nat.le_trans hwidth hle

namespace Fills

theorem isCut (fills : Fills limit front tokens lines) (hne : front ≠ [])
    (hfront : Unbroken limit front) : IsCut limit (front ++ tokens) lines where
  flatten_eq := fills.flatten_eq
  ne_nil := fills.ne_nil_of_mem hne
  fits line hline := fits_of_unbroken (fills.unbroken hfront line hline)

/-- A filling has no more lines than any cut of its tokens into lines that may
be shown, even if the cut has `before` still to show as well.  The induction is
over the filling.  Where it opens a line, the first line of the cut ends at that
place or before it, and what the cut has left is again the rest of the filling
with something in front. -/
theorem length_le (fills : Fills limit front tokens lines) (hne : front ≠ []) :
    ∀ (before : List (List Char)) (cut : List Line), cut.flatten = before ++ (front ++ tokens) →
      (∀ line ∈ cut, Fits limit line) → lines.length ≤ cut.length := by
  induction fills with
  | done =>
    intro before cut hflatten _
    cases cut with
    | nil => simp [hne] at hflatten
    | cons line cut => simp
  | @opens front token tokens lines full behind ih =>
    intro before cut hflatten hfits
    cases cut with
    | nil => simp at hflatten
    | cons line cut =>
      have hrestFits : ∀ other ∈ cut, Fits limit other :=
        fun other hother => hfits other (List.mem_cons_of_mem _ hother)
      rw [List.flatten_cons, ← List.append_assoc, List.append_eq_append_iff] at hflatten
      rcases hflatten with ⟨left, hbefore, hcut⟩ | ⟨beyond, hline, htokens⟩
      · have hrest := ih (by simp) left cut (by simpa using hcut) hrestFits
        simpa using hrest
      · cases beyond with
        | nil =>
          have hrest := ih (by simp) [] cut (by simpa using htokens.symm) hrestFits
          simpa using hrest
        | cons other beyond =>
          obtain ⟨rfl, -⟩ : token = other ∧ tokens = beyond ++ cut.flatten := by
            simpa using htokens
          refine absurd (hfits line List.mem_cons_self) ?_
          rw [hline, List.append_assoc]
          exact not_fits_of_overflows full before beyond
  | @stays front token tokens lines _ _ ih =>
    intro before cut hflatten hfits
    exact ih (by simp) before cut (by simpa using hflatten) hfits

end Fills

/-- For every width the lines of a wrapped text are a cut of its tokens into
lines that may be shown, and no such cut has fewer lines.  In the first line the
tokens are joined by the separator, and in the others each token has it in
front.  A greater width never gives more lines. -/
theorem wrap_fewest_lines {separator text : String} {tokens : List (List Char)}
    (nonempty : separator ≠ "")
    (splits : Text.Splits separator.toList text.toList tokens) :
    ∃ cut : Nat → List Line,
      (∀ limit, IsCut limit tokens (cut limit) ∧
        (∃ first others, cut limit = first :: others ∧
          ∀ lineBreak : String, wrap separator lineBreak limit text =
            lineBreak.intercalate ((separator.toList.intercalate first ::
              others.map fun line => line.flatMap fun token => separator.toList ++ token).map
                String.ofList)) ∧
        ∀ other, IsCut limit tokens other → (cut limit).length ≤ other.length) ∧
      ∀ limit wider, limit ≤ wider → (cut wider).length ≤ (cut limit).length := by
  have hlist : separator.toList ≠ [] := by simpa using nonempty
  have hpieces := (Text.splits_pieces hlist text.toList).unique splits
  obtain ⟨token, rest, rfl⟩ := List.exists_cons_of_ne_nil splits.ne_nil
  have hcut (limit : Nat) : IsCut limit (token :: rest) (Endpoint.lines limit (token :: rest)) :=
    (fills_lines limit token rest).isCut (by simp) (unbroken_singleton limit token)
  have hfewest (limit : Nat) (other : List Line) (isCut : IsCut limit (token :: rest) other) :
      (Endpoint.lines limit (token :: rest)).length ≤ other.length :=
    (fills_lines limit token rest).length_le (by simp) [] other isCut.flatten_eq isCut.fits
  refine ⟨fun limit => Endpoint.lines limit (token :: rest), fun limit =>
    ⟨hcut limit, ?_, hfewest limit⟩, fun limit wider hle => ?_⟩
  · refine ⟨_, _, rfl, fun lineBreak => ?_⟩
    rw [wrap_eq_intercalate nonempty, hpieces]
    rfl
  · exact hfewest wider _ ((hcut limit).mono hle)

/-- Empty tokens stand on both sides of one that may be too long. -/
theorem wrap_fewest_lines_overlong :
    "&" ≠ "" ∧
    Text.Splits ['&'] "&abcd&&e&f".toList [[], ['a', 'b', 'c', 'd'], [], ['e'], ['f']] ∧
    ∃ cut : Nat → List Line,
      (∀ limit, IsCut limit [[], ['a', 'b', 'c', 'd'], [], ['e'], ['f']] (cut limit) ∧
        (∃ first others, cut limit = first :: others ∧
          ∀ lineBreak : String, wrap "&" lineBreak limit "&abcd&&e&f" =
            lineBreak.intercalate ((['&'].intercalate first ::
              others.map fun line => line.flatMap fun token => '&' :: token).map
                String.ofList)) ∧
        ∀ other, IsCut limit [[], ['a', 'b', 'c', 'd'], [], ['e'], ['f']] other →
          (cut limit).length ≤ other.length) ∧
      ∀ limit wider, limit ≤ wider → (cut wider).length ≤ (cut limit).length := by
  have splits : Text.Splits ['&'] "&abcd&&e&f".toList
      [[], ['a', 'b', 'c', 'd'], [], ['e'], ['f']] :=
    Text.splits_pieces (by decide) "&abcd&&e&f".toList
  exact ⟨by decide, splits, wrap_fewest_lines (by decide) splits⟩

end RouteScope.Endpoint
