import Mathlib.Data.List.Chain
import RouteScope.Endpoint.Wrap
import RouteScope.Proofs.Text.Pieces

/-!
# Filling lines

A wrapped text is filled line by line, and the only thing that is kept while
this is done is how wide the line in progress is.  `Fills` is the declarative
trace of that loop: it has the line in progress itself, and one constructor for
each thing that can happen to the next token.

* `Overflows`: when a token has to open a new line.
* `fills_fill`: a run of `fill` follows the trace.
* `Fills.unbroken` and `Fills.chain`: what one step preserves holds of all
  lines.  No token on a line overflows what stands in front of it, and the
  first token of a line overflows the line before it.
* `width_le_or_of_unbroken`: how wide a line can get.
* `join_wrapLines`: put together, the lines are the text.
* `wrap_eq_text_and_lines`: the lines of a wrapped text.
-/

namespace RouteScope.Endpoint

/-! ## Lines -/

/-- The number of characters of the tokens on a line. -/
def width (line : Line) : Nat :=
  line.flatten.length

@[simp] theorem width_nil : width [] = 0 := rfl

@[simp] theorem width_append (line other : Line) :
    width (line ++ other) = width line + width other := by
  simp [width]

@[simp] theorem width_singleton (token : List Char) : width [token] = token.length := by
  simp [width]

theorem width_eq_zero_iff {line : Line} : width line = 0 ↔ ∀ token ∈ line, token = [] := by
  rw [width, List.length_eq_zero_iff, List.flatten_eq_nil_iff]

/-- The line has some width and would grow beyond the limit by the token. -/
def Overflows (limit : Nat) (line : Line) (token : List Char) : Prop :=
  0 < width line ∧ limit < width line + token.length

/-- No token on the line overflows the tokens in front of it. -/
def Unbroken (limit : Nat) (line : Line) : Prop :=
  ∀ front token back, line = front ++ token :: back → ¬ Overflows limit front token

/-- Breaks stand exactly in front of the tokens that overflow the line so far:
a token does not if it stands behind others on a line, and it does if it opens
the next one. -/
def BreaksAtOverflow (limit : Nat) (lines : List Line) : Prop :=
  ∀ done front token back rest,
    (lines = done ++ (front ++ token :: back) :: rest → ¬ Overflows limit front token) ∧
    (lines = done ++ front :: (token :: back) :: rest → Overflows limit front token)

/-! ## The trace of a filling -/

/-- A line in progress and the tokens that are still to be placed become the
lines. -/
inductive Fills (limit : Nat) : Line → List (List Char) → List Line → Prop where
  | done {front : Line} : Fills limit front [] [front]
  | opens {front : Line} {token : List Char} {tokens : List (List Char)} {lines : List Line}
      (full : Overflows limit front token) (behind : Fills limit [token] tokens lines) :
      Fills limit front (token :: tokens) (front :: lines)
  | stays {front : Line} {token : List Char} {tokens : List (List Char)} {lines : List Line}
      (fits : ¬ Overflows limit front token)
      (behind : Fills limit (front ++ [token]) tokens lines) :
      Fills limit front (token :: tokens) lines

variable {limit : Nat} {front : Line} {tokens : List (List Char)} {lines : List Line}

theorem fills_fill (limit : Nat) (front : Line) (tokens : List (List Char)) :
    Fills limit front tokens
      ((front ++ (fill limit (width front) tokens).1) :: (fill limit (width front) tokens).2) := by
  induction tokens generalizing front with
  | nil => simpa [fill] using Fills.done
  | cons token tokens ih =>
    rw [fill]
    split
    · rename_i full
      have hbehind := ih [token]
      rw [width_singleton] at hbehind
      simpa using Fills.opens full hbehind
    · rename_i fits
      have hbehind := ih (front ++ [token])
      rw [width_append, width_singleton] at hbehind
      simpa using Fills.stays fits hbehind

/-- The lines of a text are filled from its first token on. -/
theorem fills_lines (limit : Nat) (token : List Char) (tokens : List (List Char)) :
    Fills limit [token] tokens (Endpoint.lines limit (token :: tokens)) := by
  have h := fills_fill limit [token] tokens
  rw [width_singleton] at h
  exact h

namespace Fills

/-- The tokens are distributed over the lines in their order. -/
theorem flatten_eq (fills : Fills limit front tokens lines) :
    lines.flatten = front ++ tokens := by
  induction fills with
  | done => simp
  | opens _ _ ih => simp [ih]
  | stays _ _ ih => simp [ih]

theorem ne_nil_of_mem (fills : Fills limit front tokens lines) (hne : front ≠ []) :
    ∀ line ∈ lines, line ≠ [] := by
  induction fills with
  | done => simpa using hne
  | opens _ _ ih =>
    intro line hline
    rcases List.mem_cons.1 hline with rfl | hline
    · exact hne
    · exact ih (by simp) line hline
  | stays _ _ ih => exact ih (by simp)

/-- The first line begins with the line in progress. -/
theorem exists_eq_cons (fills : Fills limit front tokens lines) :
    ∃ back rest, lines = (front ++ back) :: rest := by
  induction fills with
  | done => exact ⟨[], [], by simp⟩
  | @opens front token tokens lines _ _ _ => exact ⟨[], lines, by simp⟩
  | @stays front token tokens lines _ _ ih =>
    obtain ⟨back, rest, rfl⟩ := ih
    exact ⟨token :: back, rest, by simp⟩

end Fills

/-! ## Where lines break -/

theorem unbroken_singleton (limit : Nat) (token : List Char) : Unbroken limit [token] := by
  rintro front other back hline ⟨hwide, -⟩
  obtain ⟨rfl, -, -⟩ : front = [] ∧ other = token ∧ back = [] := by
    simpa [List.singleton_eq_append_iff] using hline
  simp at hwide

/-- A line stays unbroken when a token is put on it that does not overflow it. -/
theorem Unbroken.concat {token : List Char} (unbroken : Unbroken limit front)
    (fits : ¬ Overflows limit front token) : Unbroken limit (front ++ [token]) := by
  intro start other back hline
  rcases List.eq_nil_or_concat back with rfl | ⟨back, last, rfl⟩
  · obtain ⟨rfl, rfl⟩ : front = start ∧ token = other := by
      simpa using List.append_inj' hline rfl
    exact fits
  · have hfront : front = start ++ other :: back := by
      have h : front ++ [token] = (start ++ other :: back) ++ [last] := by simpa using hline
      exact (List.append_inj' h rfl).1
    exact unbroken start other back hfront

namespace Fills

theorem unbroken (fills : Fills limit front tokens lines) (hfront : Unbroken limit front) :
    ∀ line ∈ lines, Unbroken limit line := by
  induction fills with
  | done => simpa using hfront
  | opens _ _ ih =>
    intro line hline
    rcases List.mem_cons.1 hline with rfl | hline
    · exact hfront
    · exact ih (unbroken_singleton limit _) line hline
  | stays fits _ ih => exact ih (hfront.concat fits)

/-- The first token of a line overflows the line before it. -/
theorem chain (fills : Fills limit front tokens lines) :
    lines.IsChain fun line next => ∀ token ∈ next.head?, Overflows limit line token := by
  induction fills with
  | done => simp
  | @opens front token tokens lines full behind ih =>
    obtain ⟨back, rest, rfl⟩ := behind.exists_eq_cons
    exact List.isChain_cons_cons.2 ⟨by simpa using full, ih⟩
  | stays _ _ ih => exact ih

theorem breaksAtOverflow (fills : Fills limit front tokens lines)
    (hfront : Unbroken limit front) : BreaksAtOverflow limit lines := by
  intro done before token back rest
  constructor
  · rintro rfl
    exact fills.unbroken hfront _ (by simp) before token back rfl
  · rintro rfl
    exact List.isChain_iff_forall_rel_of_append_cons_cons.1 fills.chain rfl token rfl

end Fills

/-- A line in which no token overflows the others is no wider than the limit,
unless its last token is too long by itself and nothing but empty tokens stands
in front of it. -/
theorem width_le_or_of_unbroken {line : Line} (unbroken : Unbroken limit line) :
    width line ≤ limit ∨
      ∃ front token, line = front ++ [token] ∧ token ≠ [] ∧ ∀ other ∈ front, other = [] := by
  rcases List.eq_nil_or_concat line with rfl | ⟨front, token, rfl⟩
  · exact .inl (Nat.zero_le _)
  · have hfits := unbroken front token [] (by simp)
    by_cases hblank : width front = 0
    · by_cases htoken : token = []
      · left
        simp [htoken, hblank]
      · exact .inr ⟨front, token, by simp, htoken, width_eq_zero_iff.1 hblank⟩
    · left
      simp only [List.concat_eq_append, width_append, width_singleton]
      rw [Overflows] at hfits
      omega

/-! ## The text of the lines -/

/-- Joined by a separator, every part but the first has it in front. -/
theorem intercalate_cons_eq {α : Type} (separator part : List α) (parts : List (List α)) :
    separator.intercalate (part :: parts) = part ++ parts.flatMap (separator ++ ·) := by
  induction parts generalizing part with
  | nil => simp
  | cons next parts ih =>
    rw [List.intercalate_cons_cons, ih next]
    simp

/-- The lines together are the text of their tokens. -/
theorem flatten_lineTexts (separator : List Char) (hne : ∀ line ∈ lines, line ≠ []) :
    (lineTexts separator lines).flatten = separator.intercalate lines.flatten := by
  cases lines with
  | nil => rfl
  | cons line lines =>
    obtain ⟨token, tokens, rfl⟩ := List.exists_cons_of_ne_nil (hne line List.mem_cons_self)
    have hrest : (lines.map (continued separator)).flatten =
        lines.flatten.flatMap (separator ++ ·) := by
      rw [← List.flatMap_def, List.flatten_eq_flatMap, List.flatMap_assoc]
      rfl
    rw [lineTexts, List.flatten_cons, hrest, List.flatten_cons, List.cons_append,
      intercalate_cons_eq, intercalate_cons_eq, List.flatMap_append, List.append_assoc]

/-- A line behind the first one begins with the separator. -/
theorem prefix_of_mem_tail_lineTexts (separator : List Char)
    (hne : ∀ line ∈ lines, line ≠ []) :
    ∀ text ∈ (lineTexts separator lines).tail, separator <+: text := by
  cases lines with
  | nil => simp [lineTexts]
  | cons line lines =>
    intro text htext
    obtain ⟨next, hnext, rfl⟩ := List.mem_map.1 htext
    obtain ⟨token, tokens, rfl⟩ :=
      List.exists_cons_of_ne_nil (hne next (List.mem_cons_of_mem _ hnext))
    exact ⟨token ++ continued separator tokens, by simp [continued]⟩

/-! ## Wrapped texts -/

/-- The tokens of a text are filled into its lines. -/
theorem exists_fills {separator : String} (hne : separator ≠ "") (limit : Nat)
    (text : String) :
    ∃ token tokens, Text.Splits separator.toList text.toList (token :: tokens) ∧
      Fills limit [token] tokens
        (Endpoint.lines limit (Text.pieces separator.toList text.toList)) := by
  have hlist : separator.toList ≠ [] := by simpa using hne
  have hsplits := Text.splits_pieces hlist text.toList
  obtain ⟨token, tokens, hpieces⟩ := List.exists_cons_of_ne_nil hsplits.ne_nil
  rw [hpieces] at hsplits ⊢
  exact ⟨token, tokens, hsplits, fills_lines limit token tokens⟩

theorem wrap_eq_intercalate {separator : String} (hne : separator ≠ "") (lineBreak : String)
    (limit : Nat) (text : String) :
    wrap separator lineBreak limit text = lineBreak.intercalate
      ((lineTexts separator.toList
        (Endpoint.lines limit (Text.pieces separator.toList text.toList))).map
          String.ofList) := by
  rw [wrap, wrapLines, if_neg (by simpa using hne)]

theorem wrapLines_ne_nil (separator : String) (limit : Nat) (text : String) :
    wrapLines separator limit text ≠ [] := by
  unfold wrapLines
  split
  · exact List.cons_ne_nil text []
  · obtain ⟨token, tokens, hpieces⟩ :=
      List.exists_cons_of_ne_nil (Text.pieces_ne_nil separator.toList text.toList)
    rw [hpieces]
    exact List.cons_ne_nil _ _

/-- The lines together are the text. -/
theorem join_wrapLines (separator : String) (limit : Nat) (text : String) :
    String.join (wrapLines separator limit text) = text := by
  by_cases hne : separator = ""
  · simp [wrapLines, hne]
  · obtain ⟨token, tokens, hsplits, hfills⟩ := exists_fills hne limit text
    rw [wrapLines, if_neg (by simpa using hne), ← String.toList_inj, String.toList_join,
      List.flatMap_map]
    simp only [String.toList_ofList]
    rw [List.flatMap_id', flatten_lineTexts _ (hfills.ne_nil_of_mem (by simp)), hfills.flatten_eq]
    exact hsplits.intercalate_eq

/-- Every line but the first begins with the separator. -/
theorem prefix_of_mem_tail_wrapLines {separator text line : String} {limit : Nat}
    (h : line ∈ (wrapLines separator limit text).tail) : separator.toList <+: line.toList := by
  by_cases hne : separator = ""
  · simp [wrapLines, hne] at h
  · obtain ⟨token, tokens, -, hfills⟩ := exists_fills hne limit text
    rw [wrapLines, if_neg (by simpa using hne), ← List.map_tail] at h
    obtain ⟨shown, hshown, rfl⟩ := List.mem_map.1 h
    rw [String.toList_ofList]
    exact prefix_of_mem_tail_lineTexts _ (hfills.ne_nil_of_mem (by simp)) shown hshown

/-- A text without the separator stays as it is, and nothing is wrapped at an
empty separator.  Any other text is cut into tokens at the occurrences of the
separator, and the tokens are shown on lines in their order.  The lines break
exactly in front of the tokens that overflow them.  A line is no wider than the
limit, unless its last token is the only one that is not empty.  Each line has
one text: in that of the first line the tokens are joined by the separator, and
in the others each token has it in front.  Put together the texts are the text
again, and all but the first begin with the separator. -/
theorem wrap_eq_text_and_lines (separator lineBreak : String) (limit : Nat) (text : String) :
    ((text = "" ∨ separator = "" ∨ ¬ separator.toList <:+: text.toList) →
      wrap separator lineBreak limit text = text) ∧
    (separator ≠ "" → ∃ tokens first others,
      Text.Splits separator.toList text.toList tokens ∧
      (first :: others).flatten = tokens ∧
      (∀ line ∈ first :: others, line ≠ []) ∧
      BreaksAtOverflow limit (first :: others) ∧
      (∀ line ∈ first :: others, width line ≤ limit ∨
        ∃ front token, line = front ++ [token] ∧ token ≠ [] ∧ ∀ other ∈ front, other = []) ∧
      ∃ texts : List (List Char),
        texts = separator.toList.intercalate first ::
          others.map (fun line => line.flatMap fun token => separator.toList ++ token) ∧
        wrap separator lineBreak limit text = lineBreak.intercalate (texts.map String.ofList) ∧
        texts.flatten = text.toList ∧
        ∀ shown ∈ texts.tail, separator.toList <+: shown) := by
  constructor
  · intro h
    by_cases hne : separator = ""
    · simp [wrap, wrapLines, hne]
    · have absent : ¬ separator.toList <:+: text.toList := by
        rcases h with rfl | h | h
        · simpa using hne
        · exact absurd h hne
        · exact h
      have hlist : separator.toList ≠ [] := by simpa using hne
      have hpieces := (Text.splits_pieces hlist text.toList).eq_of_absent absent
      rw [wrap_eq_intercalate hne, hpieces]
      simp [lines, fill, lineTexts]
  · intro hne
    obtain ⟨token, tokens, hsplits, hfills⟩ := exists_fills hne limit text
    have hfront := unbroken_singleton limit token
    have hwrap := wrap_eq_intercalate hne lineBreak limit text
    obtain ⟨back, others, hlines⟩ := hfills.exists_eq_cons
    rw [hlines] at hfills hwrap
    have hnonempty := hfills.ne_nil_of_mem (by simp)
    refine ⟨_, [token] ++ back, others, hsplits, hfills.flatten_eq, hnonempty,
      hfills.breaksAtOverflow hfront, ?_,
      lineTexts separator.toList (([token] ++ back) :: others), rfl, hwrap, ?_,
      prefix_of_mem_tail_lineTexts _ hnonempty⟩
    · exact fun line hline => width_le_or_of_unbroken (hfills.unbroken hfront line hline)
    · rw [flatten_lineTexts _ hnonempty, hfills.flatten_eq]
      exact hsplits.intercalate_eq

end RouteScope.Endpoint
