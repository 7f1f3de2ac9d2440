import Mathlib.Tactic.SplitIfs
import RouteScope.Toml.String
import RouteScope.Toml.Writer

/-!
# Strings in quotes

A written string reads back as the string, whatever characters it has and
whichever of the four forms it is written in.  `StringForm.Fits` says which
texts a form can show, and the form that `StringForm.ofChars` chooses always
fits.

The forms between three marks leave up to two marks in a row as they are, also
in front of the closing ones.  The lemmas about them therefore speak about a
text with a few marks in front of it: the marks that have been read, but might
still turn out to be closing ones.
-/

namespace RouteScope.Toml

/-! ## Escapes -/

/-- Two hexadecimal digits spell any number below 256. -/
theorem hexChar?_hexDigit (n : Nat) (hn : n < 256) :
    hexChar? ['0', '0', Text.hexDigit 'A' (n / 16), Text.hexDigit 'A' (n % 16)] =
      some (Char.ofNat n) := by
  have hhigh : Text.hexValue? (Text.hexDigit 'A' (n / 16)) = some (n / 16) :=
    Text.hexValue?_hexDigit (Or.inr rfl) _ (by omega)
  have hlow : Text.hexValue? (Text.hexDigit 'A' (n % 16)) = some (n % 16) :=
    Text.hexValue?_hexDigit (Or.inr rfl) _ (by omega)
  have hzero : Text.hexValue? '0' = some 0 := by decide
  have hcode : 16 * (n / 16) + n % 16 = n := by omega
  have hvalid : n.isValidChar := Or.inl (by omega)
  simp [hexChar?, hzero, hhigh, hlow, hcode, hvalid]

theorem toNat_lt_of_not_isPlain {c : Char} (hc : isPlain c = false) : c.toNat < 128 := by
  simp only [isPlain, Bool.or_eq_false_iff, Bool.and_eq_false_iff, decide_eq_false_iff_not,
    bne_eq_false_iff_eq] at hc
  omega

theorem ne_of_test (test : Char → Bool) {c d : Char} (hc : test c = true)
    (hd : test d = false) : c ≠ d := by
  intro heq
  rw [heq, hd] at hc
  cases hc

/-- The written forms of a character between quotation marks: the character
itself, a letter that stands for it, or its number. -/
inductive Shows (c : Char) : List Char → Prop where
  | plain (hplain : isPlain c = true) (hquote : c ≠ '"') (hslash : c ≠ '\\') : Shows c [c]
  | letter {d : Char} (hletter : letterEscape? d = some c) : Shows c ['\\', d]
  | code {a b : Char} (hcode : hexChar? ['0', '0', a, b] = some c) :
      Shows c ['\\', 'u', '0', '0', a, b]

theorem shows_escape (c : Char) : Shows c (escape c) := by
  unfold escape
  split_ifs with hback htab hfeed hform hreturn hquote hslash hplain
  · exact .letter (by rw [hback]; rfl)
  · exact .letter (by rw [htab]; rfl)
  · exact .letter (by rw [hfeed]; rfl)
  · exact .letter (by rw [hform]; rfl)
  · exact .letter (by rw [hreturn]; rfl)
  · exact .letter (by rw [hquote]; rfl)
  · exact .letter (by rw [hslash]; rfl)
  · exact .plain hplain hquote hslash
  · have hlt : c.toNat < 128 := toNat_lt_of_not_isPlain (by simpa using hplain)
    have hchar := hexChar?_hexDigit c.toNat (by omega)
    rw [Char.ofNat_toNat] at hchar
    exact .code hchar

/-- What stands for a character begins neither with a mark nor with a control
character. -/
theorem Shows.head?_ne {c d : Char} {shown : List Char} (hshows : Shows c shown)
    (text : List Char) (hd : d = '"' ∨ isPlain d = false) : (shown ++ text).head? ≠ some d := by
  have hslash : '\\' ≠ d := by
    rcases hd with rfl | hd
    · decide
    · exact ne_of_test isPlain (by decide) hd
  cases hshows with
  | plain hplain hquote =>
      rcases hd with rfl | hd
      · simpa using hquote
      · simpa using ne_of_test isPlain hplain hd
  | letter | code => simpa using hslash

/-- A letter that stands for a character is none of the two that announce a
number. -/
theorem ne_of_letterEscape? {c d : Char} (hletter : letterEscape? d = some c) :
    d ≠ 'u' ∧ d ≠ 'U' := by
  constructor <;> intro heq <;> rw [heq] at hletter <;> cases hletter

/-! ## Strings on one line -/

/-- What the readers do with a character in front of the rest of a string. -/
theorem bind_cons_eq_map (c : Char) (read? : Option (List Char × List Char)) :
    (do
      let (chars, rest) ← read?
      return (c :: chars, rest)) = read?.map (Prod.map (c :: ·) id) := by
  cases read? <;> rfl

theorem readBasic_shown {c : Char} {shown : List Char} (hshows : Shows c shown)
    (text : List Char) :
    readBasic (shown ++ text) = (readBasic text).map (Prod.map (c :: ·) id) := by
  rw [← bind_cons_eq_map]
  cases hshows with
  | plain hplain hquote hslash =>
      rw [List.singleton_append, readBasic]
      · rw [if_pos ⟨hplain, hslash⟩]
      all_goals simp [hquote, hslash]
  | letter hletter =>
      obtain ⟨hu, hU⟩ := ne_of_letterEscape? hletter
      rw [List.cons_append, List.singleton_append, readBasic]
      · rw [hletter]
        rfl
      all_goals simp [hu, hU]
  | code hcode =>
      simp only [List.cons_append, List.nil_append, readBasic, hcode]
      rfl

/-- An escaped text reads back up to the closing mark. -/
theorem readBasic_flatMap_escape (text rest : List Char) :
    readBasic (text.flatMap escape ++ '"' :: rest) = some (text, rest) := by
  induction text with
  | nil => rfl
  | cons c text ih =>
      rw [List.flatMap_cons, List.append_assoc, readBasic_shown (shows_escape c), ih]
      rfl

/-- A plain text without apostrophes reads back up to the closing mark. -/
theorem readLiteral_append (text rest : List Char) (hplain : ∀ c ∈ text, isPlain c = true)
    (hmark : '\'' ∉ text) : readLiteral (text ++ '\'' :: rest) = some (text, rest) := by
  induction text with
  | nil => rfl
  | cons c text ih =>
      have hc : c ≠ '\'' := fun heq => hmark (by simp [heq])
      have htail := ih (fun d hd => hplain d (List.mem_cons_of_mem c hd))
        (fun hmem => hmark (List.mem_cons_of_mem c hmem))
      rw [List.cons_append, readLiteral]
      · rw [if_pos (hplain c List.mem_cons_self), htail]
        rfl
      · exact hc

/-! ## Strings between three marks -/

theorem isBlankLine_of_letterEscape? {c d : Char} (hletter : letterEscape? d = some c)
    (text : List Char) : isBlankLine (d :: text) = false := by
  unfold letterEscape? at hletter
  split at hletter
  all_goals first | rfl | cases hletter

theorem readBasicLines_newline (text : List Char) :
    readBasicLines false ('\n' :: text) =
      (readBasicLines false text).map (Prod.map ('\n' :: ·) id) := by
  rw [← bind_cons_eq_map, readBasicLines]
  all_goals simp

theorem readBasicLines_shown {c : Char} {shown : List Char} (hshows : Shows c shown)
    (text : List Char) :
    readBasicLines false (shown ++ text) =
      (readBasicLines false text).map (Prod.map (c :: ·) id) := by
  rw [← bind_cons_eq_map]
  cases hshows with
  | plain hplain hquote hslash =>
      have hreturn : c ≠ '\r' := ne_of_test isPlain hplain rfl
      rw [List.singleton_append, readBasicLines]
      · rw [if_neg (by simp), if_pos (.inr ⟨hplain, hslash⟩)]
      all_goals simp [hquote, hslash, hreturn]
  | letter hletter =>
      obtain ⟨hu, hU⟩ := ne_of_letterEscape? hletter
      rw [List.cons_append, List.singleton_append, readBasicLines]
      · rw [isBlankLine_of_letterEscape? hletter, hletter]
        rfl
      all_goals simp [hu, hU]
  | code hcode =>
      simp only [List.cons_append, List.nil_append, readBasicLines, hcode]
      rfl

theorem readLiteralLines_plain {c : Char} (text : List Char)
    (hplain : c = '\n' ∨ isPlain c = true) (hmark : c ≠ '\'') :
    readLiteralLines (c :: text) =
      (readLiteralLines text).map (Prod.map (c :: ·) id) := by
  have hreturn : c ≠ '\r' := by
    rcases hplain with rfl | hplain
    · decide
    · exact ne_of_test isPlain hplain rfl
  rw [← bind_cons_eq_map, readLiteralLines]
  · rw [if_pos hplain]
  all_goals simp [hmark, hreturn]

/-- A reader of strings between three marks.  A mark stands for itself unless it
is one of three, and up to two more in front of the closing ones belong to the
string. -/
structure ReadsMarks (read : List Char → Option (List Char × List Char)) (mark : Char) :
    Prop where
  pass : ∀ text, (∀ tail, text ≠ mark :: mark :: tail) →
    read (mark :: text) = (read text).map (Prod.map (mark :: ·) id)
  close : ∀ rest, (∀ tail, rest ≠ mark :: tail) →
    read (mark :: mark :: mark :: rest) = some ([], rest)
  close_one : ∀ rest, (∀ tail, rest ≠ mark :: tail) →
    read (mark :: mark :: mark :: mark :: rest) = some ([mark], rest)
  close_two : ∀ rest,
    read (mark :: mark :: mark :: mark :: mark :: rest) = some ([mark, mark], rest)

namespace ReadsMarks

variable {read : List Char → Option (List Char × List Char)} {mark : Char} {marks : Nat}

/-- One or two marks in front of another character stand for themselves. -/
theorem read_marks (hread : ReadsMarks read mark) (hmarks : marks ≤ 2) {text : List Char}
    (htext : text.head? ≠ some mark) :
    read (List.replicate marks mark ++ text) =
      (read text).map (Prod.map (List.replicate marks mark ++ ·) id) := by
  have hone : read (mark :: text) = (read text).map (Prod.map (mark :: ·) id) := by
    apply hread.pass
    intro tail heq
    simp [heq] at htext
  have htwo : read (mark :: mark :: text) =
      (read (mark :: text)).map (Prod.map (mark :: ·) id) := by
    apply hread.pass
    intro tail heq
    obtain ⟨-, heq⟩ := List.cons.inj heq
    simp [heq] at htext
  match marks, hmarks with
  | 0, _ =>
      rw [List.replicate_zero, List.nil_append]
      cases read text <;> rfl
  | 1, _ => exact hone
  | 2, _ =>
      rw [hone] at htwo
      refine htwo.trans ?_
      cases read text <;> rfl

/-- Three marks close a string, with up to two more in front of them that
belong to it. -/
theorem read_close (hread : ReadsMarks read mark) (hmarks : marks ≤ 2) {rest : List Char}
    (hrest : rest.head? ≠ some mark) :
    read (List.replicate marks mark ++ ([mark, mark, mark] ++ rest)) =
      some (List.replicate marks mark, rest) := by
  have hhead : ∀ tail, rest ≠ mark :: tail := by
    intro tail heq
    simp [heq] at hrest
  match marks, hmarks with
  | 0, _ => exact hread.close rest hhead
  | 1, _ => exact hread.close_one rest hhead
  | 2, _ => exact hread.close_two rest

end ReadsMarks

theorem readsMarks_readBasicLines : ReadsMarks (readBasicLines false) '"' := by
  refine ⟨?pass, ?close, ?one, fun _ => rfl⟩
  case pass =>
    intro text hopen
    rw [← bind_cons_eq_map, readBasicLines]
    · rw [if_neg (by simp), if_pos (by decide)]
    all_goals simp [hopen]
  all_goals
    intro rest hrest
    rw [readBasicLines]
    all_goals simp [hrest]

theorem readsMarks_readLiteralLines : ReadsMarks readLiteralLines '\'' := by
  refine ⟨?pass, ?close, ?one, fun _ => rfl⟩
  case pass =>
    intro text hopen
    rw [← bind_cons_eq_map, readLiteralLines]
    · rw [if_pos (by decide)]
    all_goals simp [hopen]
  all_goals
    intro rest hrest
    rw [readLiteralLines]
    all_goals simp [hrest]

/-- A text that goes over several lines reads back up to the closing marks.
`marks` quotation marks have been written and may still turn out to close it. -/
theorem readBasicLines_escapeLines {marks : Nat} (hmarks : marks ≤ 2) (text : List Char)
    {rest : List Char} (hrest : rest.head? ≠ some '"') :
    readBasicLines false (List.replicate marks '"' ++
        (escapeLines marks text ++ (['"', '"', '"'] ++ rest))) =
      some (List.replicate marks '"' ++ text, rest) := by
  induction text generalizing marks with
  | nil =>
      rw [escapeLines, List.nil_append, List.append_nil]
      exact readsMarks_readBasicLines.read_close hmarks hrest
  | cons c text ih =>
      have hzero := ih (Nat.zero_le 2)
      rw [List.replicate_zero, List.nil_append, List.nil_append] at hzero
      rw [escapeLines]
      split_ifs with hfeed hquote
      · rw [readsMarks_readBasicLines.read_marks hmarks (by simp), List.cons_append,
          readBasicLines_newline, hzero, hfeed]
        rfl
      · have hnext := ih (show marks + 1 ≤ 2 by omega)
        rw [List.replicate_succ'] at hnext
        rw [hquote.1]
        simpa using hnext
      · have hshows := shows_escape c
        have hhead := hshows.head?_ne (escapeLines 0 text ++ (['"', '"', '"'] ++ rest)) (.inl rfl)
        rw [List.append_assoc, readsMarks_readBasicLines.read_marks hmarks hhead,
          readBasicLines_shown hshows, hzero]
        rfl

theorem hasTriple_append {mark : Char} (front text : List Char)
    (hnone : hasTriple mark (front ++ text) = false) : hasTriple mark text = false := by
  induction front with
  | nil => exact hnone
  | cons c front ih =>
      apply ih
      match hchars : front ++ text with
      | [] => rfl
      | [_] => rfl
      | a :: b :: chars =>
          rw [List.cons_append, hchars, hasTriple, Bool.or_eq_false_iff] at hnone
          exact hnone.2

/-- A text without three apostrophes in a row reads back up to the closing
marks.  `marks` apostrophes have been written and may still turn out to close
it. -/
theorem readLiteralLines_append {marks : Nat} (hmarks : marks ≤ 2) (text : List Char)
    {rest : List Char} (hrest : rest.head? ≠ some '\'')
    (hplain : ∀ c ∈ text, c = '\n' ∨ isPlain c = true)
    (htriple : hasTriple '\'' (List.replicate marks '\'' ++ text) = false) :
    readLiteralLines (List.replicate marks '\'' ++ (text ++ (['\'', '\'', '\''] ++ rest))) =
      some (List.replicate marks '\'' ++ text, rest) := by
  induction text generalizing marks with
  | nil =>
      rw [List.nil_append, List.append_nil]
      exact readsMarks_readLiteralLines.read_close hmarks hrest
  | cons c text ih =>
      have htail : ∀ d ∈ text, d = '\n' ∨ isPlain d = true :=
        fun d hd => hplain d (List.mem_cons_of_mem c hd)
      by_cases hmark : c = '\''
      · have hsame : List.replicate marks '\'' ++ c :: text =
            List.replicate (marks + 1) '\'' ++ text := by
          rw [hmark, List.replicate_succ']
          simp
        have hfull : marks ≠ 2 := by
          intro htwo
          subst htwo
          rw [hmark] at htriple
          simp [hasTriple] at htriple
        rw [hsame] at htriple
        have hnext := ih (show marks + 1 ≤ 2 by omega) htail htriple
        rw [hsame, ← hnext, List.replicate_succ', hmark]
        simp
      · have hzero := ih (Nat.zero_le 2) htail
          (hasTriple_append (List.replicate marks '\'' ++ [c]) text (by simpa using htriple))
        rw [List.replicate_zero, List.nil_append, List.nil_append] at hzero
        rw [readsMarks_readLiteralLines.read_marks hmarks (by simpa using hmark), List.cons_append,
          readLiteralLines_plain _ (hplain c List.mem_cons_self) hmark, hzero]
        rfl

/-! ## The four forms -/

theorem newLine?_eq_none {text : List Char} (hfeed : text.head? ≠ some '\n')
    (hreturn : text.head? ≠ some '\r') : newLine? text = none := by
  match text with
  | [] => rfl
  | c :: text =>
      simp only [List.head?_cons, ne_eq, Option.some.injEq] at hfeed hreturn
      rw [newLine?]
      all_goals simp [hfeed, hreturn]

/-- The line feed behind three opening marks is passed over, and it is there
whenever the string might begin with one. -/
theorem skipFirstBreak_firstBreak {text body : List Char}
    (hbody : '\n' ∉ text → newLine? body = none) :
    skipFirstBreak (firstBreak text ++ body) = body := by
  unfold firstBreak
  split_ifs with hfeed
  · rfl
  · rw [List.nil_append, skipFirstBreak, hbody (by simpa using hfeed)]
    rfl

theorem newLine?_escapeLines {text : List Char} (rest : List Char) (hfeed : '\n' ∉ text) :
    newLine? (escapeLines 0 text ++ (['"', '"', '"'] ++ rest)) = none := by
  match text with
  | [] => rfl
  | c :: text =>
      rw [List.mem_cons, not_or] at hfeed
      rw [escapeLines, if_neg (Ne.symm hfeed.1)]
      split_ifs
      · rfl
      · have hshows := shows_escape c
        rw [List.append_assoc]
        exact newLine?_eq_none (hshows.head?_ne _ (.inr rfl)) (hshows.head?_ne _ (.inr rfl))

theorem newLine?_append {text : List Char} (rest : List Char)
    (hplain : ∀ c ∈ text, c = '\n' ∨ isPlain c = true) (hfeed : '\n' ∉ text) :
    newLine? (text ++ (['\'', '\'', '\''] ++ rest)) = none := by
  match text with
  | [] => rfl
  | c :: text =>
      rw [List.mem_cons, not_or] at hfeed
      have hc : isPlain c = true :=
        (hplain c List.mem_cons_self).resolve_left (Ne.symm hfeed.1)
      apply newLine?_eq_none
      · simpa using Ne.symm hfeed.1
      · simpa using ne_of_test isPlain hc rfl

/-- The texts that a form can show. -/
def StringForm.Fits (text : List Char) : StringForm → Prop
  | basic | basicLines => True
  | literal => (∀ c ∈ text, isPlain c = true) ∧ '\'' ∉ text
  | literalLines =>
      (∀ c ∈ text, c = '\n' ∨ isPlain c = true) ∧ hasTriple '\'' text = false

theorem StringForm.fits_ofChars (text : List Char) : (ofChars text).Fits text := by
  unfold ofChars
  split_ifs with hplain hbasic hliteral hquotes htriple
  all_goals simp only [Fits]
  · simp at hplain hliteral
    refine ⟨?_, hliteral.2⟩
    intro c hc
    rcases hplain c hc with hplain | hfeed
    · exact hplain
    · exact absurd (hfeed ▸ hc) hliteral.1
  · simp at hplain htriple
    refine ⟨?_, htriple⟩
    intro c hc
    exact (hplain c hc).symm

theorem readString_basic {text : List Char} {rest : List Char} (hrest : rest.head? ≠ some '"') :
    readString (writeStringAs text .basic ++ rest) = some (text, rest) := by
  have hread := readBasic_flatMap_escape text rest
  rw [writeStringAs, List.cons_append, List.cons_append, List.append_assoc,
    List.singleton_append, readString]
  · exact hread
  · intro tail heq
    match text with
    | [] => exact hrest (congrArg List.head? (List.cons.inj heq).2)
    | c :: text =>
        have hhead := (shows_escape c).head?_ne (text.flatMap escape ++ '"' :: rest) (.inl rfl)
        rw [← List.append_assoc, ← List.flatMap_cons, heq] at hhead
        exact hhead rfl

theorem readString_literal {text : List Char} {rest : List Char}
    (hfits : StringForm.Fits text .literal) (hrest : rest.head? ≠ some '\'') :
    readString (writeStringAs text .literal ++ rest) = some (text, rest) := by
  obtain ⟨hplain, hmark⟩ := hfits
  have hread := readLiteral_append text rest hplain hmark
  rw [writeStringAs, List.cons_append, List.cons_append, List.append_assoc,
    List.singleton_append, readString]
  · exact hread
  · intro tail heq
    match text with
    | [] => exact hrest (congrArg List.head? (List.cons.inj heq).2)
    | c :: text => exact hmark (by simp [(List.cons.inj heq).1])

theorem readString_basicLines (text : List Char) {rest : List Char}
    (hrest : rest.head? ≠ some '"') :
    readString (writeStringAs text .basicLines ++ rest) = some (text, rest) := by
  have hread := readBasicLines_escapeLines (Nat.zero_le 2) text hrest
  rw [List.replicate_zero, List.nil_append, List.nil_append] at hread
  simp only [writeStringAs, List.append_assoc]
  change readBasicLines false (skipFirstBreak (firstBreak text ++ _)) = _
  rw [skipFirstBreak_firstBreak (newLine?_escapeLines rest), hread]

theorem readString_literalLines {text : List Char} {rest : List Char}
    (hfits : StringForm.Fits text .literalLines) (hrest : rest.head? ≠ some '\'') :
    readString (writeStringAs text .literalLines ++ rest) = some (text, rest) := by
  obtain ⟨hplain, htriple⟩ := hfits
  have hread := readLiteralLines_append (Nat.zero_le 2) text hrest hplain htriple
  rw [List.replicate_zero, List.nil_append, List.nil_append] at hread
  simp only [writeStringAs, List.append_assoc]
  change readLiteralLines (skipFirstBreak (firstBreak text ++ _)) = _
  rw [skipFirstBreak_firstBreak (newLine?_append rest hplain), hread]

/-- Every string reads back as it was written, if no mark follows it. -/
theorem readString_writeString (text : String) {rest : List Char}
    (hquote : rest.head? ≠ some '"') (hapostrophe : rest.head? ≠ some '\'') :
    readString (writeString text ++ rest) = some (text.toList, rest) := by
  have hfits := StringForm.fits_ofChars text.toList
  rw [writeString]
  cases hform : StringForm.ofChars text.toList with
  | basic => exact readString_basic hquote
  | literal => exact readString_literal (hform ▸ hfits) hapostrophe
  | basicLines => exact readString_basicLines text.toList hquote
  | literalLines => exact readString_literalLines (hform ▸ hfits) hapostrophe

end RouteScope.Toml
