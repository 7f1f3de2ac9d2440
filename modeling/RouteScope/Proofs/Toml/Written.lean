import Mathlib.Data.List.Basic
import RouteScope.Proofs.Text.Digits
import RouteScope.Proofs.Toml.Quoting
import RouteScope.Toml.Reader

/-!
# Written values

Truth values, natural numbers, strings and lists of strings read back as they
were written.  `Spells` is the property that the lemmas establish: the text is
taken for the value, up to the end of the text and no further, wherever a value
may stand.
-/

namespace RouteScope.Toml

/-- The text behind a value goes on with a comma, with the end of a list or with
the end of a line. -/
inductive Delimits : List Char → Prop where
  | comma (rest : List Char) : Delimits (',' :: rest)
  | bracket (rest : List Char) : Delimits (']' :: rest)
  | feed (rest : List Char) : Delimits ('\n' :: rest)

/-- A text that is taken for a value whatever delimits it.  It does not begin
like the blanks in front of it. -/
structure Spells (depth : Nat) (text : List Char) (value : Value) : Prop where
  skipBlanks_append : ∀ rest, skipBlanks (text ++ rest) = text ++ rest
  readValue_append : ∀ rest, Delimits rest →
    readValue depth (text ++ rest) = some (value, rest)

theorem readValue_eq_readScalar (depth : Nat) {text : List Char}
    (hlist : text.head? ≠ some '[') (htable : text.head? ≠ some '\x7b') :
    readValue depth text = readScalar text := by
  rw [readValue]
  · intro _ _ _ heq
    simp [heq] at hlist
  · intro _ _ _ heq
    simp [heq] at htable

/-! ## Truth values -/

theorem spells_writeBoolean (depth : Nat) (value : Bool) :
    Spells depth (writeBoolean value) (.boolean value) := by
  constructor
  · intro rest
    cases value <;> rfl
  · intro rest hrest
    rw [readValue_eq_readScalar]
    all_goals cases value <;> simp [writeBoolean, readScalar, toString]

/-! ## Natural numbers -/

theorem ofDigits_toDigits (n : Nat) : ofDigits 10 (Nat.toDigits 10 n) = n := by
  have hvalue : ∀ value, ∀ c ∈ Nat.toDigits 10 n,
      10 * value + digitValue c = 10 * value + (c.toNat - '0'.toNat) := by
    intro value c hc
    have hdigit : c.isDigit = true :=
      Nat.isDigit_of_mem_toDigits (by decide) (by decide) hc
    rw [digitValue, if_pos hdigit]
    rfl
  rw [ofDigits, List.foldl_ext _ _ 0 hvalue, ← Nat.ofDigitChars_eq_foldl,
    Nat.ofDigitChars_ten_toDigits]

theorem readMoreDigits_append {digits : List Char} (hdigits : ∀ c ∈ digits, c.isDigit = true)
    {rest : List Char} (hrest : Delimits rest) :
    readMoreDigits Char.isDigit (digits ++ rest) = some (digits, rest) := by
  induction digits with
  | nil =>
      cases hrest <;> rfl
  | cons c digits ih =>
      have hc := hdigits c List.mem_cons_self
      have htail := ih (fun d hd => hdigits d (List.mem_cons_of_mem c hd))
      rw [List.cons_append, readMoreDigits]
      · rw [if_pos hc, htail]
        rfl
      · intro d text heq
        exact absurd heq (ne_of_test Char.isDigit hc rfl)

theorem readWhole_toDigits (n : Nat) {rest : List Char} (hrest : Delimits rest) :
    readWhole (Nat.toDigits 10 n ++ rest) = some (Nat.toDigits 10 n, rest) := by
  obtain ⟨c, digits, hdigits, hc, htail, hzero⟩ := Text.exists_toDigits_eq_cons n
  rw [hdigits]
  by_cases hfirst : c = '0'
  · rw [hfirst, hzero hfirst]
    rfl
  · rw [List.cons_append, readWhole]
    · rw [readDigits, if_pos hc, readMoreDigits_append htail hrest]
      rfl
    · intro text heq
      exact hfirst (List.cons.inj heq).1

theorem readUnsigned_toDigits {n : Nat} (hn : n ≤ Int64.maxValue.toInt) {rest : List Char}
    (hrest : Delimits rest) :
    readUnsigned false (Nat.toDigits 10 n ++ rest) = some (.integer (.ofInt n), rest) := by
  have hwhole := readWhole_toDigits n hrest
  have hdecimals : readDecimals rest = some ({}, rest) := by
    cases hrest <;> rfl
  have hinteger : integer? false n = some (.integer (.ofInt n)) := by
    rw [integer?]
    simp [hn]
  obtain ⟨c, digits, hdigits, hc, -⟩ := Text.exists_toDigits_eq_cons n
  rw [readUnsigned, hwhole]
  · simp [hdecimals, ofDigits_toDigits, hinteger]
  all_goals
    intro text heq
    rw [hdigits] at heq
    exact ne_of_test Char.isDigit hc rfl (List.cons.inj heq).1

theorem readNumber_toDigits (n : Nat) {rest : List Char} (hrest : Delimits rest) :
    readNumber (Nat.toDigits 10 n ++ rest) = readUnsigned false (Nat.toDigits 10 n ++ rest) := by
  obtain ⟨c, digits, hdigits, hc, -, hzero⟩ := Text.exists_toDigits_eq_cons n
  rw [hdigits, readNumber]
  · intro text heq
    exact ne_of_test Char.isDigit hc rfl (List.cons.inj heq).1
  · intro text heq
    exact ne_of_test Char.isDigit hc rfl (List.cons.inj heq).1
  all_goals
    intro text heq
    obtain ⟨hfirst, hnext⟩ := List.cons.inj heq
    rw [hzero hfirst] at hnext
    cases hrest <;> cases hnext

theorem dropWhile_isDigit_of_beginsDate {text : List Char} (hdate : beginsDate text = true) :
    ∃ tail, text.dropWhile Char.isDigit = '-' :: tail := by
  unfold beginsDate at hdate
  split at hdate
  · simp only [List.all_cons, List.all_nil, Bool.and_true, Bool.and_eq_true] at hdate
    obtain ⟨h₁, h₂, h₃, h₄⟩ := hdate
    exact ⟨_, by simp [h₁, h₂, h₃, h₄]; rfl⟩
  · cases hdate

theorem dropWhile_isDigit_of_beginsTime {text : List Char} (htime : beginsTime text = true) :
    ∃ tail, text.dropWhile Char.isDigit = ':' :: tail := by
  unfold beginsTime at htime
  split at htime
  · rw [Bool.and_eq_true] at htime
    exact ⟨_, by simp [htime.1, htime.2]; rfl⟩
  · cases htime

/-- Digits with a delimiter behind them are not taken for a moment. -/
theorem not_begins_toDigits (n : Nat) {rest : List Char} (hrest : Delimits rest) :
    (beginsDate (Nat.toDigits 10 n ++ rest) || beginsTime (Nat.toDigits 10 n ++ rest)) =
      false := by
  have hdrop : (Nat.toDigits 10 n ++ rest).dropWhile Char.isDigit = rest := by
    rw [List.dropWhile_append_of_pos]
    · cases hrest <;> rfl
    · intro c hc
      exact Nat.isDigit_of_mem_toDigits (by decide) (by decide) hc
  rw [Bool.or_eq_false_iff]
  constructor
  · rw [← Bool.not_eq_true]
    intro hdate
    obtain ⟨tail, htail⟩ := dropWhile_isDigit_of_beginsDate hdate
    rw [hdrop] at htail
    cases hrest <;> cases htail
  · rw [← Bool.not_eq_true]
    intro htime
    obtain ⟨tail, htail⟩ := dropWhile_isDigit_of_beginsTime htime
    rw [hdrop] at htail
    cases hrest <;> cases htail

/-- A number that fits into a signed one of 64 bits is taken for itself. -/
theorem spells_writeNatural (depth : Nat) {n : Nat} (hn : n ≤ Int64.maxValue.toInt) :
    Spells depth (writeNatural n) (.integer (.ofInt n)) := by
  have hwritten : writeNatural n = Nat.toDigits 10 n := Nat.toList_repr
  obtain ⟨c, digits, hdigits, hc, -⟩ := Text.exists_toDigits_eq_cons n
  rw [hwritten]
  constructor
  · intro rest
    have hspace : c ≠ ' ' := ne_of_test Char.isDigit hc rfl
    have htab : c ≠ '\t' := ne_of_test Char.isDigit hc rfl
    rw [hdigits, List.cons_append, skipBlanks, List.dropWhile_cons_of_neg]
    simp [isBlank, hspace, htab]
  · intro rest hrest
    have hnumber := (readNumber_toDigits n hrest).trans (readUnsigned_toDigits hn hrest)
    have hmoment := not_begins_toDigits n hrest
    rw [hdigits] at hnumber hmoment ⊢
    have hquote : c ≠ '"' := ne_of_test Char.isDigit hc rfl
    have hapostrophe : c ≠ '\'' := ne_of_test Char.isDigit hc rfl
    have hlist : c ≠ '[' := ne_of_test Char.isDigit hc rfl
    have htable : c ≠ '\x7b' := ne_of_test Char.isDigit hc rfl
    rw [readValue_eq_readScalar _ (by simpa using hlist) (by simpa using htable),
      List.cons_append, readScalar]
    · rw [← List.cons_append, hmoment, if_neg (by simp [hquote, hapostrophe])]
      exact hnumber
    all_goals
      intro text heq
      exact absurd heq (ne_of_test Char.isDigit hc rfl)

/-! ## Strings -/

theorem exists_writeString_eq_cons (text : String) :
    ∃ mark tail, writeString text = mark :: tail ∧ (mark = '"' ∨ mark = '\'') := by
  rw [writeString]
  cases StringForm.ofChars text.toList with
  | basic | basicLines => exact ⟨'"', _, rfl, .inl rfl⟩
  | literal | literalLines => exact ⟨'\'', _, rfl, .inr rfl⟩

/-- A string is taken for itself. -/
theorem spells_writeString (depth : Nat) (text : String) :
    Spells depth (writeString text) (.string text) := by
  obtain ⟨mark, tail, hwritten, hmark⟩ := exists_writeString_eq_cons text
  constructor
  · intro rest
    rw [hwritten]
    rcases hmark with rfl | rfl <;> rfl
  · intro rest hrest
    have hread : readString (writeString text ++ rest) = some (text.toList, rest) := by
      apply readString_writeString
      all_goals cases hrest <;> simp
    rw [hwritten] at hread ⊢
    rw [readValue_eq_readScalar]
    · rcases hmark with rfl | rfl
      all_goals
        rw [List.cons_append] at hread
        simp [readScalar, hread]
    all_goals rcases hmark with rfl | rfl <;> simp

/-! ## Lists of strings -/

/-- Line breaks and blanks in front of a string are passed over. -/
theorem skipSpace_writeString (text : String) (rest : List Char) :
    skipSpace false (writeString text ++ rest) = writeString text ++ rest ∧
      skipSpace false ('\n' :: ' ' :: ' ' :: ' ' :: ' ' :: (writeString text ++ rest)) =
        writeString text ++ rest := by
  obtain ⟨mark, tail, hwritten, hmark⟩ := exists_writeString_eq_cons text
  rw [hwritten]
  rcases hmark with rfl | rfl <;> exact ⟨rfl, rfl⟩

theorem readItems_comma {read : List Char → Option (Value × List Char)} {bound : Nat}
    {text tail rest : List Char} {value : Value} {values : List Value}
    (hopen : (skipSpace false text).head? ≠ some ']')
    (hvalue : read (skipSpace false text) = some (value, ',' :: tail))
    (hvalues : readItems read bound tail = some (values, rest)) :
    readItems read (bound + 1) text = some (value :: values, rest) := by
  rw [readItems]
  split
  · rename_i heq
    simp [heq] at hopen
  · rw [hvalue]
    simp [skipSpace, isBlank, hvalues]

theorem readItems_last {read : List Char → Option (Value × List Char)} {bound : Nat}
    {text rest : List Char} {value : Value}
    (hopen : (skipSpace false text).head? ≠ some ']')
    (hvalue : read (skipSpace false text) = some (value, ']' :: rest)) :
    readItems read (bound + 1) text = some ([value], rest) := by
  rw [readItems]
  split
  · rename_i heq
    simp [heq] at hopen
  · rw [hvalue]
    simp [skipSpace, isBlank]

theorem readValue_list {depth : Nat} {text rest : List Char} {values : List Value}
    (hitems : readItems (readValue depth) text.length.succ text = some (values, rest)) :
    readValue (depth + 1) ('[' :: text) = some (.array values, rest) := by
  rw [readValue, hitems]
  rfl

theorem head?_writeString_ne (text : String) (rest : List Char) :
    (writeString text ++ rest).head? ≠ some ']' := by
  obtain ⟨mark, tail, hwritten, hmark⟩ := exists_writeString_eq_cons text
  rw [hwritten]
  rcases hmark with rfl | rfl <;> simp

/-- A list with a line for each string reads back line by line. -/
theorem readItems_flatMap_writeItem (depth : Nat) (texts : List String) (rest : List Char)
    (bound : Nat) (hbound : texts.length < bound) :
    readItems (readValue depth) bound ('\n' :: (texts.flatMap writeItem ++ ']' :: rest)) =
      some (texts.map .string, rest) := by
  induction texts generalizing bound with
  | nil =>
      cases bound with
      | zero => omega
      | succ bound => rfl
  | cons text texts ih =>
      cases bound with
      | zero => omega
      | succ bound =>
          have htail := ih bound (by simpa using hbound)
          have hline : '\n' :: ((text :: texts).flatMap writeItem ++ ']' :: rest) =
              '\n' :: ' ' :: ' ' :: ' ' :: ' ' :: (writeString text ++
                (',' :: '\n' :: (texts.flatMap writeItem ++ ']' :: rest))) := by
            simp [writeItem]
          have hspace := (skipSpace_writeString text
            (',' :: '\n' :: (texts.flatMap writeItem ++ ']' :: rest))).2
          rw [hline, List.map_cons]
          apply readItems_comma
          · rw [hspace]
            exact head?_writeString_ne text _
          · rw [hspace]
            exact (spells_writeString depth text).readValue_append _ (.comma _)
          · exact htail

theorem length_le_length_flatMap_writeItem (texts : List String) :
    texts.length ≤ (texts.flatMap writeItem).length := by
  induction texts with
  | nil => simp
  | cons text texts ih =>
      simp [writeItem] at ih ⊢
      omega

/-- A list of strings is taken for itself, however many strings it has. -/
theorem spells_writeStrings (depth : Nat) (texts : List String) :
    Spells (depth + 1) (writeStrings texts) (.array (texts.map .string)) := by
  constructor
  · intro rest
    match texts with
    | [] | [_] | _ :: _ :: _ => rfl
  · intro rest hrest
    match texts with
    | [] => rfl
    | [text] =>
        have hspace := (skipSpace_writeString text (']' :: rest)).1
        have hitems : readItems (readValue depth) (writeString text ++ ']' :: rest).length.succ
            (writeString text ++ ']' :: rest) = some ([.string text], rest) := by
          apply readItems_last
          · rw [hspace]
            exact head?_writeString_ne text _
          · rw [hspace]
            exact (spells_writeString depth text).readValue_append _ (.bracket _)
        have hwritten : writeStrings [text] ++ rest = '[' :: (writeString text ++ ']' :: rest) := by
          simp [writeStrings]
        rw [hwritten]
        exact readValue_list hitems
    | first :: second :: texts =>
        have hlength := length_le_length_flatMap_writeItem (first :: second :: texts)
        have hitems := readItems_flatMap_writeItem depth (first :: second :: texts) rest
          ('\n' :: ((first :: second :: texts).flatMap writeItem ++ ']' :: rest)).length.succ
          (by simp only [List.length_cons, List.length_append] at hlength ⊢; omega)
        have hwritten : writeStrings (first :: second :: texts) ++ rest =
            '[' :: '\n' :: ((first :: second :: texts).flatMap writeItem ++ ']' :: rest) := by
          simp [writeStrings]
        rw [hwritten]
        exact readValue_list hitems

end RouteScope.Toml
