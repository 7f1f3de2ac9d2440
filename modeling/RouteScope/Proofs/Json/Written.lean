import Mathlib.Data.List.TakeDrop
import Mathlib.Data.List.TakeWhile
import Mathlib.Tactic.SplitIfs
import RouteScope.Json.Printer
import RouteScope.Json.Reader
import RouteScope.Proofs.Text.Digits

/-!
# Written values

A value that is printed reads back as the value, whether it is printed with
blanks or without.  `Spells` is the property that the lemmas establish: the text
is taken for the value, up to the end of the text and no further, wherever a
value may stand.

The reader counts down with every level of nesting.  A text is longer than what
is nested in it, so its length is as many levels as are needed.

* `readUnits_flatMap_escape`: every text reads back from its escaped form.
* `spells_array`, `spells_object`: lists and objects from their parts, with
  blanks where a printer may put them.
* `IsPlain`: the values that are made of texts and natural numbers.
* `read?_compact`, `read?_pretty`: both printers, for every plain value.
-/

namespace RouteScope.Json

/-! ## Strings -/

/-- Two hexadecimal digits spell any number below 256. -/
theorem hexValues?_hexDigit {n : Nat} (hn : n < 256) :
    hexValues? '0' '0' (Text.hexDigit 'a' (n / 16)) (Text.hexDigit 'a' (n % 16)) = some n := by
  have hzero : Text.hexValue? '0' = some 0 := by decide
  have hhigh := Text.hexValue?_hexDigit (Or.inl (Eq.refl 'a')) (n / 16) (by omega)
  have hlow := Text.hexValue?_hexDigit (Or.inl (Eq.refl 'a')) (n % 16) (by omega)
  rw [hexValues?, hzero, hhigh, hlow]
  simp only [Option.bind_eq_bind, Option.bind_some, Option.pure_def, Option.some.injEq]
  omega

theorem eq_ofNat_of_toNat_eq {c : Char} {n : Nat} (h : c.toNat = n) : c = Char.ofNat n := by
  rw [← h, Char.ofNat_toNat]

/-- The text is read as one unit inside of a string, and the unit stands for the
character. -/
def Shows (c : Char) (text : List Char) : Prop :=
  ∃ unit,
    (∀ rest, readUnits (text ++ rest) =
      (readUnits rest).map fun (units, behind) => (unit :: units, behind)) ∧
    ∀ units, decodeUnits? (unit :: units) = (decodeUnits? units).map (c :: ·)

theorem shows_letter {c d : Char} (hd : d ≠ 'u') (hletter : letterEscape? d = some c) :
    Shows c ['\\', d] := by
  refine ⟨.inl c, fun rest => ?_, fun units => rfl⟩
  rw [List.cons_append, List.singleton_append, readUnits, hletter]
  · cases readUnits rest <;> rfl
  · intro _ _ _ _ _ heq
    exact absurd heq hd

theorem shows_code {c : Char} (hc : c.toNat < 256) :
    Shows c ['\\', 'u', '0', '0', Text.hexDigit 'a' (c.toNat / 16),
      Text.hexDigit 'a' (c.toNat % 16)] := by
  refine ⟨.inr c.toNat, fun rest => ?_, fun units => ?_⟩
  · simp only [List.cons_append, List.nil_append]
    rw [readUnits, hexValues?_hexDigit hc]
    cases readUnits rest <;> rfl
  · rw [decodeUnits?.eq_def]
    simp only
    rw [if_pos (Or.inl (by omega)), Char.ofNat_toNat]

theorem shows_plain {c : Char} (hquote : c ≠ '"') (hslash : c ≠ '\\') (hc : ¬ c.toNat < 32) :
    Shows c [c] := by
  refine ⟨.inl c, fun rest => ?_, fun units => rfl⟩
  rw [List.singleton_append, readUnits, if_neg (by simp [hc, hslash])]
  · cases readUnits rest <;> rfl
  · exact fun h => hquote h
  · intro _ _ _ _ _ heq
    exact absurd heq hslash
  · intro _ _ heq
    exact absurd heq hslash

theorem shows_escape (c : Char) : Shows c (escape c) := by
  unfold escape
  split_ifs with hquote hslash hfeed hreturn htab hback hform hcontrol
  · exact shows_letter (by decide) (by rw [hquote]; rfl)
  · exact shows_letter (by decide) (by rw [hslash]; rfl)
  · exact shows_letter (by decide) (by rw [hfeed]; rfl)
  · exact shows_letter (by decide) (by rw [hreturn]; rfl)
  · exact shows_letter (by decide) (by rw [htab]; rfl)
  · exact shows_letter (by decide) (by rw [eq_ofNat_of_toNat_eq hback]; rfl)
  · exact shows_letter (by decide) (by rw [eq_ofNat_of_toNat_eq hform]; rfl)
  · exact shows_code (by omega)
  · exact shows_plain hquote hslash hcontrol

/-- A text is read back from its escaped characters. -/
theorem exists_units_of_flatMap_escape (chars rest : List Char) : ∃ units,
    readUnits (chars.flatMap escape ++ '"' :: rest) = some (units, rest) ∧
      decodeUnits? units = some chars := by
  induction chars with
  | nil => exact ⟨[], by rw [List.flatMap_nil, List.nil_append, readUnits], by rw [decodeUnits?]⟩
  | cons c chars ih =>
    obtain ⟨units, hread, hdecode⟩ := ih
    obtain ⟨unit, hunit, hstands⟩ := shows_escape c
    refine ⟨unit :: units, ?_, ?_⟩
    · rw [List.flatMap_cons, List.append_assoc, hunit, hread, Option.map_some]
    · rw [hstands, hdecode, Option.map_some]

theorem readString_flatMap_escape (text : String) (rest : List Char) :
    readString (text.toList.flatMap escape ++ '"' :: rest) = some (some text, rest) := by
  obtain ⟨units, hread, hdecode⟩ := exists_units_of_flatMap_escape text.toList rest
  rw [readString, hread]
  simp [hdecode]

/-! ## Blanks -/

/-- The text is passed over in front of a token. -/
def IsBlank (blank : List Char) : Prop :=
  ∀ text, skipBlanks (blank ++ text) = skipBlanks text

theorem isBlank_nil : IsBlank [] := fun _ => rfl

theorem isBlank_space : IsBlank [' '] := fun _ => by
  rw [List.singleton_append, skipBlanks, if_pos (Or.inl rfl)]

theorem IsBlank.append {front back : List Char} (hfront : IsBlank front) (hback : IsBlank back) :
    IsBlank (front ++ back) := fun text => by
  rw [List.append_assoc, hfront, hback]

theorem isBlank_replicate (count : Nat) : IsBlank (List.replicate count ' ') := by
  induction count with
  | zero => exact isBlank_nil
  | succ count ih => exact isBlank_space.append ih

theorem isBlank_newLine (level : Nat) : IsBlank (newLine level) := fun text => by
  rw [newLine, List.cons_append, skipBlanks, if_pos (by decide), isBlank_replicate]

/-- In front of a value, blanks are passed over. -/
theorem readValue_blank {blank : List Char} (hblank : IsBlank blank) (level : Nat)
    (text : List Char) : readValue level (blank ++ text) = readValue level text := by
  cases level with
  | zero => rfl
  | succ level => rw [readValue, hblank, ← readValue]

/-! ## Values -/

/-- The text behind a value: it is at its end or goes on with a comma, with the end
of what holds the value or with a line break. -/
inductive Delimits : List Char → Prop where
  | done : Delimits []
  | comma (rest : List Char) : Delimits (',' :: rest)
  | bracket (rest : List Char) : Delimits (']' :: rest)
  | brace (rest : List Char) : Delimits ('\x7d' :: rest)
  | feed (rest : List Char) : Delimits ('\n' :: rest)

/-- A text that is taken for a value whatever delimits it.  It does not begin like
the blanks in front of it or like the end of a list. -/
structure Spells (text : List Char) (value : Json) : Prop where
  begins : ∃ c tail, text = c :: tail ∧ c ∉ [' ', '\t', '\n', '\r', ']']
  readValue_append : ∀ level rest, text.length ≤ level → Delimits rest →
    readValue (level + 1) (text ++ rest) = some (value, rest)

theorem skipBlanks_cons {c : Char} (hc : c ∉ [' ', '\t', '\n', '\r', ']']) (text : List Char) :
    skipBlanks (c :: text) = c :: text := by
  rw [skipBlanks, if_neg]
  simp only [List.mem_cons, not_or] at hc
  obtain ⟨hspace, htab, hfeed, hreturn, -⟩ := hc
  simp only [hspace, htab, hfeed, hreturn, or_self, not_false_eq_true]

theorem spells_null : Spells "null".toList .null :=
  ⟨⟨'n', _, rfl, by decide⟩, fun _ _ _ _ => rfl⟩

theorem spells_true : Spells "true".toList (.bool true) :=
  ⟨⟨'t', _, rfl, by decide⟩, fun _ _ _ _ => rfl⟩

theorem spells_false : Spells "false".toList (.bool false) :=
  ⟨⟨'f', _, rfl, by decide⟩, fun _ _ _ _ => rfl⟩

theorem spells_quote (value : String) : Spells (quote value) (.text value) := by
  refine ⟨⟨'"', _, rfl, by decide⟩, fun level rest _ _ => ?_⟩
  have hread := readString_flatMap_escape value rest
  have htext : quote value ++ rest = '"' :: (value.toList.flatMap escape ++ '"' :: rest) := by
    simp [quote]
  rw [htext, readValue, skipBlanks_cons (by decide)]
  simp only [hread]
  rfl

/-! ## Natural numbers -/

theorem readDigits_append {digits : List Char} (hne : digits ≠ [])
    (hdigits : ∀ c ∈ digits, c.isDigit = true) {rest : List Char} (hrest : Delimits rest) :
    readDigits (digits ++ rest) = some (digits, rest) := by
  have hstop : rest.takeWhile Char.isDigit = [] ∧ rest.dropWhile Char.isDigit = rest := by
    cases hrest <;> exact ⟨rfl, rfl⟩
  obtain ⟨c, digits, rfl⟩ := List.exists_cons_of_ne_nil hne
  rw [readDigits, List.span_eq_takeWhile_dropWhile, List.takeWhile_append_of_pos hdigits,
    List.dropWhile_append_of_pos hdigits, hstop.1, hstop.2, List.append_nil]

theorem readUnsigned_toDigits (n : Nat) {rest : List Char} (hrest : Delimits rest) :
    readUnsigned (Nat.toDigits 10 n ++ rest) = some (Nat.toDigits 10 n, rest) := by
  obtain ⟨c, digits, hwritten, hc, htail, hzero⟩ := Text.exists_toDigits_eq_cons n
  have hwhole : readWhole (Nat.toDigits 10 n ++ rest) = some (Nat.toDigits 10 n, rest) := by
    rw [hwritten]
    by_cases hfirst : c = '0'
    · rw [hfirst, hzero hfirst]
      rfl
    · rw [List.cons_append, readWhole]
      · exact readDigits_append (List.cons_ne_nil c digits)
          (List.forall_mem_cons.2 ⟨hc, htail⟩) hrest
      · exact fun _ heq => hfirst (List.cons.inj heq).1
  have hfraction : readFraction rest = some ([], rest) := by
    cases hrest <;> rfl
  have hexponent : readExponent rest = some ([], rest) := by
    cases hrest <;> rfl
  rw [readUnsigned, hwhole]
  simp [hfraction, hexponent]

theorem ne_of_isDigit {c d : Char} (hc : c.isDigit = true) (hd : d.isDigit = false) : c ≠ d := by
  rintro rfl
  rw [hc] at hd
  cases hd

theorem not_mem_of_isDigit {c : Char} (hc : c.isDigit = true) :
    c ∉ [' ', '\t', '\n', '\r', ']'] := by
  intro hmem
  simp only [List.mem_cons, List.not_mem_nil, or_false] at hmem
  rcases hmem with rfl | rfl | rfl | rfl | rfl
  all_goals exact absurd hc (by decide)

/-- What begins with a digit is read as a number. -/
theorem readValue_eq_readNumber {c : Char} (hc : c.isDigit = true) (level : Nat)
    (text : List Char) : readValue (level + 1) (c :: text) = readNumber (c :: text) := by
  have hother {d : Char} (hd : d.isDigit = false) (tail : List Char) : c :: text ≠ d :: tail :=
    fun heq => ne_of_isDigit hc hd (List.cons.inj heq).1
  rw [readValue, skipBlanks_cons (not_mem_of_isDigit hc)]
  split
  case h_7 => rfl
  all_goals
    rename_i heq
    exact absurd heq (hother rfl _)

/-- A number is taken for itself, however long it is. -/
theorem spells_natural (n : Nat) : Spells (toString n).toList (.natural n) := by
  obtain ⟨c, digits, hwritten, hc, -⟩ := Text.exists_toDigits_eq_cons n
  have hchars : (toString n).toList = Nat.toDigits 10 n := Nat.toList_repr
  refine ⟨⟨c, digits, hchars.trans hwritten, not_mem_of_isDigit hc⟩,
    fun level rest _ hrest => ?_⟩
  have hread := readUnsigned_toDigits n hrest
  rw [hchars, hwritten, List.cons_append, readValue_eq_readNumber hc, readNumber,
    ← List.cons_append, ← hwritten, hread]
  · show some (number (String.ofList (Nat.toDigits 10 n)), rest) = some (natural n, rest)
    rw [← hchars, String.ofList_toList]
    rfl
  · exact fun _ heq => ne_of_isDigit hc rfl (List.cons.inj heq).1

/-! ## Lists -/

/-- A text that is taken for the rest of a list behind one of its items. -/
structure SpellsItems (text : List Char) (items : List Json) : Prop where
  delimits : ∀ rest, Delimits (text ++ rest)
  readItems_append : ∀ level bound rest, text.length ≤ level → text.length ≤ bound →
    readItems (readValue level) bound (text ++ rest) = some (items, rest)

theorem spellsItems_nil {blank : List Char} (hblank : IsBlank blank)
    (delimits : ∀ rest, Delimits (blank ++ ']' :: rest)) :
    SpellsItems (blank ++ [']']) [] := by
  have happend (rest : List Char) : blank ++ [']'] ++ rest = blank ++ ']' :: rest := by
    rw [List.append_assoc, List.singleton_append]
  refine ⟨fun rest => happend rest ▸ delimits rest, fun level bound rest _ hbound => ?_⟩
  cases bound with
  | zero => simp at hbound
  | succ bound =>
    rw [happend, readItems, hblank]
    rfl

theorem spellsItems_cons {blank text tail : List Char} {item : Json} {items : List Json}
    (hblank : IsBlank blank) (hitem : Spells text item) (hitems : SpellsItems tail items) :
    SpellsItems (',' :: (blank ++ text ++ tail)) (item :: items) := by
  refine ⟨fun rest => .comma _, fun level bound rest hlevel hbound => ?_⟩
  simp only [List.length_cons, List.length_append] at hlevel hbound
  obtain ⟨level, rfl⟩ := Nat.exists_eq_add_one_of_ne_zero (n := level) (by omega)
  obtain ⟨bound, rfl⟩ := Nat.exists_eq_add_one_of_ne_zero (n := bound) (by omega)
  have hvalue := hitem.readValue_append level (tail ++ rest) (by omega) (hitems.delimits rest)
  have hrest := hitems.readItems_append (level + 1) bound rest (by omega) (by omega)
  rw [List.cons_append, readItems, skipBlanks_cons (by decide)]
  simp only [List.append_assoc]
  rw [readValue_blank hblank, hvalue]
  simp [hrest]

theorem spells_emptyList : Spells ['[', ']'] (.array []) :=
  ⟨⟨'[', _, rfl, by decide⟩, fun _ _ _ _ => rfl⟩

theorem spells_array {blank text tail : List Char} {item : Json} {items : List Json}
    (hblank : IsBlank blank) (hitem : Spells text item) (hitems : SpellsItems tail items) :
    Spells ('[' :: (blank ++ text ++ tail)) (.array (item :: items)) := by
  refine ⟨⟨'[', _, rfl, by decide⟩, fun level rest hlevel _ => ?_⟩
  simp only [List.length_cons, List.length_append] at hlevel
  obtain ⟨level, rfl⟩ := Nat.exists_eq_add_one_of_ne_zero (n := level) (by omega)
  have hvalue := hitem.readValue_append level (tail ++ rest) (by omega) (hitems.delimits rest)
  have hrest := hitems.readItems_append (level + 1) (tail ++ rest).length.succ rest (by omega)
    (by rw [List.length_append]; omega)
  obtain ⟨c, front, rfl, hopens⟩ := hitem.begins
  rw [List.cons_append, readValue, skipBlanks_cons (by decide)]
  simp only [List.append_assoc, List.cons_append] at hvalue ⊢
  rw [hblank, skipBlanks_cons hopens]
  split
  case h_1 heq =>
    obtain ⟨rfl, -⟩ := List.cons.inj heq
    exact absurd hopens (by decide)
  case h_2 =>
    simp only [hvalue, Option.bind_eq_bind, Option.bind_some, hrest]
    rfl

/-! ## Objects -/

/-- A text that is taken for a key and its value. -/
structure SpellsMember (text : List Char) (member : Option String × Json) : Prop where
  begins : ∃ tail, text = '"' :: tail
  readMember_append : ∀ level rest, text.length ≤ level → Delimits rest →
    readMember (readValue level) (text ++ rest) = some (member, rest)

theorem spellsMember {blank text : List Char} {value : Json} (key : String)
    (hblank : IsBlank blank) (hvalue : Spells text value) :
    SpellsMember (quote key ++ ':' :: (blank ++ text)) (some key, value) := by
  refine ⟨⟨_, rfl⟩, fun level rest hlevel hrest => ?_⟩
  simp only [List.length_cons, List.length_append] at hlevel
  obtain ⟨level, rfl⟩ := Nat.exists_eq_add_one_of_ne_zero (n := level) (by omega)
  have hread := hvalue.readValue_append level rest (by omega) hrest
  have htext : quote key ++ ':' :: (blank ++ text) ++ rest =
      '"' :: (key.toList.flatMap escape ++ '"' :: ':' :: (blank ++ (text ++ rest))) := by
    simp [quote]
  rw [htext, readMember, skipBlanks_cons (by decide)]
  simp only [readString_flatMap_escape, Option.bind_eq_bind, Option.bind_some]
  rw [skipBlanks_cons (by decide)]
  simp only [readValue_blank hblank, hread]
  rfl

/-- A text that is taken for the rest of an object behind one of its members. -/
structure SpellsMembers (text : List Char) (members : List (Option String × Json)) : Prop where
  delimits : ∀ rest, Delimits (text ++ rest)
  readMembers_append : ∀ level bound rest, text.length ≤ level → text.length ≤ bound →
    readMembers (readValue level) bound (text ++ rest) = some (members, rest)

theorem spellsMembers_nil {blank : List Char} (hblank : IsBlank blank)
    (delimits : ∀ rest, Delimits (blank ++ '\x7d' :: rest)) :
    SpellsMembers (blank ++ ['\x7d']) [] := by
  have happend (rest : List Char) : blank ++ ['\x7d'] ++ rest = blank ++ '\x7d' :: rest := by
    rw [List.append_assoc, List.singleton_append]
  refine ⟨fun rest => happend rest ▸ delimits rest, fun level bound rest _ hbound => ?_⟩
  cases bound with
  | zero => simp at hbound
  | succ bound =>
    rw [happend, readMembers, hblank]
    rfl

theorem readMember_blank {blank : List Char} (hblank : IsBlank blank)
    (read : List Char → Option (Json × List Char)) (text : List Char) :
    readMember read (blank ++ text) = readMember read text := by
  rw [readMember, hblank, ← readMember]

theorem spellsMembers_cons {blank text tail : List Char} {member : Option String × Json}
    {members : List (Option String × Json)} (hblank : IsBlank blank)
    (hmember : SpellsMember text member) (hmembers : SpellsMembers tail members) :
    SpellsMembers (',' :: (blank ++ text ++ tail)) (member :: members) := by
  refine ⟨fun rest => .comma _, fun level bound rest hlevel hbound => ?_⟩
  simp only [List.length_cons, List.length_append] at hlevel hbound
  obtain ⟨bound, rfl⟩ := Nat.exists_eq_add_one_of_ne_zero (n := bound) (by omega)
  have hvalue := hmember.readMember_append level (tail ++ rest) (by omega)
    (hmembers.delimits rest)
  have hrest := hmembers.readMembers_append level bound rest (by omega) (by omega)
  rw [List.cons_append, readMembers, skipBlanks_cons (by decide)]
  simp only [List.append_assoc]
  rw [readMember_blank hblank, hvalue]
  simp [hrest]

theorem spells_emptyObject : Spells ['\x7b', '\x7d'] (.object []) :=
  ⟨⟨'\x7b', _, rfl, by decide⟩, fun _ _ _ _ => rfl⟩

theorem spells_object {blank text tail : List Char} {member : Option String × Json}
    {members : List (Option String × Json)} (hblank : IsBlank blank)
    (hmember : SpellsMember text member) (hmembers : SpellsMembers tail members) :
    Spells ('\x7b' :: (blank ++ text ++ tail)) (.object (member :: members)) := by
  refine ⟨⟨'\x7b', _, rfl, by decide⟩, fun level rest hlevel _ => ?_⟩
  simp only [List.length_cons, List.length_append] at hlevel
  have hvalue := hmember.readMember_append level (tail ++ rest) (by omega)
    (hmembers.delimits rest)
  have hrest := hmembers.readMembers_append level (tail ++ rest).length.succ rest (by omega)
    (by rw [List.length_append]; omega)
  obtain ⟨front, rfl⟩ := hmember.begins
  rw [List.cons_append, readValue, skipBlanks_cons (by decide)]
  simp only [List.append_assoc, List.cons_append] at hvalue ⊢
  rw [hblank, skipBlanks_cons (by decide)]
  split
  case h_1 heq => simp at heq
  case h_2 =>
    simp only [hvalue, Option.bind_eq_bind, Option.bind_some, hrest]
    rfl

/-! ## Printed values -/

/-- A value that is made of texts and natural numbers, besides `null` and truth
values. -/
inductive IsPlain : Json → Prop where
  | null : IsPlain .null
  | bool (value : Bool) : IsPlain (.bool value)
  | natural (n : Nat) : IsPlain (.natural n)
  | text (value : String) : IsPlain (.text value)
  | array {items : List Json} (plain : ∀ item ∈ items, IsPlain item) : IsPlain (.array items)
  | record {members : List (String × Json)} (plain : ∀ member ∈ members, IsPlain member.2) :
      IsPlain (.record members)

theorem spellsItems_compactItems {items : List Json}
    (h : ∀ item ∈ items, Spells (compactChars item) item) :
    SpellsItems (compactItems items) items := by
  induction items with
  | nil => exact spellsItems_nil isBlank_nil fun rest => .bracket rest
  | cons item items ih =>
    exact spellsItems_cons isBlank_nil (h item List.mem_cons_self)
      (ih fun other hother => h other (List.mem_cons_of_mem _ hother))

theorem spellsMembers_compactMembers {members : List (String × Json)}
    (h : ∀ member ∈ members, Spells (compactChars member.2) member.2) :
    SpellsMembers (compactMembers (members.map fun (key, value) => (some key, value)))
      (members.map fun (key, value) => (some key, value)) := by
  induction members with
  | nil => exact spellsMembers_nil isBlank_nil fun rest => .brace rest
  | cons member members ih =>
    obtain ⟨key, value⟩ := member
    have hmember := spellsMember key isBlank_nil (h _ List.mem_cons_self)
    have htext := spellsMembers_cons isBlank_nil hmember
      (ih fun other hother => h other (List.mem_cons_of_mem _ hother))
    simpa [compactMembers, quote?] using htext

/-- What is printed without blanks is taken for the value.  The induction is over
the parts of the value. -/
theorem spells_compactChars {value : Json} (plain : IsPlain value) :
    Spells (compactChars value) value := by
  induction plain with
  | null => exact spells_null
  | bool value =>
    cases value with
    | true => exact spells_true
    | false => exact spells_false
  | natural n => exact spells_natural n
  | text value => exact spells_quote value
  | @array items _ ih =>
    cases items with
    | nil => exact spells_emptyList
    | cons item items =>
      exact spells_array isBlank_nil (ih item List.mem_cons_self)
        (spellsItems_compactItems fun other hother => ih other (List.mem_cons_of_mem _ hother))
  | @record members _ ih =>
    cases members with
    | nil => exact spells_emptyObject
    | cons member members =>
      obtain ⟨key, value⟩ := member
      have hmember := spellsMember key isBlank_nil (ih _ List.mem_cons_self)
      have htext := spells_object isBlank_nil hmember
        (spellsMembers_compactMembers fun other hother => ih other (List.mem_cons_of_mem _ hother))
      simpa [compactChars, record, quote?] using htext

theorem spellsItems_prettyItems (level : Nat) {items : List Json}
    (h : ∀ item ∈ items, ∀ level, Spells (prettyChars level item) item) :
    SpellsItems (prettyItems level items) items := by
  induction items with
  | nil => exact spellsItems_nil (isBlank_newLine level) fun rest => .feed _
  | cons item items ih =>
    have htext := spellsItems_cons (isBlank_newLine (level + 1))
      (h item List.mem_cons_self (level + 1))
      (ih fun other hother => h other (List.mem_cons_of_mem _ hother))
    simpa [prettyItems] using htext

theorem spellsMembers_prettyMembers (level : Nat) {members : List (String × Json)}
    (h : ∀ member ∈ members, ∀ level, Spells (prettyChars level member.2) member.2) :
    SpellsMembers (prettyMembers level (members.map fun (key, value) => (some key, value)))
      (members.map fun (key, value) => (some key, value)) := by
  induction members with
  | nil => exact spellsMembers_nil (isBlank_newLine level) fun rest => .feed _
  | cons member members ih =>
    obtain ⟨key, value⟩ := member
    have hmember := spellsMember key isBlank_space (h _ List.mem_cons_self (level + 1))
    have htext := spellsMembers_cons (isBlank_newLine (level + 1)) hmember
      (ih fun other hother => h other (List.mem_cons_of_mem _ hother))
    simpa [prettyMembers, quote?] using htext

/-- What is printed with lines is taken for the value, however far in it stands. -/
theorem spells_prettyChars {value : Json} (plain : IsPlain value) (level : Nat) :
    Spells (prettyChars level value) value := by
  induction plain generalizing level with
  | null => exact spells_null
  | bool value =>
    cases value with
    | true => exact spells_true
    | false => exact spells_false
  | natural n => exact spells_natural n
  | text value => exact spells_quote value
  | @array items _ ih =>
    cases items with
    | nil => exact spells_emptyList
    | cons item items =>
      have htext := spells_array (isBlank_newLine (level + 1))
        (ih item List.mem_cons_self (level + 1))
        (spellsItems_prettyItems level fun other hother => ih other (List.mem_cons_of_mem _ hother))
      simpa [prettyChars] using htext
  | @record members _ ih =>
    cases members with
    | nil => exact spells_emptyObject
    | cons member members =>
      obtain ⟨key, value⟩ := member
      have hmember := spellsMember key isBlank_space (ih _ List.mem_cons_self (level + 1))
      have htext := spells_object (isBlank_newLine (level + 1)) hmember
        (spellsMembers_prettyMembers level fun other hother =>
          ih other (List.mem_cons_of_mem _ hother))
      simpa [prettyChars, record, quote?] using htext

/-- A text that is taken for a value and has nothing behind it is read as the
value. -/
theorem read?_of_spells {text : List Char} {value : Json} (spells : Spells text value) :
    read? (String.ofList text) = some value := by
  have hread := spells.readValue_append text.length [] (Nat.le_refl _) .done
  rw [List.append_nil] at hread
  rw [read?, String.toList_ofList, hread]
  rfl

theorem read?_compact {value : Json} (plain : IsPlain value) : read? value.compact = some value :=
  read?_of_spells (spells_compactChars plain)

theorem read?_pretty {value : Json} (plain : IsPlain value) : read? value.pretty = some value :=
  read?_of_spells (spells_prettyChars plain 0)

end RouteScope.Json
