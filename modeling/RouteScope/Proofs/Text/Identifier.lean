import RouteScope.Proofs.Text.Split
import RouteScope.Text.Blank

/-!
# Identifiers

An identifier is a letter with letters and digits behind it, and a qualified name is
made up of identifiers with dots between them.  Which characters beyond ASCII are
letters or digits is left to an `Alphabet`; all that matters here is that no blank is
one of them.  Keywords have the form of identifiers and are not told from them.

* `Alphabet.not_mem_of_isIdentifier`, `Alphabet.isBlank_eq_false_of_mem`: what an
  identifier cannot hold.
* `isQualified_append_iff`: a qualified name may be cut at any dot, and two may be
  joined by one.
* `isQualified_iff_hasNoBlank`: of the texts that are qualified names apart from
  blanks, those without blanks are qualified names.
-/

namespace RouteScope.Text

/-- The letters and digits beyond ASCII: those with which an identifier may begin, and
those with which it may go on. -/
structure Alphabet where
  begins : Char → Bool
  continues : Char → Bool
  not_blank : ∀ c, isBlank c = true → begins c = false ∧ continues c = false

/-- The alphabet without characters beyond ASCII. -/
def ascii : Alphabet where
  begins _ := false
  continues _ := false
  not_blank _ _ := ⟨rfl, rfl⟩

namespace Alphabet

/-- Whether an identifier may begin with the character. -/
def isLetter (alphabet : Alphabet) (c : Char) : Bool :=
  if c.toNat < 128 then c.isAlpha || c == '_' || c == '$' else alphabet.begins c

/-- Whether an identifier may go on with the character. -/
def isPart (alphabet : Alphabet) (c : Char) : Bool :=
  if c.toNat < 128 then c.isAlphanum || c == '_' || c == '$' else alphabet.continues c

/-- Whether the text is an identifier. -/
def isIdentifier (alphabet : Alphabet) (text : String) : Bool :=
  match text.toList with
  | [] => false
  | first :: rest => alphabet.isLetter first && rest.all alphabet.isPart

/-- The text is made up of identifiers with dots between them. -/
def IsQualified (alphabet : Alphabet) (text : String) : Prop :=
  ∃ names : List String, names ≠ [] ∧ (∀ name ∈ names, alphabet.isIdentifier name = true) ∧
    ".".intercalate names = text

end Alphabet

/-- A mark of ASCII that is no part of identifiers. -/
def isMark (c : Char) : Bool :=
  c.toNat < 128 && !(c.isAlphanum || c == '_' || c == '$')

variable {alphabet : Alphabet} {name text : String}

/-! ## The characters of an identifier -/

namespace Alphabet

/-- An identifier of ASCII is one in every alphabet. -/
theorem isIdentifier_of_ascii (h : ascii.isIdentifier name = true) :
    alphabet.isIdentifier name = true := by
  have hletter (c : Char) (hc : ascii.isLetter c = true) : alphabet.isLetter c = true := by
    unfold isLetter at hc ⊢
    split at hc
    · rwa [if_pos ‹_›]
    · exact absurd hc Bool.false_ne_true
  have hpart (c : Char) (hc : ascii.isPart c = true) : alphabet.isPart c = true := by
    unfold isPart at hc ⊢
    split at hc
    · rwa [if_pos ‹_›]
    · exact absurd hc Bool.false_ne_true
  unfold isIdentifier at h ⊢
  cases hchars : name.toList with
  | nil => simp [hchars] at h
  | cons first rest =>
    simp only [hchars, Bool.and_eq_true, List.all_eq_true] at h ⊢
    exact ⟨hletter first h.1, fun c hc => hpart c (h.2 c hc)⟩

theorem isLetter_or_isPart_of_mem {c : Char} (h : alphabet.isIdentifier name = true)
    (hc : c ∈ name.toList) : alphabet.isLetter c = true ∨ alphabet.isPart c = true := by
  unfold isIdentifier at h
  cases hchars : name.toList with
  | nil => simp [hchars] at h
  | cons first rest =>
    simp only [hchars, Bool.and_eq_true, List.all_eq_true] at h
    rw [hchars, List.mem_cons] at hc
    rcases hc with rfl | hc
    · exact .inl h.1
    · exact .inr (h.2 c hc)

theorem not_mem_of_isIdentifier {mark : Char} (h : alphabet.isIdentifier name = true)
    (hmark : isMark mark = true) : mark ∉ name.toList := by
  intro hmem
  obtain ⟨hascii, hno⟩ := Bool.and_eq_true_iff.1 hmark
  have hcases := isLetter_or_isPart_of_mem h hmem
  rw [isLetter, isPart, if_pos (of_decide_eq_true hascii), if_pos (of_decide_eq_true hascii)]
    at hcases
  simp only [Char.isAlphanum, Bool.not_eq_true', Bool.or_eq_false_iff] at hno
  simp [Char.isAlphanum, hno] at hcases

/-- Blanks of ASCII are marks, and the others are no letters by definition. -/
theorem isBlank_eq_false_of_mem {c : Char} (h : alphabet.isIdentifier name = true)
    (hc : c ∈ name.toList) : isBlank c = false := by
  by_contra hblank
  rw [Bool.not_eq_false] at hblank
  by_cases hascii : c.toNat < 128
  · have hmark : isMark c = true := by
      have hmarks : ∀ n < 128, isBlank (Char.ofNat n) = true → isMark (Char.ofNat n) = true := by
        decide
      have hc' := hmarks c.toNat hascii
      rw [Char.ofNat_toNat] at hc'
      exact hc' hblank
    exact not_mem_of_isIdentifier h hmark hc
  · have hcases := isLetter_or_isPart_of_mem h hc
    rw [isLetter, isPart, if_neg hascii, if_neg hascii] at hcases
    obtain ⟨hbegins, hcontinues⟩ := alphabet.not_blank c hblank
    simp [hbegins, hcontinues] at hcases

/-! ## Qualified names -/

theorem IsQualified.of_isIdentifier (h : alphabet.isIdentifier name = true) :
    alphabet.IsQualified name :=
  ⟨[name], List.cons_ne_nil _ _, by simpa using h, String.intercalate_singleton⟩

theorem IsQualified.append {front back : String} (h : alphabet.IsQualified front)
    (h' : alphabet.IsQualified back) : alphabet.IsQualified (front ++ "." ++ back) := by
  obtain ⟨names, hne, hnames, rfl⟩ := h
  obtain ⟨others, hne', hothers, rfl⟩ := h'
  refine ⟨names ++ others, by simp [hne], fun name hname => ?_, ?_⟩
  · exact (List.mem_append.1 hname).elim (hnames name) (hothers name)
  · exact String.intercalate_append_of_ne_nil hne hne'

/-- Identifiers that are joined by dots are cut at a dot between two of them. -/
theorem exists_of_intercalate_eq_append {names : List String} {front back : String}
    (simple : ∀ name ∈ names, '.' ∉ name.toList)
    (h : ".".intercalate names = front ++ "." ++ back) :
    ∃ outer inner, names = outer ++ inner ∧ outer ≠ [] ∧ inner ≠ [] ∧
      ".".intercalate outer = front ∧ ".".intercalate inner = back := by
  induction names generalizing front with
  | nil => simp at h
  | cons name names ih =>
    have hname := simple name List.mem_cons_self
    have hdot : '.' ∈ (front ++ "." ++ back).toList := by simp
    have hne : names ≠ [] := by
      rintro rfl
      rw [← h, String.intercalate_singleton] at hdot
      exact hname hdot
    have hcut := splitFirst?_intercalate_cons hname hne
    by_cases hfront : '.' ∈ front.toList
    · obtain ⟨first, rest, rfl, hfirst⟩ := exists_eq_append_of_mem hfront
      have hassoc :
          first ++ "." ++ rest ++ "." ++ back = first ++ "." ++ (rest ++ "." ++ back) := by
        simp only [String.append_assoc]
      have hcut' : splitFirst? '.' (first ++ "." ++ rest ++ "." ++ back) =
          some (first, rest ++ "." ++ back) := by
        rw [hassoc]
        exact splitFirst?_append _ hfirst
      obtain ⟨rfl, hrest⟩ := Prod.mk.inj (Option.some.inj (hcut.symm.trans (h ▸ hcut')))
      obtain ⟨outer, inner, rfl, houter, hinner, rfl, rfl⟩ :=
        ih (fun name hname => simple name (List.mem_cons_of_mem _ hname)) hrest
      refine ⟨name :: outer, inner, rfl, List.cons_ne_nil _ _, hinner, ?_, rfl⟩
      exact String.intercalate_cons_of_ne_nil houter
    · have hcut' : splitFirst? '.' (front ++ "." ++ back) = some (front, back) :=
        splitFirst?_append _ hfront
      obtain ⟨rfl, rfl⟩ := Prod.mk.inj (Option.some.inj (hcut.symm.trans (h ▸ hcut')))
      exact ⟨[name], names, rfl, List.cons_ne_nil _ _, hne, String.intercalate_singleton, rfl⟩

/-- A text around a dot is a qualified name exactly if both parts are. -/
theorem isQualified_append_iff {front back : String} :
    alphabet.IsQualified (front ++ "." ++ back) ↔
      alphabet.IsQualified front ∧ alphabet.IsQualified back := by
  constructor
  · rintro ⟨names, -, hnames, heq⟩
    obtain ⟨outer, inner, rfl, houter, hinner, rfl, rfl⟩ := exists_of_intercalate_eq_append
      (fun name hname => not_mem_of_isIdentifier (hnames name hname) (by decide)) heq
    exact ⟨⟨outer, houter, fun name hname => hnames name (List.mem_append_left _ hname), rfl⟩,
      ⟨inner, hinner, fun name hname => hnames name (List.mem_append_right _ hname), rfl⟩⟩
  · exact fun h => h.1.append h.2

/-- Without a dot there is one identifier. -/
theorem IsQualified.isIdentifier (h : alphabet.IsQualified text) (simple : '.' ∉ text.toList) :
    alphabet.isIdentifier text = true := by
  obtain ⟨names, hne, hnames, rfl⟩ := h
  obtain ⟨name, names, rfl⟩ := List.exists_cons_of_ne_nil hne
  by_cases hlast : names = []
  · rw [hlast, String.intercalate_singleton]
    exact hnames name List.mem_cons_self
  · rw [String.intercalate_cons_of_ne_nil hlast] at simple
    simp at simple

/-- The last part of a qualified name is an identifier. -/
theorem IsQualified.afterLast (h : alphabet.IsQualified text) :
    alphabet.isIdentifier (afterLast '.' text) = true := by
  obtain ⟨names, hne, hnames, rfl⟩ := h
  have hlast := hnames _ (List.getLast_mem hne)
  rw [← List.dropLast_concat_getLast hne,
    afterLast_intercalate_concat _ (not_mem_of_isIdentifier hlast (by decide))]
  exact hlast

theorem exists_of_mem_intercalate {c : Char} {names : List String}
    (hc : c ∈ (".".intercalate names).toList) : c = '.' ∨ ∃ name ∈ names, c ∈ name.toList := by
  induction names with
  | nil => simp at hc
  | cons name names ih =>
    by_cases hlast : names = []
    · rw [hlast, String.intercalate_singleton] at hc
      exact .inr ⟨name, List.mem_cons_self, hc⟩
    · rw [String.intercalate_cons_of_ne_nil hlast, String.toList_append, String.toList_append,
        List.mem_append, List.mem_append] at hc
      rcases hc with (hc | hc) | hc
      · exact .inr ⟨name, List.mem_cons_self, hc⟩
      · exact .inl (by simpa using hc)
      · exact (ih hc).imp_right fun ⟨other, hother, hmem⟩ =>
          ⟨other, List.mem_cons_of_mem _ hother, hmem⟩

/-- A qualified name holds no other mark than dots. -/
theorem IsQualified.not_mem {mark : Char} (h : alphabet.IsQualified text)
    (hmark : isMark mark = true) (hdot : mark ≠ '.') : mark ∉ text.toList := by
  obtain ⟨names, -, hnames, rfl⟩ := h
  intro hmem
  obtain rfl | ⟨name, hname, hmem⟩ := exists_of_mem_intercalate hmem
  · exact hdot rfl
  · exact not_mem_of_isIdentifier (hnames name hname) hmark hmem

theorem IsQualified.isBlank_eq_false {c : Char} (h : alphabet.IsQualified text)
    (hc : c ∈ text.toList) : isBlank c = false := by
  obtain ⟨names, -, hnames, rfl⟩ := h
  obtain rfl | ⟨name, hname, hmem⟩ := exists_of_mem_intercalate hc
  · decide
  · exact isBlank_eq_false_of_mem (hnames name hname) hmem

end Alphabet

/-! ## Blanks -/

theorem mem_withoutBlanks_iff {c : Char} :
    c ∈ (withoutBlanks text).toList ↔ c ∈ text.toList ∧ isBlank c = false := by
  rw [withoutBlanks, String.toList_ofList, List.mem_filter, Bool.not_eq_true']

/-- There is no blank in the text. -/
def HasNoBlank (text : String) : Prop :=
  ∀ c ∈ text.toList, isBlank c = false

theorem withoutBlanks_eq_self (h : HasNoBlank text) : withoutBlanks text = text := by
  rw [withoutBlanks, List.filter_eq_self.2 fun c hc => by simp [h c hc], String.ofList_toList]

theorem Alphabet.IsQualified.hasNoBlank (h : alphabet.IsQualified text) : HasNoBlank text :=
  fun _ hc => h.isBlank_eq_false hc

/-- Of the texts that are qualified names apart from blanks, those without blanks are
qualified names. -/
theorem isQualified_iff_hasNoBlank (h : alphabet.IsQualified (withoutBlanks text)) :
    alphabet.IsQualified text ↔ HasNoBlank text :=
  ⟨fun hqualified => hqualified.hasNoBlank, fun hno => withoutBlanks_eq_self hno ▸ h⟩

end RouteScope.Text
