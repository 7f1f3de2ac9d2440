import RouteScope.Java.Literal
import RouteScope.Proofs.Text.Bytes

/-!
# Values of quoted literals

The value of a literal is cut out of its text at two byte positions, which are counted
from the two ends by the width of the quotes.  Quotes take one byte each, so in a
literal that has its quotes on both sides the cuts fall between characters, whatever
stands between them.  A literal that lacks its closing quotes may be cut within a
character.

* `IsQuoted`: a value between quotes.
* `isSome_unquote?_iff`: when a literal has a value.
* `IsQuoted.unquote?_eq`: a quoted literal has the value between its quotes.
* `IsQuoted.cutsBetweenCharacters`: its cuts fall between characters.
* `isBrokenLiteral_eq_false_iff`: the nodes that do not lack a value.
-/

namespace RouteScope.Java

/-- So many quotes in a row. -/
def quotes (width : Nat) : String :=
  String.ofList (List.replicate width '"')

/-- The value stands between quotes: three on either side, or one if the whole does
not begin with three. -/
inductive IsQuoted (value : String) : String → Prop where
  | block : IsQuoted value (quotes 3 ++ value ++ quotes 3)
  | line (plain : ¬ (quotes 3).toList <+: (quotes 1 ++ value ++ quotes 1).toList) :
      IsQuoted value (quotes 1 ++ value ++ quotes 1)

/-- The value of a literal with this text lies within it, and begins and ends between
two of its characters. -/
structure CutsBetweenCharacters (text : String) : Prop where
  opening : String.Pos.Raw.IsValid text ⟨quoteWidth text.toList⟩
  closing : String.Pos.Raw.IsValid text ⟨text.utf8ByteSize - quoteWidth text.toList⟩
  order : quoteWidth text.toList ≤ text.utf8ByteSize - quoteWidth text.toList

variable {value text : String}

@[simp] theorem toList_quotes (width : Nat) :
    (quotes width).toList = List.replicate width '"' :=
  String.toList_ofList

@[simp] theorem utf8ByteSize_quotes (width : Nat) : (quotes width).utf8ByteSize = width := by
  rw [← Text.byteLength_toList, toList_quotes]
  induction width with
  | zero => rfl
  | succ width ih =>
    rw [List.replicate_succ, Text.byteLength_cons, ih, Nat.add_comm]
    rfl

/-! ## When there is a value -/

/-- A literal that begins with three quotes is read as a text block, and any other as
one with a single quote on either side. -/
theorem quoteWidth_eq (text : List Char) :
    quoteWidth text = if (quotes 3).toList <+: text then 3 else 1 := by
  simp only [quoteWidth, toList_quotes, List.isPrefixOf_iff_prefix]
  rfl

theorem unquote?_of_long (h : 2 * quoteWidth text.toList ≤ text.utf8ByteSize) :
    unquote? text = (Text.byteRange? text.toList (quoteWidth text.toList)
      (text.utf8ByteSize - quoteWidth text.toList)).map String.ofList := by
  rw [unquote?, Text.byteLength_toList, if_neg (Nat.not_lt.2 h)]

/-- A literal has a value if it is too short for quotes on both sides, or if no cut
falls within a character. -/
theorem isSome_unquote?_iff :
    (unquote? text).isSome = true ↔
      text.utf8ByteSize < 2 * quoteWidth text.toList ∨ CutsBetweenCharacters text := by
  by_cases hshort : text.utf8ByteSize < 2 * quoteWidth text.toList
  · rw [unquote?, Text.byteLength_toList, if_pos hshort]
    exact iff_of_true rfl (.inl hshort)
  · rw [unquote?_of_long (Nat.not_lt.1 hshort), Option.isSome_map, Text.isSome_byteRange?_iff]
    constructor
    · rintro ⟨order, opening, closing⟩
      exact .inr ⟨opening, closing, order⟩
    · rintro (h | ⟨opening, closing, order⟩)
      · exact absurd h hshort
      · exact ⟨order, opening, closing⟩

/-- The closing quote is missing, so the last byte of the letter is taken for it. -/
example : unquote? "\"é" = none := by decide

/-! ## Quoted literals -/

/-- A quoted literal has quotes of the width that is told from its beginning. -/
theorem IsQuoted.eq_append (h : IsQuoted value text) :
    text = quotes (quoteWidth text.toList) ++ value ++ quotes (quoteWidth text.toList) := by
  cases h with
  | block =>
    have hprefix : (quotes 3).toList <+: (quotes 3 ++ value ++ quotes 3).toList := by
      rw [String.toList_append, String.toList_append, List.append_assoc]
      exact List.prefix_append ..
    rw [quoteWidth_eq, if_pos hprefix]
  | line plain => rw [quoteWidth_eq, if_neg plain]

/-- A quoted literal has quotes on both sides, which do not overlap. -/
theorem IsQuoted.utf8ByteSize_eq (h : IsQuoted value text) :
    text.utf8ByteSize = 2 * quoteWidth text.toList + value.utf8ByteSize := by
  have hsize := congrArg String.utf8ByteSize h.eq_append
  simp only [String.utf8ByteSize_append, utf8ByteSize_quotes] at hsize
  omega

/-- The value of a quoted literal is what stands between its quotes. -/
theorem IsQuoted.unquote?_eq (h : IsQuoted value text) : unquote? text = some value := by
  have hsize := h.utf8ByteSize_eq
  have hrange : Text.byteRange? text.toList (quoteWidth text.toList)
      (text.utf8ByteSize - quoteWidth text.toList) = some value.toList := by
    refine Text.byteRange?_eq_some_iff.2
      ⟨(quotes (quoteWidth text.toList)).toList, (quotes (quoteWidth text.toList)).toList,
        ?_, ?_, ?_⟩
    · rw [← String.toList_append, ← String.toList_append, ← h.eq_append]
    · rw [Text.byteLength_toList, utf8ByteSize_quotes]
    · rw [Text.byteLength_toList]
      omega
  rw [unquote?_of_long (by omega), hrange, Option.map_some, String.ofList_toList]

theorem IsQuoted.cutsBetweenCharacters (h : IsQuoted value text) :
    CutsBetweenCharacters text := by
  have hsize := h.utf8ByteSize_eq
  have hvalue : (unquote? text).isSome = true := by
    rw [h.unquote?_eq]
    rfl
  refine (isSome_unquote?_iff.1 hvalue).resolve_left ?_
  omega

/-! ## Literals of a tree -/

theorem literalValue?_of_kind {literal : Node} (h : literal.kind = "string_literal") :
    literalValue? literal = unquote? literal.text :=
  if_pos (beq_iff_eq.2 h)

/-- A node lacks no value if it is no string literal or has one. -/
theorem isBrokenLiteral_eq_false_iff {node : Node} :
    isBrokenLiteral node = false ↔
      (node.kind = "string_literal" → (literalValue? node).isSome = true) := by
  unfold isBrokenLiteral
  rw [Bool.and_eq_false_imp]
  constructor
  · intro h hkind
    rw [literalValue?_of_kind hkind]
    exact Option.isNone_eq_false_iff.1 (h (beq_iff_eq.2 hkind))
  · intro h hliteral
    have hkind := beq_iff_eq.1 hliteral
    rw [Option.isNone_eq_false_iff, ← literalValue?_of_kind hkind]
    exact h hkind

end RouteScope.Java
