import RouteScope.Proofs.Java.Argument
import RouteScope.Proofs.Recognition.Registry

/-!
# Operands of a concatenation

A literal such as the one in `"seda:" + name` is a part of a value only, and it is left
out of inspection.  What is looked at is the parent of the literal alone, and the
parent counts whichever operator it has.  So two kinds of literals are not treated as
the rule for concatenations would have it: an operand in parentheses, whose parent is
no operator, and an operand of an operator other than `+`, as in `"seda:" == name`.

* `IsConcatenated`: the rule, which sees through parentheses and asks for the operator.
* `isConcatenated_iff_of_isOperand`, `not_isOperand_of_isParenthesized`: the rule
  beside what is looked at.
* `inspectable_fits_concatenation_iff`: the literals for which the two agree.
-/

namespace RouteScope.Java

/-- The node is an expression in parentheses. -/
def isParentheses (node : Node) : Bool :=
  node.kind == "parenthesized_expression"

/-- The node joins its two operands by `+`. -/
def IsConcatenation (operation : Node) : Prop :=
  operation.kind = "binary_expression" ∧
    ∃ operator, operation.field? "operator" = some operator ∧ operator.kind = "+"

/-- Without the parentheses around it, the literal is an operand of `+`. -/
def IsConcatenated (literal : Node) : Prop :=
  ∃ operation, Ancestry.IsNearest Ancestry.parent? (fun above => !isParentheses above)
    literal operation ∧ IsConcatenation operation

/-- The literal stands right in parentheses. -/
def IsParenthesized (literal : Node) : Prop :=
  ∃ parent, literal.parent? = some parent ∧ isParentheses parent = true

/-- The literal is an operand of an operator other than `+`. -/
def IsOtherOperand (literal : Node) : Prop :=
  ∃ operation, literal.parent? = some operation ∧ operation.kind = "binary_expression" ∧
    ¬ IsConcatenation operation

variable {literal parent : Node}

/-- Outside of parentheses, the parent alone matters. -/
theorem isConcatenated_iff_of_parent? (hparent : literal.parent? = some parent)
    (outside : isParentheses parent = false) :
    IsConcatenated literal ↔ IsConcatenation parent := by
  have hnearest (operation : Node) :
      Ancestry.IsNearest Ancestry.parent? (fun above => !isParentheses above) literal operation ↔
        operation = parent := by
    rw [Ancestry.isNearest_iff_of_parent?_eq_some hparent, outside]
    simp
  unfold IsConcatenated
  simp only [hnearest, exists_eq_left]

/-- A parent that has an operator is no pair of parentheses. -/
theorem isParentheses_of_kind {operation : Node} (h : operation.kind = "binary_expression") :
    isParentheses operation = false := by
  rw [isParentheses, h]
  rfl

theorem not_isOperand_of_isParenthesized (h : IsParenthesized literal) : ¬ IsOperand literal := by
  rintro ⟨-, operation, hoperation, hbinary⟩
  obtain ⟨parent, hparent, hinside⟩ := h
  obtain rfl : operation = parent := Option.some.inj (hoperation.symm.trans hparent)
  rw [isParentheses_of_kind hbinary] at hinside
  exact absurd hinside Bool.false_ne_true

/-- An operand follows the rule unless its operator is another one. -/
theorem isConcatenated_iff_of_isOperand (h : IsOperand literal) :
    IsConcatenated literal ↔ ¬ IsOtherOperand literal := by
  obtain ⟨-, operation, hoperation, hbinary⟩ := h
  rw [isConcatenated_iff_of_parent? hoperation (isParentheses_of_kind hbinary)]
  constructor
  · rintro hplus ⟨other, hother, -, hnot⟩
    obtain rfl : operation = other := Option.some.inj (hoperation.symm.trans hother)
    exact hnot hplus
  · intro hother
    by_contra hnot
    exact hother ⟨operation, hoperation, hbinary, hnot⟩

/-- What is no operand and stands in no parentheses is not concatenated. -/
theorem IsConcatenated.isParenthesized (hkind : literal.kind = "string_literal")
    (h : IsConcatenated literal) (hoperand : ¬ IsOperand literal) : IsParenthesized literal := by
  cases hparent : literal.parent? with
  | none =>
    obtain ⟨operation, hnearest, -⟩ := h
    exact absurd hnearest (Ancestry.not_isNearest_of_parent?_eq_none hparent)
  | some parent =>
    refine ⟨parent, hparent, ?_⟩
    by_contra hinside
    have hplus := (isConcatenated_iff_of_parent? hparent (Bool.eq_false_iff.2 hinside)).1 h
    exact hoperand ⟨hkind, parent, hparent, hplus.1⟩

/-- A string literal is left out of inspection exactly if it stands right below an
operator with two operands.  So for all literals but two kinds it is left out exactly
if it is concatenated.  An operand of another operator is left out although it is not
concatenated, and a concatenated one in parentheses, however many, is inspected. -/
theorem inspectable_fits_concatenation_iff (enabled : Bool) (index : ClassIndex) {literal : Node}
    (h : literal.kind = "string_literal") :
    ((recognizer enabled index).answer .inspectable literal = false ↔ IsOperand literal) ∧
      (((recognizer enabled index).answer .inspectable literal = false ↔
          IsConcatenated literal) ↔
        ¬ IsOtherOperand literal ∧ ¬ (IsParenthesized literal ∧ IsConcatenated literal)) := by
  have hanswer :
      (recognizer enabled index).answer .inspectable literal = false ↔ IsOperand literal := by
    show isInspectable literal = false ↔ IsOperand literal
    rw [← Bool.not_eq_true, isInspectable_iff h, not_not]
  refine ⟨hanswer, ?_⟩
  rw [hanswer]
  by_cases hoperand : IsOperand literal
  · have hinside : ¬ IsParenthesized literal := fun hp =>
      not_isOperand_of_isParenthesized hp hoperand
    rw [isConcatenated_iff_of_isOperand hoperand]
    simp [hoperand, hinside]
  · have hother : ¬ IsOtherOperand literal := by
      rintro ⟨operation, hoperation, hbinary, -⟩
      exact hoperand ⟨h, operation, hoperation, hbinary⟩
    have hinside (hc : IsConcatenated literal) : IsParenthesized literal :=
      hc.isParenthesized h hoperand
    simp only [hoperand, false_iff, hother, not_false_eq_true, true_and, not_and]
    exact ⟨fun hc _ => hc, fun hp hc => hp (hinside hc) hc⟩

/-- The literal in `"seda:" == name`. -/
def comparedLiteral : Node where
  tree := .node ⟨"string_literal", true, "\"seda:\"", 0, 0, some "left"⟩ []
  path := [⟨⟨"binary_expression", true, "\"seda:\" == name", 0, 0, none⟩, [],
    [.node ⟨"==", false, "==", 8, 0, some "operator"⟩ [],
      .node ⟨"identifier", true, "name", 11, 0, some "right"⟩ []]⟩]

/-- A literal that is compared is left out, although nothing is concatenated. -/
theorem inspectable_fits_concatenation_iff_compared :
    comparedLiteral.kind = "string_literal" ∧
      (recognizer true (ClassIndex.ofTree comparedLiteral.root.tree)).answer .inspectable
        comparedLiteral = false ∧
      ¬ IsConcatenated comparedLiteral := by
  have hkind : comparedLiteral.kind = "string_literal" := rfl
  have hoperand : IsOperand comparedLiteral := by decide
  have hother : IsOtherOperand comparedLiteral := by
    refine ⟨_, rfl, rfl, ?_⟩
    rintro ⟨-, operator, hoperator, hplus⟩
    obtain rfl := Option.some.inj hoperator
    exact absurd hplus (by decide)
  obtain ⟨hanswer, hfits⟩ := inspectable_fits_concatenation_iff true
    (ClassIndex.ofTree comparedLiteral.root.tree) hkind
  have hout := hanswer.2 hoperand
  refine ⟨hkind, hout, fun hconcatenated => ?_⟩
  exact (hfits.1 (iff_of_true hout hconcatenated)).1 hother

/-- The literal in `("seda:") + name`. -/
def parenthesizedLiteral : Node where
  tree := .node ⟨"string_literal", true, "\"seda:\"", 1, 0, none⟩ []
  path :=
    [⟨⟨"parenthesized_expression", true, "(\"seda:\")", 0, 0, some "left"⟩,
        [.node ⟨"(", false, "(", 0, 0, none⟩ []], [.node ⟨")", false, ")", 8, 0, none⟩ []]⟩,
      ⟨⟨"binary_expression", true, "(\"seda:\") + name", 0, 0, none⟩, [],
        [.node ⟨"+", false, "+", 10, 0, some "operator"⟩ [],
          .node ⟨"identifier", true, "name", 12, 0, some "right"⟩ []]⟩]

/-- An operand in parentheses is inspected, although it is concatenated. -/
theorem inspectable_parenthesizedLiteral :
    parenthesizedLiteral.kind = "string_literal" ∧ IsConcatenated parenthesizedLiteral ∧
      (recognizer true (ClassIndex.ofTree parenthesizedLiteral.root.tree)).answer .inspectable
        parenthesizedLiteral = true := by
  have hnearest : Ancestry.IsNearest Ancestry.parent? (fun above => !isParentheses above)
      parenthesizedLiteral parenthesizedLiteral.root := by
    rw [Ancestry.isNearest_iff_of_parent?_eq_some rfl]
    refine .inr ⟨by decide, ?_⟩
    rw [Ancestry.isNearest_iff_of_parent?_eq_some rfl]
    exact .inl ⟨by decide, rfl⟩
  exact ⟨rfl, ⟨_, hnearest, rfl, _, rfl, rfl⟩, by decide⟩

end RouteScope.Java
