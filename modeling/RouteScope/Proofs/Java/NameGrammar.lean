import RouteScope.Java.Declaration
import RouteScope.Proofs.Text.Identifier

/-!
# The grammar of names and types

The source allows blanks between the identifiers and dots of a name.  In a type it
allows type arguments behind every part as well, annotations in front of every part,
and brackets at the end.  `IsWrittenName` and `IsType` are the grammar of names and
types as trees; the text of a construct is that of its parts with blanks in between.

A type is bare if nothing but names and dots is written, and plain if it is bare
except for type arguments at the end.

* `IsWrittenName.isQualified`: a name is a qualified name apart from blanks.
* `isQualified_withoutBlanks_iff`: so is the text of a type exactly if it is bare.
* `isQualified_typeName_iff`: the name that a type is known by is a qualified name
  exactly if the type is plain.
-/

namespace RouteScope.Java

open Text (Alphabet)

/-- Apart from blanks, the text of a construct is that of its parts. -/
def CoversParts (label : Label) (parts : List Tree) : Prop :=
  Text.withoutBlanks label.text =
    String.join (parts.map fun part => Text.withoutBlanks part.label.text)

/-- The kinds of types that are made up of other types. -/
def compositeKinds : List String :=
  ["scoped_type_identifier", "generic_type", "annotated_type", "array_type"]

/-- A name: an identifier, or a name with a dot and an identifier behind it. -/
inductive IsWrittenName (alphabet : Alphabet) : Tree → Prop where
  | identifier {label : Label} {children : List Tree} (kind : label.kind = "identifier")
      (word : alphabet.isIdentifier label.text = true) :
      IsWrittenName alphabet (.node label children)
  | nested {label : Label} {scope dot name : Tree} (kind : label.kind = "scoped_identifier")
      (front : IsWrittenName alphabet scope) (mark : dot.label.text = ".")
      (word : alphabet.isIdentifier name.label.text = true)
      (covers : CoversParts label [scope, dot, name]) :
      IsWrittenName alphabet (.node label [scope, dot, name])

/-- A type as it may be written behind `extends` or `implements`.  Annotations may stand in
front of it and behind a dot. -/
inductive IsType (alphabet : Alphabet) : Tree → Prop where
  | word {label : Label} {children : List Tree} (kind : label.kind ∉ compositeKinds)
      (word : alphabet.isIdentifier label.text = true) : IsType alphabet (.node label children)
  | nested {label : Label} {outer dot inner : Tree} {annotations : List Tree}
      (kind : label.kind = "scoped_type_identifier") (front : IsType alphabet outer)
      (mark : dot.label.text = ".")
      (annotated : ∀ part ∈ annotations, '@' ∈ part.label.text.toList)
      (word : alphabet.isIdentifier inner.label.text = true)
      (covers : CoversParts label (outer :: dot :: (annotations ++ [inner]))) :
      IsType alphabet (.node label (outer :: dot :: (annotations ++ [inner])))
  | generic {label : Label} {base arguments : Tree} (kind : label.kind = "generic_type")
      (named : base.label.named = true) (front : IsType alphabet base)
      (bracket : '<' ∈ arguments.label.text.toList)
      (covers : CoversParts label [base, arguments]) :
      IsType alphabet (.node label [base, arguments])
  | annotated {label : Label} {type : Tree} {annotations : List Tree}
      (kind : label.kind = "annotated_type") (nonempty : annotations ≠ [])
      (annotated : ∀ part ∈ annotations, '@' ∈ part.label.text.toList)
      (last : IsType alphabet type) (covers : CoversParts label (annotations ++ [type])) :
      IsType alphabet (.node label (annotations ++ [type]))
  | array {label : Label} {element dimensions : Tree} (kind : label.kind = "array_type")
      (front : IsType alphabet element) (bracket : '[' ∈ dimensions.label.text.toList)
      (covers : CoversParts label [element, dimensions]) :
      IsType alphabet (.node label [element, dimensions])

/-- The type is written with names and dots alone. -/
inductive IsBare : Tree → Prop where
  | word {label : Label} {children : List Tree} (kind : label.kind ∉ compositeKinds) :
      IsBare (.node label children)
  | nested {label : Label} {outer dot inner : Tree} (kind : label.kind = "scoped_type_identifier")
      (front : IsBare outer) : IsBare (.node label [outer, dot, inner])

/-- The type is written with names and dots alone, but for type arguments at the end. -/
inductive IsPlain : Tree → Prop where
  | bare {tree : Tree} (bare : IsBare tree) : IsPlain tree
  | generic {label : Label} {base arguments : Tree} (kind : label.kind = "generic_type")
      (front : IsPlain base) : IsPlain (.node label [base, arguments])

variable {alphabet : Alphabet} {tree : Tree} {label : Label}

/-! ## Names -/

/-- An identifier is its text without blanks. -/
theorem withoutBlanks_of_isIdentifier {text : String} (h : alphabet.isIdentifier text = true) :
    Text.withoutBlanks text = text :=
  Text.withoutBlanks_eq_self (Alphabet.IsQualified.of_isIdentifier h).hasNoBlank

/-- A part, a dot and an identifier. -/
theorem withoutBlanks_dotted {outer dot inner : Tree} (mark : dot.label.text = ".")
    (word : alphabet.isIdentifier inner.label.text = true)
    (covers : CoversParts label [outer, dot, inner]) :
    Text.withoutBlanks label.text =
      Text.withoutBlanks outer.label.text ++ "." ++ inner.label.text := by
  have hdot : Text.withoutBlanks "." = "." := by decide
  rw [covers]
  simp [mark, hdot, withoutBlanks_of_isIdentifier word, String.join_cons, String.append_assoc]

/-- Apart from blanks, a name is a qualified name. -/
theorem IsWrittenName.isQualified (h : IsWrittenName alphabet tree) :
    alphabet.IsQualified (Text.withoutBlanks tree.label.text) := by
  induction h with
  | identifier kind word =>
    rw [Tree.label, withoutBlanks_of_isIdentifier word]
    exact .of_isIdentifier word
  | nested kind front mark word covers ih =>
    rw [Tree.label, withoutBlanks_dotted mark word covers]
    exact ih.append (.of_isIdentifier word)

theorem IsWrittenName.isIdentifier_of_kind (h : IsWrittenName alphabet tree)
    (hkind : tree.label.kind = "identifier") : alphabet.isIdentifier tree.label.text = true := by
  cases h with
  | identifier kind word => exact word
  | nested kind front mark word covers => exact absurd (hkind.symm.trans kind) (by decide)

/-- A name without a dot is an identifier as it is written. -/
theorem IsWrittenName.isIdentifier (h : IsWrittenName alphabet tree)
    (simple : '.' ∉ tree.label.text.toList) : alphabet.isIdentifier tree.label.text = true := by
  cases h with
  | identifier kind word => exact word
  | nested kind front mark word covers =>
    refine absurd (Text.mem_withoutBlanks_iff.1 ?_).1 simple
    rw [Tree.label, withoutBlanks_dotted mark word covers]
    simp

/-! ## Types -/

/-- A construct with a mark in one of its parts is no qualified name. -/
theorem CoversParts.not_isQualified {parts : List Tree} {part : Tree} {mark : Char}
    (covers : CoversParts label parts) (hpart : part ∈ parts)
    (hmem : mark ∈ part.label.text.toList) (hmark : Text.isMark mark = true)
    (hdot : mark ≠ '.') (hblank : Text.isBlank mark = false) :
    ¬ alphabet.IsQualified (Text.withoutBlanks label.text) := by
  intro hqualified
  refine hqualified.not_mem hmark hdot ?_
  rw [covers, String.toList_join, List.mem_flatMap]
  exact ⟨_, List.mem_map_of_mem hpart, Text.mem_withoutBlanks_iff.2 ⟨hmem, hblank⟩⟩

theorem not_isBare_of_kind {children : List Tree} (composite : label.kind ∈ compositeKinds)
    (hkind : label.kind ≠ "scoped_type_identifier") : ¬ IsBare (.node label children) := by
  intro h
  cases h with
  | word kind => exact kind composite
  | nested kind _ => exact hkind kind

/-- Behind the dot of a bare type there is one name. -/
theorem isBare_nested_iff {outer dot : Tree} {children : List Tree}
    (kind : label.kind = "scoped_type_identifier") :
    IsBare (.node label (outer :: dot :: children)) ↔
      IsBare outer ∧ ∃ inner, children = [inner] := by
  constructor
  · intro h
    cases h with
    | word hno => exact absurd (by rw [kind]; decide) hno
    | nested _ front => exact ⟨front, _, rfl⟩
  · rintro ⟨front, inner, rfl⟩
    exact .nested kind front

/-- Apart from blanks, the text of a type is a qualified name exactly if it is bare. -/
theorem isQualified_withoutBlanks_iff (h : IsType alphabet tree) :
    alphabet.IsQualified (Text.withoutBlanks tree.label.text) ↔ IsBare tree := by
  induction h with
  | word kind word =>
    rw [Tree.label, withoutBlanks_of_isIdentifier word]
    exact iff_of_true (.of_isIdentifier word) (.word kind)
  | @nested label outer dot inner annotations kind front mark annotated word covers ih =>
    rw [isBare_nested_iff kind, ← ih, Tree.label]
    cases annotations with
    | nil =>
      rw [withoutBlanks_dotted mark word covers, Alphabet.isQualified_append_iff]
      simp [Alphabet.IsQualified.of_isIdentifier word]
    | cons part annotations =>
      refine iff_of_false ?_ (by simp)
      exact covers.not_isQualified (by simp) (annotated part List.mem_cons_self)
        (by decide) (by decide) (by decide)
  | generic kind named front bracket covers ih =>
    refine iff_of_false ?_ (not_isBare_of_kind (by rw [kind]; decide) (by rw [kind]; decide))
    exact covers.not_isQualified (by simp) bracket (by decide) (by decide) (by decide)
  | @annotated label type annotations kind nonempty annotated last covers ih =>
    refine iff_of_false ?_ (not_isBare_of_kind (by rw [kind]; decide) (by rw [kind]; decide))
    obtain ⟨part, hpart⟩ := List.exists_mem_of_ne_nil annotations nonempty
    exact covers.not_isQualified (List.mem_append_left _ hpart) (annotated part hpart)
      (by decide) (by decide) (by decide)
  | array kind front bracket covers ih =>
    refine iff_of_false ?_ (not_isBare_of_kind (by rw [kind]; decide) (by rw [kind]; decide))
    exact covers.not_isQualified (by simp) bracket (by decide) (by decide) (by decide)

/-- A type that is not generic is plain if it is bare. -/
theorem isPlain_iff_of_kind {children : List Tree} (hkind : label.kind ≠ "generic_type") :
    IsPlain (.node label children) ↔ IsBare (.node label children) := by
  constructor
  · intro h
    cases h with
    | bare bare => exact bare
    | generic kind _ => exact absurd kind hkind
  · exact .bare

/-- A generic type is plain if what stands in front of its arguments is. -/
theorem isPlain_generic_iff {base arguments : Tree} (kind : label.kind = "generic_type") :
    IsPlain (.node label [base, arguments]) ↔ IsPlain base := by
  have hbare : ¬ IsBare (.node label [base, arguments]) :=
    not_isBare_of_kind (by rw [kind]; decide) (by rw [kind]; decide)
  constructor
  · intro h
    cases h with
    | bare bare => exact absurd bare hbare
    | generic _ front => exact front
  · exact .generic kind

theorem typeName_of_kind {children : List Tree} (hkind : label.kind ≠ "generic_type") :
    typeName (.node label children) = Text.withoutBlanks label.text := by
  rw [typeName, if_neg (by simpa using hkind)]

theorem typeName_generic {base arguments : Tree} (kind : label.kind = "generic_type")
    (named : base.label.named = true) :
    typeName (.node label [base, arguments]) = typeName base := by
  rw [typeName, if_pos (by simpa using kind), firstTypeName, if_pos named]

/-- The name that a type is known by is a qualified name exactly if the type is plain. -/
theorem isQualified_typeName_iff (h : IsType alphabet tree) :
    alphabet.IsQualified (typeName tree) ↔ IsPlain tree := by
  have hwhole {label : Label} {children : List Tree} (h : IsType alphabet (.node label children))
      (hkind : label.kind ≠ "generic_type") :
      alphabet.IsQualified (typeName (.node label children)) ↔ IsPlain (.node label children) := by
    have hbare := isQualified_withoutBlanks_iff h
    rwa [typeName_of_kind hkind, isPlain_iff_of_kind hkind]
  induction h with
  | generic kind named front bracket covers ih =>
    rw [typeName_generic kind named, isPlain_generic_iff kind]
    exact ih
  | word kind word =>
    exact hwhole (.word kind word) fun heq => kind (by rw [heq]; decide)
  | nested kind front mark annotated word covers ih =>
    exact hwhole (.nested kind front mark annotated word covers) (by rw [kind]; decide)
  | annotated kind nonempty annotated last covers ih =>
    exact hwhole (.annotated kind nonempty annotated last covers) (by rw [kind]; decide)
  | array kind front bracket covers ih =>
    exact hwhole (.array kind front bracket covers) (by rw [kind]; decide)

end RouteScope.Java
