import RouteScope.Proofs.Java.Literal
import RouteScope.Proofs.Tree.Flat
import RouteScope.Report.Scan

/-!
# Scanning quoted literals

A scan asks string literals for their values, and there is no report if one of them
has none.  Where every string literal of a file has its quotes on both sides, all of
them have values, so there is a report whatever the settings are and whichever
literals the scan asks.

* `HasQuotedLiterals`: all literals of a tree are quoted.
* `HasQuotedLiterals.of_ofFlat?`: the same of a source and its flat tree.
* `ofTree?_eq_some`: a report where no literal lacks a value.
* `quoted_literals_are_read`: one literal, and a whole scan.
-/

namespace RouteScope.Report

open Java

/-- Every string literal of the tree has its quotes on both sides. -/
def HasQuotedLiterals (tree : Tree) : Prop :=
  ∀ literal ∈ tree.nodes, literal.kind = "string_literal" →
    ∃ value, IsQuoted value literal.text

variable {tree : Tree}

/-- Where the ranges of all literals are quoted in the source, those of the tree are. -/
theorem HasQuotedLiterals.of_ofFlat? {source : String} {flat : List FlatNode}
    (h : Tree.ofFlat? source flat = some tree)
    (quoted : ∀ node ∈ flat, node.kind = "string_literal" →
      ∃ value text, IsQuoted value text ∧ node.Covers source text) :
    HasQuotedLiterals tree := by
  intro literal hliteral hkind
  obtain ⟨origin, horigin, hlabel⟩ := Tree.exists_mem_of_mem_nodes h hliteral
  have hkind' : origin.kind = "string_literal" := by
    rw [← hkind, Node.kind, ← hlabel]
    rfl
  obtain ⟨value, text, hvalue, hcovers⟩ := quoted origin horigin hkind'
  refine ⟨value, ?_⟩
  rwa [Node.text, ← hlabel, hcovers.text_label]

/-- No literal of such a tree lacks a value. -/
theorem HasQuotedLiterals.isBrokenLiteral_eq_false (quoted : HasQuotedLiterals tree)
    {node : Node} (hnode : node ∈ tree.nodes) : isBrokenLiteral node = false := by
  rw [isBrokenLiteral_eq_false_iff]
  intro hkind
  obtain ⟨value, hvalue⟩ := quoted node hnode hkind
  rw [literalValue?_of_kind hkind, hvalue.unquote?_eq]
  rfl

/-- There is a report if no literal lacks a value. -/
theorem ofTree?_eq_some (settings : Settings) (file : String)
    (h : ∀ node ∈ tree.nodes, isBrokenLiteral node = false) :
    ofTree? settings file tree = some (ofTree settings file tree) := by
  have hreadable : isReadable settings tree = true := by
    rw [isReadable, List.all_eq_true]
    intro node hnode
    rw [h node hnode]
    rfl
  rw [ofTree?, if_pos hreadable]

/-- A string literal has as its value what stands between its quotes, and the value is
cut out of it between characters.  In general a literal lacks a value exactly if it is
long enough for quotes on both sides and one of the cuts does not fall between
characters.  So a tree whose string literals are all quoted has none that lacks a value,
and there is a report on it; the literals of a tree over a source are quoted if the
source has quotes at both ends of their ranges. -/
theorem quoted_literals_are_read (settings : Settings) (file : String) :
    (∀ (literal : Node) (value : String), literal.kind = "string_literal" →
      IsQuoted value literal.text →
        literalValue? literal = some value ∧ CutsBetweenCharacters literal.text) ∧
    (∀ literal : Node, literal.kind = "string_literal" →
      (literalValue? literal = none ↔
        2 * quoteWidth literal.text.toList ≤ literal.text.utf8ByteSize ∧
          ¬ CutsBetweenCharacters literal.text)) ∧
    (∀ tree, HasQuotedLiterals tree →
      (∀ node ∈ tree.nodes, isBrokenLiteral node = false) ∧
        ofTree? settings file tree = some (ofTree settings file tree)) ∧
    (∀ source flat tree, Tree.ofFlat? source flat = some tree →
      (∀ node ∈ flat, node.kind = "string_literal" →
        ∃ value text, IsQuoted value text ∧ node.Covers source text) →
      ofTree? settings file tree = some (ofTree settings file tree)) := by
  have hscan (tree : Tree) (quoted : HasQuotedLiterals tree) :
      (∀ node ∈ tree.nodes, isBrokenLiteral node = false) ∧
        ofTree? settings file tree = some (ofTree settings file tree) := by
    have hvalues : ∀ node ∈ tree.nodes, isBrokenLiteral node = false :=
      fun _ hnode => quoted.isBrokenLiteral_eq_false hnode
    exact ⟨hvalues, ofTree?_eq_some settings file hvalues⟩
  refine ⟨?_, ?_, hscan, ?_⟩
  · intro literal value hkind hquoted
    rw [literalValue?_of_kind hkind]
    exact ⟨hquoted.unquote?_eq, hquoted.cutsBetweenCharacters⟩
  · intro literal hkind
    rw [literalValue?_of_kind hkind, ← Option.not_isSome_iff_eq_none, isSome_unquote?_iff,
      not_or, Nat.not_lt]
  · intro source flat tree htree quoted
    exact (hscan tree (.of_ofFlat? htree quoted)).2

/-- A call that takes a plain literal, a text block and an empty literal. -/
def accentedSource : String :=
  "to(\"é\",\"\"\"ñ\"\"\",\"\")"

/-- The flat tree over the call. -/
def accentedNodes : List FlatNode :=
  [⟨none, "method_invocation", true, 0, 20, 0, none⟩,
    ⟨some 0, "identifier", true, 0, 2, 0, some "name"⟩,
    ⟨some 0, "argument_list", true, 2, 20, 0, some "arguments"⟩,
    ⟨some 2, "string_literal", true, 3, 7, 0, none⟩,
    ⟨some 2, "string_literal", true, 8, 16, 0, none⟩,
    ⟨some 2, "string_literal", true, 17, 19, 0, none⟩]

/-- The tree that is put together from it. -/
def accentedCall : Tree :=
  .node ⟨"method_invocation", true, "to(\"é\",\"\"\"ñ\"\"\",\"\")", 0, 0, none⟩
    [.node ⟨"identifier", true, "to", 0, 0, some "name"⟩ [],
      .node ⟨"argument_list", true, "(\"é\",\"\"\"ñ\"\"\",\"\")", 2, 0, some "arguments"⟩
        [.node ⟨"string_literal", true, "\"é\"", 3, 0, none⟩ [],
          .node ⟨"string_literal", true, "\"\"\"ñ\"\"\"", 8, 0, none⟩ [],
          .node ⟨"string_literal", true, "\"\"", 17, 0, none⟩ []]]

/-- The text block in the call. -/
def accentedBlock : Node :=
  (Tree.node ⟨"string_literal", true, "\"\"\"ñ\"\"\"", 8, 0, none⟩ []).root

theorem quoted_accentedNodes : ∀ node ∈ accentedNodes, node.kind = "string_literal" →
    ∃ value text, IsQuoted value text ∧ node.Covers accentedSource text := by
  intro node hnode hkind
  simp only [accentedNodes, List.mem_cons, List.not_mem_nil, or_false] at hnode
  rcases hnode with rfl | rfl | rfl | rfl | rfl | rfl
  case inl | inr.inl | inr.inr.inl => exact absurd hkind (by decide)
  case inr.inr.inr.inl =>
    exact ⟨"é", _, .line (by decide), "to(", ",\"\"\"ñ\"\"\",\"\")", by decide⟩
  case inr.inr.inr.inr.inl =>
    exact ⟨"ñ", _, .block, "to(\"é\",", ",\"\")", by decide⟩
  case inr.inr.inr.inr.inr =>
    exact ⟨"", _, .line (by decide), "to(\"é\",\"\"\"ñ\"\"\",", ")", by decide⟩

/-- There is a report on a call whose literals have letters of two bytes right beside
their quotes, or nothing between them. -/
theorem quoted_literals_are_read_accented :
    accentedBlock.kind = "string_literal" ∧ IsQuoted "ñ" accentedBlock.text ∧
      literalValue? accentedBlock = some "ñ" ∧ CutsBetweenCharacters accentedBlock.text ∧
      HasQuotedLiterals accentedCall ∧
      (∀ node ∈ accentedCall.nodes, isBrokenLiteral node = false) ∧
      Tree.ofFlat? accentedSource accentedNodes = some accentedCall ∧
      (∀ node ∈ accentedNodes, node.kind = "string_literal" →
        ∃ value text, IsQuoted value text ∧ node.Covers accentedSource text) ∧
      ofTree? {} "Routes.java" accentedCall = some (ofTree {} "Routes.java" accentedCall) := by
  have hblock : IsQuoted "ñ" accentedBlock.text := .block
  have hput : Tree.ofFlat? accentedSource accentedNodes = some accentedCall := rfl
  have hquoted : HasQuotedLiterals accentedCall := .of_ofFlat? hput quoted_accentedNodes
  obtain ⟨hliteral, -, hscan, hsource⟩ := quoted_literals_are_read {} "Routes.java"
  obtain ⟨hvalue, hcuts⟩ := hliteral accentedBlock "ñ" rfl hblock
  exact ⟨rfl, hblock, hvalue, hcuts, hquoted, (hscan _ hquoted).1, hput, quoted_accentedNodes,
    hsource _ _ _ hput quoted_accentedNodes⟩

end RouteScope.Report
