import RouteScope.Proofs.Java.LanguageCall
import RouteScope.Proofs.Language
import RouteScope.Proofs.Report.Entries
import RouteScope.Proofs.Tree.Preorder

/-!
# Expressions of a report

The expressions of a report are the string literals whose calls tell a known
language.  A scan takes the first known language that fits and shows its
canonical name.  Since a literal is an expression in one language at most, all
that fit have the same canonical name, so it does not matter which one is the
first, or under which of its names a language is known.

* `ShowsExpression`: what an entry says about its literal.
* `expressionAt?_eq_some_iff`: one literal.
* `ofTree?_of_sameLanguages`: other lists of the same languages.
* `expressions_match_literals`: a whole report.
-/

namespace RouteScope.Report

open Java

/-- The string literal is an expression in a known language. -/
def IsKnownExpression (known : List String) (literal : Node) : Prop :=
  ∃ call language, IsExpressionIn literal call language ∧
    language ∈ known.map Language.canonical

/-- What an entry says about a literal apart from its language, which the call
tells. -/
structure ShowsExpression (literal call : Node) (entry : ExpressionUse) : Prop where
  line : entry.line = literal.line
  text : literalValue? literal = some entry.text
  predicate : entry.predicate = true ↔ IsPredicate call

theorem isKnownExpression_iff {known : List String} {literal : Node} :
    IsKnownExpression known literal ↔ literal.kind = "string_literal" ∧
      (known.any fun language => (languageCall? language literal).isSome) = true := by
  unfold IsKnownExpression
  simp only [List.any_eq_true, Option.isSome_iff_exists, List.mem_map]
  constructor
  · rintro ⟨call, _, h, language, hknown, rfl⟩
    exact ⟨h.kind, language, hknown, call, (languageCall?_eq_some_iff h.kind).2 h⟩
  · rintro ⟨hkind, language, hknown, call, hcall⟩
    exact ⟨call, _, (languageCall?_eq_some_iff hkind).1 hcall, language, hknown, rfl⟩

instance (known : List String) : DecidablePred (IsKnownExpression known) := fun _ =>
  decidable_of_iff _ isKnownExpression_iff.symm

variable {settings : Settings} {index : ClassIndex} {literal : Node}

/-! ## One literal -/

/-- An entry of a literal tells its language, and there is one if the language is
known.  The language `language` is left out, since a call of the method
`language` would tell two languages with it. -/
theorem expressionAt?_eq_some_iff (java : settings.recognizers.java = true)
    (plain : ∀ language ∈ settings.languages.known, Language.canonical language ≠ "language")
    {entry : ExpressionUse} :
    expressionAt? (javaRegistry settings index) settings literal = some entry ↔
      ∃ call, IsExpressionIn literal call entry.language ∧
        entry.language ∈ settings.languages.known.map Language.canonical ∧
        ShowsExpression literal call entry := by
  constructor
  · intro h
    obtain ⟨text, htext, hrest⟩ := Option.bind_eq_some_iff.1 h
    obtain ⟨language, hfind, hentry⟩ := Option.bind_eq_some_iff.1 hrest
    have hvalue := ((readAt?_eq_some_iff java).1 htext).2
    have hkind := kind_of_literalValue?_eq_some hvalue
    have hfits := List.find?_some hfind
    rw [value_matchesAny_javaRegistry java] at hfits
    obtain ⟨call, hcall⟩ := Option.isSome_iff_exists.1 hfits
    obtain rfl := Option.some.inj hentry
    refine ⟨call, (languageCall?_eq_some_iff hkind).1 hcall,
      List.mem_map_of_mem (List.mem_of_find?_eq_some hfind), rfl, hvalue, ?_⟩
    show ((javaRegistry settings index).matchesAny (.predicate language) literal).value = true ↔ _
    rw [value_matchesAny_javaRegistry java]
    show (languageCall? language literal).any isPredicateCall = true ↔ _
    rw [hcall, Option.any_some]
    exact isPredicateCall_iff
  · rintro ⟨call, hexpression, hknown, hshows⟩
    have hfits : ∀ language, ((javaRegistry settings index).matchesAny (.expression language)
        literal).value = (languageCall? language literal).isSome := fun language =>
      value_matchesAny_javaRegistry java (.expression language) literal
    obtain ⟨language, hlanguage, hcanonical⟩ := List.mem_map.1 hknown
    have hcall : languageCall? language literal = some call := by
      rw [languageCall?_eq_some_iff hexpression.kind, hcanonical]
      exact hexpression
    have hexists : ∃ first, (settings.languages.known.find? fun language =>
        ((javaRegistry settings index).matchesAny (.expression language) literal).value) =
          some first := by
      rw [← Option.isSome_iff_exists, List.find?_isSome]
      refine ⟨language, hlanguage, ?_⟩
      rw [hfits, hcall]
      rfl
    obtain ⟨first, hfirst⟩ := hexists
    have hmem := List.mem_of_find?_eq_some hfirst
    have hfirstFits := List.find?_some hfirst
    rw [hfits] at hfirstFits
    obtain ⟨other, hother⟩ := Option.isSome_iff_exists.1 hfirstFits
    obtain ⟨rfl, hname⟩ := ((languageCall?_eq_some_iff hexpression.kind).1 hother).unique
      hexpression (plain first hmem) (hcanonical ▸ plain language hlanguage)
    have hread : readAt? (javaRegistry settings index) literal = some entry.text :=
      (readAt?_eq_some_iff java).2 ⟨hexpression.argument.not_isOperand, hshows.text⟩
    have hpredicate : ((javaRegistry settings index).matchesAny (.predicate first)
        literal).value = entry.predicate := by
      rw [value_matchesAny_javaRegistry java, Bool.eq_iff_iff, hshows.predicate,
        ← isPredicateCall_iff]
      show (languageCall? first literal).any isPredicateCall = true ↔ _
      rw [hother, Option.any_some]
    refine Option.bind_eq_some_iff.2 ⟨entry.text, hread, ?_⟩
    refine Option.bind_eq_some_iff.2 ⟨first, hfirst, ?_⟩
    rw [hname, hpredicate, ← hshows.line]
    rfl

theorem ne_language_of_mem
    (plain : ∀ language ∈ settings.languages.known, Language.canonical language ≠ "language")
    {language : String} (h : language ∈ settings.languages.known.map Language.canonical) :
    language ≠ "language" := by
  obtain ⟨known, hknown, rfl⟩ := List.mem_map.1 h
  exact plain known hknown

/-- The literals with an entry are the expressions in known languages. -/
theorem isKnownExpression_iff_isSome (java : settings.recognizers.java = true)
    (plain : ∀ language ∈ settings.languages.known, Language.canonical language ≠ "language")
    (hvalue : IsKnownExpression settings.languages.known literal →
      (literalValue? literal).isSome = true) :
    IsKnownExpression settings.languages.known literal ↔
      (expressionAt? (javaRegistry settings index) settings literal).isSome = true := by
  rw [Option.isSome_iff_exists]
  constructor
  · intro h
    obtain ⟨text, htext⟩ := Option.isSome_iff_exists.1 (hvalue h)
    obtain ⟨call, language, hexpression, hknown⟩ := h
    exact ⟨⟨literal.line, language, text, isPredicateCall call⟩,
      (expressionAt?_eq_some_iff java plain).2
        ⟨call, hexpression, hknown, rfl, htext, isPredicateCall_iff⟩⟩
  · intro h
    obtain ⟨entry, hentry⟩ := h
    obtain ⟨call, hexpression, hknown, -⟩ := (expressionAt?_eq_some_iff java plain).1 hentry
    exact ⟨call, entry.language, hexpression, hknown⟩

/-! ## Other lists of the same languages -/

variable {other : Settings}

/-- The entry of a literal does not change if the same languages are known under
other names, in another order or more than once. -/
theorem expressionAt?_congr (java : settings.recognizers.java = true)
    (otherJava : other.recognizers.java = true)
    (plain : ∀ language ∈ settings.languages.known, Language.canonical language ≠ "language")
    (same : ∀ language, language ∈ other.languages.known.map Language.canonical ↔
      language ∈ settings.languages.known.map Language.canonical) :
    expressionAt? (javaRegistry other index) other literal =
      expressionAt? (javaRegistry settings index) settings literal := by
  have otherPlain : ∀ language ∈ other.languages.known,
      Language.canonical language ≠ "language" := by
    intro language hmem
    exact ne_language_of_mem plain ((same _).1 (List.mem_map_of_mem hmem))
  refine Option.ext fun entry => ?_
  rw [expressionAt?_eq_some_iff java plain, expressionAt?_eq_some_iff otherJava otherPlain]
  apply exists_congr
  intro call
  rw [same]

/-- The report depends on the list of known languages only through the canonical names
in it. -/
theorem ofTree?_of_sameLanguages (java : settings.recognizers.java = true)
    (plain : ∀ language ∈ settings.languages.known, Language.canonical language ≠ "language")
    {known : List String}
    (same : ∀ language, language ∈ known.map Language.canonical ↔
      language ∈ settings.languages.known.map Language.canonical) (file : String) (tree : Tree) :
    ofTree? { settings with languages := { known } } file tree = ofTree? settings file tree := by
  have otherJava : ({ settings with languages := { known } } : Settings).recognizers.java =
      true := java
  have hentries : tree.nodes.filterMap (expressionAt?
      (javaRegistry settings (ClassIndex.ofTree tree))
        { settings with languages := { known } }) = (ofTree settings file tree).expressions :=
    List.filterMap_congr fun node _ => expressionAt?_congr java otherJava plain same
  have hreport : ofTree { settings with languages := { known } } file tree =
      ofTree settings file tree :=
    congrArg (fun expressions => { ofTree settings file tree with expressions }) hentries
  unfold ofTree?
  rw [hreport]
  rfl

/-! ## A whole report -/

/-- With the recognizer for Java, there is a report on a file if every string
literal in it that is no operand has a value.  Its expressions match, in document
order, the literals whose calls tell a known language, and each entry shows that
language, which is the only known one that the call tells.  The report depends
on the list of known languages only through the canonical names in it.  So it stays
the same if the list is put in another order, if entries are repeated, and if one of
them gives way to another name of its language.  What names a language has is told by
`StandsFor`, and its canonical name is one of them.  This holds as long as no known
language has the canonical name `language`. -/
theorem expressions_match_literals (settings : Settings)
    (java : settings.recognizers.java = true)
    (plain : ∀ language ∈ settings.languages.known, Language.canonical language ≠ "language")
    (file : String) (tree : Tree) :
    ((ofTree? settings file tree).isSome = true ↔
      ∀ literal ∈ tree.nodes, literal.kind = "string_literal" → ¬ IsOperand literal →
        (literalValue? literal).isSome = true) ∧
    (∀ report, ofTree? settings file tree = some report →
      List.Forall₂
        (fun literal entry => ∃ call, ShowsExpression literal call entry ∧
          ∀ language, IsExpressionIn literal call language ∧
            language ∈ settings.languages.known.map Language.canonical ↔
              language = entry.language)
        (tree.nodes.filter fun node => IsKnownExpression settings.languages.known node)
        report.expressions) ∧
    (∀ known : List String,
      (∀ language, language ∈ known.map Language.canonical ↔
        language ∈ settings.languages.known.map Language.canonical) →
      ofTree? { settings with languages := { known } } file tree = ofTree? settings file tree) ∧
    (∀ known : List String,
      (∀ language, language ∈ known ↔ language ∈ settings.languages.known) →
      ofTree? { settings with languages := { known } } file tree = ofTree? settings file tree) ∧
    (∀ before language after other stands,
      settings.languages.known = before ++ language :: after →
      Language.StandsFor language stands → Language.StandsFor other stands →
      ofTree? { settings with languages := { known := before ++ other :: after } } file tree =
        ofTree? settings file tree) ∧
    (∀ name language, Language.canonical name = language ↔ Language.StandsFor name language) ∧
    ∀ name, Language.canonical (Language.canonical name) = Language.canonical name := by
  refine ⟨isSome_ofTree?_iff java, ?matching, ?languages, ?sameNames, ?otherName,
    fun name language => Language.canonical_eq_iff, Language.canonical_canonical⟩
  case matching =>
    intro report hreport
    have hvalues := (isSome_ofTree?_iff java).1 (Option.isSome_iff_exists.2 ⟨report, hreport⟩)
    obtain rfl := eq_ofTree_of_ofTree? hreport
    apply forall₂_filterMap
    · intro literal hmem
      apply isKnownExpression_iff_isSome java plain
      rintro ⟨call, language, hexpression, -⟩
      exact hvalues literal hmem hexpression.kind hexpression.argument.not_isOperand
    · intro literal entry hentry
      obtain ⟨call, hexpression, hknown, hshows⟩ :=
        (expressionAt?_eq_some_iff java plain).1 hentry
      refine ⟨call, hshows, fun language => ⟨fun h => ?_, ?_⟩⟩
      · have hne := ne_language_of_mem plain h.2
        exact (h.1.unique hexpression hne (ne_language_of_mem plain hknown)).2
      · rintro rfl
        exact ⟨hexpression, hknown⟩
  case languages =>
    exact fun known same => ofTree?_of_sameLanguages java plain same file tree
  case sameNames =>
    intro known same
    refine ofTree?_of_sameLanguages java plain (fun language => ?_) file tree
    simp only [List.mem_map, same]
  case otherName =>
    intro before language after other stands hknown hlanguage hother
    have hsame : Language.canonical other = Language.canonical language := by
      rw [Language.canonical_eq_iff.2 hlanguage, Language.canonical_eq_iff.2 hother]
    refine ofTree?_of_sameLanguages java plain (fun name => ?_) file tree
    rw [hknown, List.map_append, List.map_append, List.map_cons, List.map_cons, hsame]

/-- The tree of `filter(language("JavaScript", "a")).tokenizeXml("b")`. -/
def aliasedCalls : Tree :=
  .node ⟨"method_invocation", true,
      "filter(language(\"JavaScript\", \"a\")).tokenizeXml(\"b\")", 0, 0, none⟩
    [.node ⟨"method_invocation", true, "filter(language(\"JavaScript\", \"a\"))", 0, 0,
          some "object"⟩
        [.node ⟨"identifier", true, "filter", 0, 0, some "name"⟩ [],
          .node ⟨"argument_list", true, "(language(\"JavaScript\", \"a\"))", 6, 0,
              some "arguments"⟩
            [.node ⟨"method_invocation", true, "language(\"JavaScript\", \"a\")", 7, 0, none⟩
              [.node ⟨"identifier", true, "language", 7, 0, some "name"⟩ [],
                .node ⟨"argument_list", true, "(\"JavaScript\", \"a\")", 15, 0,
                    some "arguments"⟩
                  [.node ⟨"string_literal", true, "\"JavaScript\"", 16, 0, none⟩ [],
                    .node ⟨"string_literal", true, "\"a\"", 30, 0, none⟩ []]]]],
      .node ⟨"identifier", true, "tokenizeXml", 36, 0, some "name"⟩ [],
      .node ⟨"argument_list", true, "(\"b\")", 47, 0, some "arguments"⟩
        [.node ⟨"string_literal", true, "\"b\"", 48, 0, none⟩ []]]

/-- The settings of someone who knows two languages. -/
def twoLanguages : Settings :=
  { languages := { known := ["js", "tokenize"] } }

/-- Both calls use other names for the languages than the settings do.  To know
JavaScript under that of the call, or the languages in another order, changes nothing. -/
theorem expressions_match_literals_aliased :
    twoLanguages.recognizers.java = true ∧
      (∀ language ∈ twoLanguages.languages.known, Language.canonical language ≠ "language") ∧
      (∃ report, ofTree? twoLanguages "Routes.java" aliasedCalls = some report ∧
        report.expressions.map (fun entry => (entry.text, entry.language, entry.predicate)) =
          [("a", "javaScript", true), ("b", "tokenize", true)]) ∧
      ofTree? { languages := { known := ["JavaScript", "tokenize"] } } "Routes.java"
        aliasedCalls = ofTree? twoLanguages "Routes.java" aliasedCalls ∧
      ofTree? { languages := { known := ["tokenize", "js", "tokenize"] } } "Routes.java"
        aliasedCalls = ofTree? twoLanguages "Routes.java" aliasedCalls := by
  have hplain : ∀ language ∈ twoLanguages.languages.known,
      Language.canonical language ≠ "language" := by decide
  obtain ⟨hreported, -, -, hsameNames, hotherName, -⟩ :=
    expressions_match_literals twoLanguages rfl hplain "Routes.java" aliasedCalls
  refine ⟨rfl, hplain, ?_, ?_, ?_⟩
  · rw [Tree.nodes_eq_preorder] at hreported
    have hvalues : ∀ literal ∈ Tree.preorder [] aliasedCalls,
        literal.kind = "string_literal" → (literalValue? literal).isSome = true := by decide
    obtain ⟨report, hreport⟩ := Option.isSome_iff_exists.1
      (hreported.2 fun literal hmem hkind _ => hvalues literal hmem hkind)
    refine ⟨report, hreport, ?_⟩
    obtain rfl := eq_ofTree_of_ofTree? hreport
    show (aliasedCalls.nodes.filterMap (expressionAt? (javaRegistry twoLanguages
      (ClassIndex.ofTree aliasedCalls)) twoLanguages)).map _ = _
    rw [Tree.nodes_eq_preorder]
    decide +kernel
  · exact hotherName [] "js" ["tokenize"] "JavaScript" "javaScript" rfl
      (.javaScript (by decide)) (.javaScript (by decide))
  · refine hsameNames ["tokenize", "js", "tokenize"] fun language => ?_
    show language ∈ ["tokenize", "js", "tokenize"] ↔ language ∈ ["js", "tokenize"]
    simp only [List.mem_cons, List.not_mem_nil, or_false]
    tauto

end RouteScope.Report
