import RouteScope.Proofs.Report.Entries

/-!
# What a report owes to the settings

A scan is given all settings, and each section of them has a place of its own in
the report.  What is logged has none.  The way of display is seen in the
displayed URIs alone, and the known languages in the expressions alone.  Whether
routes in Java are recognized is seen in everything but the declared classes,
since these are told from the class index and no recognizer is asked.

* `endpointAt?_display`: one endpoint under other settings of display.
* `readAt?_of_off`, `isSkipped_of_off`: with no recognizer, no literal is read
  and all are skipped.
* `settings_do_not_interfere`: two runs on one file.
-/

namespace RouteScope.Report

open Java

/-- The endpoint with its URI wrapped anew. -/
def rewrap (display : DisplaySettings) (endpoint : EndpointUse) : EndpointUse :=
  { endpoint with
    display := Endpoint.wrap display.separator display.lineBreak display.wrapWidth endpoint.uri }

/-- The report with the URIs of all endpoints wrapped anew. -/
def redisplay (display : DisplaySettings) (report : Report) : Report :=
  { report with endpoints := report.endpoints.map (rewrap display) }

/-- The report apart from its expressions. -/
def withoutExpressions (report : Report) : Report :=
  { report with expressions := [] }

variable {settings : Settings} {index : ClassIndex}

/-! ## Display -/

/-- Whether there is an endpoint, and what is said about it, does not depend on
how it is displayed. -/
theorem endpointAt?_display (registry : Registry Node) (settings : Settings)
    (display : DisplaySettings) (node : Node) :
    endpointAt? registry { settings with display } node =
      (endpointAt? registry settings node).map (rewrap display) := by
  unfold endpointAt?
  cases readAt? registry node with
  | none => rfl
  | some uri =>
    cases roleAt? registry node with
    | none => rfl
    | some role => rfl

theorem ofTree_display (settings : Settings) (display : DisplaySettings) (file : String)
    (tree : Tree) :
    ofTree { settings with display } file tree = (ofTree settings file tree).redisplay display := by
  have hendpoints : tree.nodes.filterMap (endpointAt?
      (javaRegistry settings (ClassIndex.ofTree tree)) { settings with display }) =
        (ofTree settings file tree).endpoints.map (rewrap display) := by
    rw [ofTree, ofNodes, List.map_filterMap]
    exact List.filterMap_congr fun node _ => endpointAt?_display _ settings display node
  exact congrArg (fun endpoints => { ofTree settings file tree with endpoints }) hendpoints

/-! ## No recognizer -/

theorem value_matchesAny_of_off (off : settings.recognizers.java = false) (query : Query)
    (node : Node) : ((javaRegistry settings index).matchesAny query node).value = false := by
  rw [value_matchesAny_eq, off, Bool.false_and]

theorem readAt?_of_off (off : settings.recognizers.java = false) (node : Node) :
    readAt? (javaRegistry settings index) node = none := by
  rw [readAt?, isRead, value_matchesAny_of_off off, Bool.and_false]
  rfl

/-- Where nobody says that a literal can be inspected, all of them are skipped. -/
theorem isSkipped_of_off (off : settings.recognizers.java = false) (node : Node) :
    isSkipped (javaRegistry settings index) node = isLiteral node := by
  rw [isSkipped, value_matchesAny_of_off off]
  exact Bool.and_true _

theorem routeStartAt?_of_off (off : settings.recognizers.java = false) (node : Node) :
    routeStartAt? (javaRegistry settings index) node = none := by
  rw [routeStartAt?, value_matchesAny_of_off off]
  cases hkind : node.kind == "method_invocation" <;> rfl

theorem beanAt?_of_off (off : settings.recognizers.java = false) (graph : ClassGraph)
    (node : Node) : beanAt? (javaRegistry settings index) graph node = none := by
  rw [beanAt?, value_beanClass?_eq, off]
  cases hkind : node.kind == "method_invocation" <;> rfl

/-- Without a recognizer there is a report on every file, since no literal has to
be read. -/
theorem ofTree?_of_off (off : settings.recognizers.java = false) (file : String) (tree : Tree) :
    ofTree? settings file tree = some {
      file
      routeStarts := []
      endpoints := []
      expressions := []
      beans := []
      skippedLiterals := (tree.nodesOfKind "string_literal").length
      expressionClasses := (ofTree settings file tree).expressionClasses
      routeBuilders := (ofTree settings file tree).routeBuilders
      handlerMethods := (ofTree settings file tree).handlerMethods } := by
  have hreadable : isReadable settings tree = true := by
    refine List.all_eq_true.2 fun node _ => ?_
    rw [isRead, value_matchesAny_of_off off, Bool.and_false, Bool.and_false]
    rfl
  have hskipped : isSkipped (javaRegistry settings (ClassIndex.ofTree tree)) = isLiteral :=
    funext fun node => isSkipped_of_off off node
  rw [ofTree?, if_pos hreadable, ofTree, ofNodes, hskipped, List.countP_eq_length_filter]
  simp only [Option.some.injEq, Report.mk.injEq, true_and, and_true, List.filterMap_eq_nil_iff]
  refine ⟨fun node _ => routeStartAt?_of_off off node, fun node _ => ?_, fun node _ => ?_,
    fun node _ => beanAt?_of_off off _ node, rfl⟩
  · rw [endpointAt?, readAt?_of_off off]
    rfl
  · rw [expressionAt?, readAt?_of_off off]
    rfl

/-! ## Two runs -/

/-- Two runs on one file compared.  If the settings differ in what is logged, the
reports are the same.  If they differ in the way of display, the reports differ in
the displayed URIs, which are wrapped anew.  If they differ in the known languages,
the reports differ in the expressions.  If routes in Java are not recognized,
there is a report with no route starts, endpoints, expressions or beans, in which
all string literals are skipped, and the declared classes are those of every
other run.  Another name of the file changes nothing but the name in the report.
In the first three cases and the last one there also is a report in both runs or
in none. -/
theorem settings_do_not_interfere (settings : Settings) (file : String) (tree : Tree) :
    (∀ logging, ofTree? { settings with logging } file tree = ofTree? settings file tree) ∧
    (∀ display, ofTree? { settings with display } file tree =
      (ofTree? settings file tree).map (redisplay display)) ∧
    (∀ languages, (ofTree? { settings with languages } file tree).map withoutExpressions =
      (ofTree? settings file tree).map withoutExpressions) ∧
    (∃ off, ofTree? { settings with recognizers := { java := false } } file tree = some off ∧
      off.routeStarts = [] ∧ off.endpoints = [] ∧ off.expressions = [] ∧ off.beans = [] ∧
      off.skippedLiterals = (tree.nodesOfKind "string_literal").length ∧
      ∀ recognizers report, ofTree? { settings with recognizers } file tree = some report →
        report.expressionClasses = off.expressionClasses ∧
        report.routeBuilders = off.routeBuilders ∧
        report.handlerMethods = off.handlerMethods) ∧
    ∀ name, ofTree? settings name tree =
      (ofTree? settings file tree).map fun report => { report with file := name } := by
  refine ⟨fun logging => rfl, fun display => ?_, fun languages => ?_, ?_, fun name => ?_⟩
  · have hreadable : isReadable { settings with display } tree = isReadable settings tree := rfl
    unfold ofTree?
    rw [hreadable, ofTree_display]
    cases isReadable settings tree <;> rfl
  · have hreadable : isReadable { settings with languages } tree = isReadable settings tree := rfl
    unfold ofTree?
    rw [hreadable]
    cases isReadable settings tree <;> rfl
  · refine ⟨_, ofTree?_of_off rfl file tree, rfl, rfl, rfl, rfl, rfl, ?_⟩
    intro recognizers report hreport
    obtain rfl := eq_ofTree_of_ofTree? hreport
    exact ⟨rfl, rfl, rfl⟩
  · unfold ofTree?
    cases isReadable settings tree <;> rfl

end RouteScope.Report
