import RouteScope.Proofs.Java.CommentedCalls
import RouteScope.Proofs.Java.FullPath
import RouteScope.Proofs.Report.Entries

/-!
# Comments and reports

A report on a file is the report on the file without its comments, for all settings,
as long as no comment stands where the next named node is taken for a type or for
the name of a language.  Comments give no entries themselves, and every entry says
the same of a node as of its place in the tree without comments.

* `readAt?_withoutComments`, `endpointAt?_withoutComments` and others: one entry.
* `report_withoutComments`: class index and report.
-/

namespace RouteScope.Report

open Java

variable {settings : Settings} {index : ClassIndex} {tree : Tree} (shape : HasJavaShape tree)
  (aside : CommentsStandAside tree) {node : Node} (hnode : node ∈ tree.code)

/-! ## Answers of the registry -/

section Answers

include shape hnode

theorem value_beanClass?_withoutComments :
    ((javaRegistry settings index).beanClass? node.withoutComments).value =
      ((javaRegistry settings index).beanClass? node).value := by
  have hclass : beanClass? index node.withoutComments = beanClass? index node := by
    rw [beanClass?, beanClass?, beanName?_withoutComments shape hnode]
  rw [value_beanClass?_eq, value_beanClass?_eq, hclass]

theorem value_beanNode?_corresponds :
    Corresponds tree ((javaRegistry settings index).beanNode? node).value
      ((javaRegistry settings index).beanNode? node.withoutComments).value := by
  rw [value_beanNode?_eq, value_beanNode?_eq]
  cases settings.recognizers.java with
  | false => exact .nothing
  | true => exact beanNode?_corresponds shape hnode

include aside

theorem value_matchesAny_withoutComments (query : Query) :
    ((javaRegistry settings index).matchesAny query node.withoutComments).value =
      ((javaRegistry settings index).matchesAny query node).value := by
  rw [value_matchesAny_eq, value_matchesAny_eq, answer_withoutComments shape hnode aside]

theorem value_inRouteStart_withoutComments :
    ((javaRegistry settings index).inRouteStart node.withoutComments).value =
      ((javaRegistry settings index).inRouteStart node).value := by
  have hways : Ancestry.ancestors node.withoutComments ++ [node.withoutComments] =
      (Ancestry.ancestors node ++ [node]).map Node.withoutComments := by
    rw [shape.ancestors_withoutComments hnode, List.map_append]
    rfl
  have hcode : ∀ asked ∈ Ancestry.ancestors node ++ [node], asked ∈ tree.code := by
    intro asked hasked
    rcases List.mem_append.1 hasked with habove | hself
    · exact shape.ancestors_mem_code (mem_nodes_of_mem_code hnode) habove
    · exact List.mem_singleton.1 hself ▸ hnode
  have hanswers : ((Ancestry.ancestors node ++ [node]).map Node.withoutComments).any
      isRouteStart = (Ancestry.ancestors node ++ [node]).any isRouteStart := by
    rw [List.any_map, Bool.eq_iff_iff, List.any_eq_true, List.any_eq_true]
    refine exists_congr fun asked => and_congr_right fun hasked => ?_
    have hanswer : isRouteStart asked.withoutComments = isRouteStart asked :=
      answer_withoutComments shape (hcode asked hasked) aside true index .routeStart
    rw [Function.comp_apply, hanswer]
  rw [value_inRouteStart_eq, value_inRouteStart_eq, hways, hanswers]

end Answers

/-! ## Comments themselves -/

theorem isLiteral_of_isComment (h : node.isComment = true) : isLiteral node = false :=
  kind_ne_of_isComment (by decide) h

theorem readAt?_of_isComment (h : node.isComment = true) :
    readAt? (javaRegistry settings index) node = none := by
  rw [readAt?, isRead, isLiteral_of_isComment h]
  rfl

theorem isSkipped_of_isComment (h : node.isComment = true) :
    isSkipped (javaRegistry settings index) node = false := by
  rw [isSkipped, isLiteral_of_isComment h]
  rfl

theorem routeStartAt?_of_isComment (h : node.isComment = true) :
    routeStartAt? (javaRegistry settings index) node = none := by
  rw [routeStartAt?, kind_ne_of_isComment (by decide) h]
  rfl

theorem beanAt?_of_isComment (h : node.isComment = true) {graph : ClassGraph} :
    beanAt? (javaRegistry settings index) graph node = none := by
  rw [beanAt?, kind_ne_of_isComment (by decide) h]
  rfl

theorem endpointAt?_of_isComment (h : node.isComment = true) :
    endpointAt? (javaRegistry settings index) settings node = none := by
  rw [endpointAt?, readAt?_of_isComment h]
  rfl

theorem expressionAt?_of_isComment (h : node.isComment = true) :
    expressionAt? (javaRegistry settings index) settings node = none := by
  rw [expressionAt?, readAt?_of_isComment h]
  rfl

/-! ## One entry -/

section Entries

include shape hnode

theorem beanAt?_withoutComments (graph : ClassGraph) :
    beanAt? (javaRegistry settings index) graph node.withoutComments =
      beanAt? (javaRegistry settings index) graph node := by
  have hline : ((javaRegistry settings index).beanNode? node.withoutComments).value.map (·.line) =
      ((javaRegistry settings index).beanNode? node).value.map (·.line) :=
    (value_beanNode?_corresponds shape hnode).map_eq fun declaration _ _ =>
      Node.line_withoutComments declaration
  unfold beanAt?
  rw [Node.kind_withoutComments, Node.line_withoutComments,
    value_beanClass?_withoutComments shape hnode, hline]

include aside

theorem routeStartAt?_withoutComments :
    routeStartAt? (javaRegistry settings index) node.withoutComments =
      routeStartAt? (javaRegistry settings index) node := by
  rw [routeStartAt?, routeStartAt?, Node.kind_withoutComments, Node.line_withoutComments,
    value_matchesAny_withoutComments shape aside hnode, methodName?_withoutComments shape hnode]

theorem isRead_withoutComments : isRead (javaRegistry settings index) node.withoutComments =
    isRead (javaRegistry settings index) node := by
  rw [isRead, isRead, isLiteral_withoutComments,
    value_matchesAny_withoutComments shape aside hnode]

theorem isSkipped_withoutComments : isSkipped (javaRegistry settings index) node.withoutComments =
    isSkipped (javaRegistry settings index) node := by
  rw [isSkipped, isSkipped, isLiteral_withoutComments,
    value_matchesAny_withoutComments shape aside hnode]

theorem readAt?_withoutComments : readAt? (javaRegistry settings index) node.withoutComments =
    readAt? (javaRegistry settings index) node := by
  rw [readAt?, readAt?, isRead_withoutComments shape aside hnode, literalValue?_withoutComments]

theorem endpointAt?_withoutComments :
    endpointAt? (javaRegistry settings index) settings node.withoutComments =
      endpointAt? (javaRegistry settings index) settings node := by
  unfold endpointAt? roleAt?
  rw [readAt?_withoutComments shape aside hnode, Node.line_withoutComments,
    value_inRouteStart_withoutComments shape aside hnode]
  simp only [value_matchesAny_withoutComments shape aside hnode]

theorem expressionAt?_withoutComments :
    expressionAt? (javaRegistry settings index) settings node.withoutComments =
      expressionAt? (javaRegistry settings index) settings node := by
  unfold expressionAt?
  rw [readAt?_withoutComments shape aside hnode, Node.line_withoutComments]
  simp only [value_matchesAny_withoutComments shape aside hnode]

end Entries

/-! ## The report -/

section Reports

include shape aside

theorem ofTree_withoutComments (settings : Settings) (file : String) :
    ofTree settings file tree.withoutComments = ofTree settings file tree := by
  have hindex := Java.ofTree_withoutComments shape aside
  rw [ofTree, ofTree, hindex]
  generalize ClassIndex.ofTree tree = index
  have hstarts : tree.withoutComments.nodes.filterMap
      (routeStartAt? (javaRegistry settings index)) =
        tree.nodes.filterMap (routeStartAt? (javaRegistry settings index)) :=
    shape.filterMap_nodes (fun _ h => routeStartAt?_of_isComment h)
      fun _ hnode => routeStartAt?_withoutComments shape aside hnode
  have hbeans : tree.withoutComments.nodes.filterMap
      (beanAt? (javaRegistry settings index) index.graph) =
        tree.nodes.filterMap (beanAt? (javaRegistry settings index) index.graph) :=
    shape.filterMap_nodes (fun _ h => beanAt?_of_isComment h)
      fun _ hnode => beanAt?_withoutComments shape hnode index.graph
  have hendpoints : tree.withoutComments.nodes.filterMap
      (endpointAt? (javaRegistry settings index) settings) =
        tree.nodes.filterMap (endpointAt? (javaRegistry settings index) settings) :=
    shape.filterMap_nodes (fun _ h => endpointAt?_of_isComment h)
      fun _ hnode => endpointAt?_withoutComments shape aside hnode
  have hexpressions : tree.withoutComments.nodes.filterMap
      (expressionAt? (javaRegistry settings index) settings) =
        tree.nodes.filterMap (expressionAt? (javaRegistry settings index) settings) :=
    shape.filterMap_nodes (fun _ h => expressionAt?_of_isComment h)
      fun _ hnode => expressionAt?_withoutComments shape aside hnode
  have hskipped : tree.withoutComments.nodes.countP (isSkipped (javaRegistry settings index)) =
      tree.nodes.countP (isSkipped (javaRegistry settings index)) := by
    have hleft : tree.withoutComments.nodes.filter (isSkipped (javaRegistry settings index)) =
        (tree.nodes.filter (isSkipped (javaRegistry settings index))).map Node.withoutComments :=
      shape.filter_nodes (fun _ h => isSkipped_of_isComment h)
        fun _ hnode => isSkipped_withoutComments shape aside hnode
    rw [List.countP_eq_length_filter, List.countP_eq_length_filter, hleft, List.length_map]
  rw [ofNodes, ofNodes, hstarts, hbeans, hendpoints, hexpressions, hskipped]

/-- Comments are no literals, so they cannot be unreadable. -/
theorem isReadable_withoutComments (settings : Settings) :
    isReadable settings tree.withoutComments = isReadable settings tree := by
  rw [isReadable, isReadable, Java.ofTree_withoutComments shape aside, Bool.eq_iff_iff,
    List.all_eq_true, List.all_eq_true, shape.nodes_withoutComments, List.forall_mem_map]
  refine ⟨fun h node hnode => ?_, fun h node hnode => ?_⟩
  · cases hcomment : node.isComment with
    | true =>
      rw [isBrokenLiteral, isLiteral_of_isComment hcomment]
      rfl
    | false =>
      have hcode := mem_code_iff.2 ⟨hnode, hcomment⟩
      have hleft := h node hcode
      rwa [isBrokenLiteral_withoutComments, isRead_withoutComments shape aside hcode] at hleft
  · rw [isBrokenLiteral_withoutComments, isRead_withoutComments shape aside hnode]
    exact h node (mem_nodes_of_mem_code hnode)

end Reports

/-- Where no comment stands in the place of a type or of the name of a language, a file
has the same class index and, for all settings, the same report as the file without
its comments. -/
theorem report_withoutComments (tree : Tree) (shape : HasJavaShape tree)
    (aside : CommentsStandAside tree) :
    ClassIndex.ofTree tree.withoutComments = ClassIndex.ofTree tree ∧
      ∀ settings file, ofTree? settings file tree.withoutComments = ofTree? settings file tree := by
  refine ⟨Java.ofTree_withoutComments shape aside, fun settings file => ?_⟩
  rw [ofTree?, ofTree?, isReadable_withoutComments shape aside,
    ofTree_withoutComments shape aside]

/-- The import of the superclass of a file. -/
def adapterImport : Tree :=
  .node
    ⟨"import_declaration", true, "import org.apache.camel.support.ExpressionAdapter;", 0, 0, none⟩
    [.node ⟨"import", false, "import", 0, 0, none⟩ [],
      .node ⟨"scoped_identifier", true, "org.apache.camel.support.ExpressionAdapter", 7, 0, none⟩
        [.node ⟨"scoped_identifier", true, "org.apache.camel.support", 7, 0, some "scope"⟩
          [.node ⟨"scoped_identifier", true, "org.apache.camel", 7, 0, some "scope"⟩
            [.node ⟨"scoped_identifier", true, "org.apache", 7, 0, some "scope"⟩
              [.node ⟨"identifier", true, "org", 7, 0, some "scope"⟩ [],
                .node ⟨".", false, ".", 10, 0, none⟩ [],
                .node ⟨"identifier", true, "apache", 11, 0, some "name"⟩ []],
              .node ⟨".", false, ".", 17, 0, none⟩ [],
              .node ⟨"identifier", true, "camel", 18, 0, some "name"⟩ []],
            .node ⟨".", false, ".", 23, 0, none⟩ [],
            .node ⟨"identifier", true, "support", 24, 0, some "name"⟩ []],
          .node ⟨".", false, ".", 31, 0, none⟩ [],
          .node ⟨"identifier", true, "ExpressionAdapter", 32, 0, some "name"⟩ []],
      .node ⟨";", false, ";", 49, 0, none⟩ []]

/-- A class with a comment in front of `extends`. -/
def commentedClass : Tree :=
  .node ⟨"program", true, "import org.apache.camel.support.ExpressionAdapter;\n" ++
      "class A /* base */ extends ExpressionAdapter {}", 0, 0, none⟩
    [adapterImport,
      .node
        ⟨"class_declaration", true, "class A /* base */ extends ExpressionAdapter {}", 51, 1, none⟩
        [.node ⟨"class", false, "class", 51, 1, none⟩ [],
          .node ⟨"identifier", true, "A", 57, 1, some "name"⟩ [],
          .node ⟨"block_comment", true, "/* base */", 59, 1, none⟩ [],
          .node ⟨"superclass", true, "extends ExpressionAdapter", 70, 1, some "superclass"⟩
            [.node ⟨"extends", false, "extends", 70, 1, none⟩ [],
              .node ⟨"type_identifier", true, "ExpressionAdapter", 78, 1, none⟩ []],
          .node ⟨"class_body", true, "{}", 96, 1, some "body"⟩
            [.node ⟨"\x7b", false, "\x7b", 96, 1, none⟩ [],
              .node ⟨"\x7d", false, "\x7d", 97, 1, none⟩ []]]]

theorem hasJavaShape_commentedClass : HasJavaShape commentedClass where
  top := by decide
  childless := by rw [Tree.nodes_eq_preorder]; decide
  fieldless := by rw [Tree.nodes_eq_preorder]; decide
  generic := by rw [Tree.nodes_eq_preorder]; decide
  literal := by rw [Tree.nodes_eq_preorder]; decide
  named := by rw [Tree.nodes_eq_preorder]; decide
  arguments := by
    have hkinds : ∀ list ∈ commentedClass.nodes, list.kind ≠ "argument_list" := by
      rw [Tree.nodes_eq_preorder]
      decide
    exact fun list hlist hkind => absurd hkind (hkinds list hlist)

theorem commentsStandAside_commentedClass : CommentsStandAside commentedClass where
  superclass := by rw [Tree.nodes_eq_preorder]; decide
  interfaces := by rw [Tree.nodes_eq_preorder]; decide
  language := by rw [Tree.nodes_eq_preorder]; decide

/-- The comment of the class changes no report. -/
theorem report_withoutComments_commentedClass :
    HasJavaShape commentedClass ∧ CommentsStandAside commentedClass ∧
      (∃ node ∈ commentedClass.nodes, node.isComment = true) ∧
      ∀ settings file,
        ofTree? settings file commentedClass.withoutComments =
          ofTree? settings file commentedClass := by
  refine ⟨hasJavaShape_commentedClass, commentsStandAside_commentedClass, ?_, ?_⟩
  · rw [Tree.nodes_eq_preorder]
    decide
  · exact (report_withoutComments commentedClass hasJavaShape_commentedClass
      commentsStandAside_commentedClass).2

/-- The class with the comment behind `extends`. -/
def commentedClause : Tree :=
  .node ⟨"program", true, "import org.apache.camel.support.ExpressionAdapter;\n" ++
      "class A extends /* base */ ExpressionAdapter {}", 0, 0, none⟩
    [adapterImport,
      .node
        ⟨"class_declaration", true, "class A extends /* base */ ExpressionAdapter {}", 51, 1, none⟩
        [.node ⟨"class", false, "class", 51, 1, none⟩ [],
          .node ⟨"identifier", true, "A", 57, 1, some "name"⟩ [],
          .node
            ⟨"superclass", true, "extends /* base */ ExpressionAdapter", 59, 1, some "superclass"⟩
            [.node ⟨"extends", false, "extends", 59, 1, none⟩ [],
              .node ⟨"block_comment", true, "/* base */", 67, 1, none⟩ [],
              .node ⟨"type_identifier", true, "ExpressionAdapter", 78, 1, none⟩ []],
          .node ⟨"class_body", true, "{}", 96, 1, some "body"⟩
            [.node ⟨"\x7b", false, "\x7b", 96, 1, none⟩ [],
              .node ⟨"\x7d", false, "\x7d", 97, 1, none⟩ []]]]

/-- Behind `extends` the comment is taken for the superclass, and the class refers to
no class of Camel any more. -/
theorem superclass_commentedClause :
    ((ClassIndex.ofTree commentedClause).graph.get? 9).bind (·.superclass?) =
        some (.unresolved "/*base*/") ∧
      ((ClassIndex.ofTree commentedClause.withoutComments).graph.get? 9).bind (·.superclass?) =
        some (.resolved 7) := by
  simp only [ClassIndex.ofTree, declarations_root_eq]
  decide

end RouteScope.Report
