import RouteScope.Proofs.Java.Comments
import RouteScope.Proofs.Recognition.Registry

/-!
# Calls with comments

The answers about a node of a Java file, and the bean that it refers to, are those
about its place in the file without comments.  The arguments of a call are the one
list that is read by position: the first argument of a call of `language` names the
language, and it has to be told from the literal in question.

* `namesLanguage_eq`: only the first argument matters, since the literal itself is
  another one.
* `answer_withoutComments`, `beanName?_withoutComments`: what is said of a node.
* `beanNode?_corresponds`: where a bean is declared.
-/

namespace RouteScope.Java

variable {tree : Tree} (shape : HasJavaShape tree) {node : Node} (hnode : node ∈ tree.code)

theorem isLiteral_withoutComments (node : Node) :
    isLiteral node.withoutComments = isLiteral node := by
  rw [isLiteral, isLiteral, Node.kind_withoutComments]

theorem literalValue?_withoutComments (node : Node) :
    literalValue? node.withoutComments = literalValue? node := by
  rw [literalValue?, literalValue?, isLiteral_withoutComments, Node.text_withoutComments]

theorem isBrokenLiteral_withoutComments (node : Node) :
    isBrokenLiteral node.withoutComments = isBrokenLiteral node := by
  rw [isBrokenLiteral, isBrokenLiteral, isLiteral_withoutComments, Node.text_withoutComments]

/-! ## Literals and calls -/

theorem isLiteral_of_literalAt? {literal : Node} (h : literalAt? node = some literal) :
    isLiteral literal = true := by
  unfold literalAt? at h
  split at h
  · rename_i hliteral
    exact Option.some.inj h ▸ hliteral
  · split at h
    · exact (Option.filter_eq_some_iff.1 h).2
    · exact absurd h (Option.some_ne_none literal).symm

section Places

include shape hnode

theorem literalAt?_corresponds :
    Corresponds tree (literalAt? node) (literalAt? node.withoutComments) := by
  rw [literalAt?, literalAt?, isLiteral_withoutComments, Node.kind_withoutComments]
  cases isLiteral node with
  | true => exact .place hnode
  | false =>
    cases node.kind == "string_fragment" with
    | true => exact .parentOfKind? hnode shape.toHasPlainComments "string_literal"
    | false => exact .nothing

theorem callTaking?_corresponds :
    Corresponds tree (callTaking? node) (callTaking? node.withoutComments) :=
  (Corresponds.parentOfKind? hnode shape.toHasPlainComments "argument_list").bind
    fun _ hlist _ => .parentOfKind? hlist shape.toHasPlainComments "method_invocation"

theorem callAt?_corresponds :
    Corresponds tree (callAt? node) (callAt? node.withoutComments) := by
  rw [callAt?, callAt?, Node.kind_withoutComments]
  cases node.kind == "method_invocation" with
  | true => exact .place hnode
  | false =>
    cases node.kind == "identifier" with
    | false => exact .nothing
    | true =>
      refine (Corresponds.parentOfKind? hnode shape.toHasPlainComments "method_invocation").filter
        fun call hcall => ?_
      exact (Corresponds.field? hcall shape.toHasPlainComments "name").any_eq fun name hname _ =>
        shape.isSame_withoutComments hname hnode

theorem callTakingLiteralAt?_corresponds :
    Corresponds tree (callTakingLiteralAt? node) (callTakingLiteralAt? node.withoutComments) :=
  (literalAt?_corresponds shape hnode).bind fun _ hliteral _ =>
    callTaking?_corresponds shape hliteral

theorem isArgumentOf_withoutComments (methods : List String) :
    isArgumentOf methods node.withoutComments = isArgumentOf methods node :=
  (callTakingLiteralAt?_corresponds shape hnode).any_eq fun _ hcall _ =>
    isCallOf_withoutComments shape hcall methods

/-- The arguments are the same but for the comments among them. -/
theorem arguments_withoutComments :
    arguments node.withoutComments =
        ((arguments node).filter (!·.isComment)).map Node.withoutComments ∧
      ∀ argument ∈ arguments node, argument ∈ tree.nodes := by
  obtain ⟨hmap, hmem⟩ := Corresponds.field? hnode shape.toHasPlainComments "arguments"
  rw [arguments, arguments, hmap]
  cases hfound : node.field? "arguments" with
  | none => exact ⟨rfl, fun _ h => absurd h List.not_mem_nil⟩
  | some list =>
    have hlist := mem_nodes_of_mem_code (hmem list hfound)
    exact ⟨Node.namedChildren_withoutComments list, fun argument hargument =>
      mem_nodes_of_mem_namedChildren hlist hargument⟩

/-- The first argument is the same if it is no comment. -/
theorem head?_arguments_corresponds
    (opens : ∀ list, node.field? "arguments" = some list → ¬ list.OpensWithComment) :
    Corresponds tree (arguments node).head? (arguments node.withoutComments).head? := by
  obtain ⟨hmap, hmem⟩ := Corresponds.field? hnode shape.toHasPlainComments "arguments"
  rw [arguments, arguments, hmap]
  cases hfound : node.field? "arguments" with
  | none => exact .nothing
  | some list => exact .head?_namedChildren (hmem list hfound) (opens list hfound)

end Places

/-! ## Calls that name a language -/

/-- The literal that a call takes is one of its arguments. -/
theorem mem_arguments_of_callTaking? (shape : HasJavaShape tree) {literal call : Node}
    (hliteral : literal ∈ tree.nodes) (literally : isLiteral literal = true)
    (h : callTaking? literal = some call) : literal ∈ arguments call := by
  obtain ⟨list, hlist, hcall⟩ := Option.bind_eq_some_iff.1 h
  obtain ⟨hparent, hkind⟩ := Option.filter_eq_some_iff.1 hlist
  have hmem := mem_nodes_of_parent? hliteral hparent
  rw [arguments, shape.arguments list hmem (beq_iff_eq.1 hkind) call hcall]
  exact List.mem_filter.2
    ⟨Node.mem_children_of_parent? hparent, shape.named literal hliteral literally⟩

/-- If the literal is an argument, a language is named by the first argument unless
that is the literal. -/
theorem namesLanguage_eq (language : String) {literal call : Node}
    (h : literal ∈ arguments call) :
    namesLanguage language literal call =
      (isCallOf ["language"] call && (arguments call).head?.any fun first =>
        !first.isSame literal && (literalValue? first).any (Language.same language)) := by
  rw [namesLanguage]
  match harguments : arguments call with
  | [] => rfl
  | [first] =>
    have hfirst : literal = first := by simpa [harguments] using h
    simp [hfirst, Node.isSame]
  | first :: second :: rest => rfl

section Languages

variable (aside : CommentsStandAside tree)

include shape aside

theorem namesLanguage_withoutComments (language : String) {literal call : Node}
    (hliteral : literal ∈ tree.code) (literally : isLiteral literal = true)
    (hcall : call ∈ tree.code) (h : callTaking? literal = some call) :
    namesLanguage language literal.withoutComments call.withoutComments =
      namesLanguage language literal call := by
  obtain ⟨hsame, hnodes⟩ := arguments_withoutComments shape hcall
  have hargument := mem_arguments_of_callTaking? shape (mem_nodes_of_mem_code hliteral) literally h
  have hleft : literal.withoutComments ∈ arguments call.withoutComments := by
    rw [hsame]
    exact List.mem_map_of_mem (List.mem_filter.2
      ⟨hargument, by rw [isComment_of_mem_code hliteral]; rfl⟩)
  rw [namesLanguage_eq language hargument, namesLanguage_eq language hleft,
    isCallOf_withoutComments shape hcall]
  cases hlanguage : isCallOf ["language"] call with
  | false => rfl
  | true =>
    have hhead := head?_arguments_corresponds shape hcall
      (aside.language call (mem_nodes_of_mem_code hcall) hlanguage)
    rw [Bool.true_and, Bool.true_and]
    refine hhead.any_eq fun first hfirst _ => ?_
    rw [shape.isSame_withoutComments hfirst hliteral, literalValue?_withoutComments]

theorem languageCall?_corresponds (hnode : node ∈ tree.code) (language : String) :
    Corresponds tree (languageCall? language node)
      (languageCall? language node.withoutComments) := by
  refine (literalAt?_corresponds shape hnode).bind fun literal hliteral hfound => ?_
  refine (callTaking?_corresponds shape hliteral).bind fun call hcall htaking => ?_
  have hnames := namesLanguage_withoutComments shape aside language hliteral
    (isLiteral_of_literalAt? hfound) hcall htaking
  rw [methodName?_withoutComments shape hcall, hnames]
  cases methodName? call with
  | none => exact .nothing
  | some name =>
    rw [Option.bind_eq_bind, Option.bind_some, Option.bind_eq_bind, Option.bind_some]
    cases Language.same language name || namesLanguage language literal call with
    | true => exact .place hcall
    | false => exact .nothing

end Languages

/-! ## Answers -/

section Answers

include shape hnode

theorem isFormatCall_withoutComments : isFormatCall node.withoutComments = isFormatCall node := by
  have hobject : ((node.withoutComments.field? "object").all fun object =>
      object.text == "String") = (node.field? "object").all fun object => object.text == "String" :=
    (Corresponds.field? hnode shape.toHasPlainComments "object").all_eq fun object _ _ => by
      rw [Node.text_withoutComments]
  rw [isFormatCall, isFormatCall, isCallOf_withoutComments shape hnode, hobject]

theorem isPredicateCall_withoutComments :
    isPredicateCall node.withoutComments = isPredicateCall node := by
  have htaking := (callTaking?_corresponds shape hnode).any_eq fun _ hcall _ =>
    isCallOf_withoutComments shape hcall predicateMethods
  have hobject : ((node.withoutComments.field? "object").any fun object =>
      object.kind == "method_invocation" && isCallOf predicateMethods object) =
        (node.field? "object").any fun object =>
          object.kind == "method_invocation" && isCallOf predicateMethods object :=
    (Corresponds.field? hnode shape.toHasPlainComments "object").any_eq fun object hobject _ => by
      rw [Node.kind_withoutComments, isCallOf_withoutComments shape hobject]
  rw [isPredicateCall, isPredicateCall, htaking, hobject]

theorem isInspectable_withoutComments :
    isInspectable node.withoutComments = isInspectable node :=
  (literalAt?_corresponds shape hnode).any_eq fun _ hliteral _ =>
    (Corresponds.parent? hliteral shape.toHasPlainComments).all_eq fun parent _ _ =>
      congrArg (· != "binary_expression") (Node.kind_withoutComments parent)

/-- All queries about a node have the same answers. -/
theorem answer_withoutComments (aside : CommentsStandAside tree) (enabled : Bool)
    (index : ClassIndex) (query : Query) :
    (recognizer enabled index).answer query node.withoutComments =
      (recognizer enabled index).answer query node := by
  have hcall (language : String) := languageCall?_corresponds shape aside hnode language
  cases query with
  | routeStart =>
    exact (callAt?_corresponds shape hnode).any_eq fun _ hcall _ =>
      isCallOf_withoutComments shape hcall routeStartMethods
  | consumer => exact isArgumentOf_withoutComments shape hnode consumerMethods
  | producer => exact isArgumentOf_withoutComments shape hnode producerMethods
  | stringFormat =>
    have hformat := (callTakingLiteralAt?_corresponds shape hnode).any_eq fun _ hcall _ =>
      isFormatCall_withoutComments shape hcall
    show isStringFormat node.withoutComments = isStringFormat node
    rw [isStringFormat, isStringFormat, isArgumentOf_withoutComments shape hnode, hformat]
  | expression language =>
    show (languageCall? language node.withoutComments).isSome = (languageCall? language node).isSome
    rw [(hcall language).eq_map, Option.isSome_map]
  | predicate language =>
    exact (hcall language).any_eq fun _ hcall _ => isPredicateCall_withoutComments shape hcall
  | skipValidation => exact isArgumentOf_withoutComments shape hnode exemptMethods
  | inspectable => exact isInspectable_withoutComments shape hnode

end Answers

/-! ## Beans -/

section Beans

include shape hnode

theorem beanName?_withoutComments : beanName? node.withoutComments = beanName? node := by
  have hcall := (callAt?_corresponds shape hnode).orElse
    (callTakingLiteralAt?_corresponds shape hnode)
  refine hcall.bind_eq fun call hcall _ => ?_
  rw [isCallOf_withoutComments shape hcall]
  refine bind_congr fun _ => ?_
  obtain ⟨hsame, hnodes⟩ := arguments_withoutComments shape hcall
  have hliteral : Corresponds tree ((arguments call).find? (·.kind == "class_literal"))
      ((arguments call.withoutComments).find? (·.kind == "class_literal")) := by
    rw [hsame]
    exact .find? hnodes (fun _ _ h => kind_ne_of_isComment (by decide) h) fun argument _ => by
      rw [Node.kind_withoutComments]
  refine hliteral.bind_eq fun literal hmem hfound => ?_
  have hkind : literal.kind = "class_literal" := by simpa using List.find?_some hfound
  have hopens := shape.literal literal (mem_nodes_of_mem_code hmem) hkind
  refine (Corresponds.head?_namedChildren hmem hopens).bind_eq fun type _ _ => ?_
  rw [Node.text_withoutComments]

/-- The declaration of a bean is searched for in the whole file. -/
theorem beanNode?_corresponds :
    Corresponds tree (beanNode? node) (beanNode? node.withoutComments) := by
  rw [beanNode?, beanNode?, beanName?_withoutComments shape hnode]
  cases beanName? node with
  | none => exact .nothing
  | some name =>
    have hroot : node.root = tree.root := Tree.mem_nodes_iff.1 (mem_nodes_of_mem_code hnode)
    show Corresponds tree (node.root.descendants.find? _)
      (node.withoutComments.root.descendants.find? _)
    rw [hroot, shape.root_withoutComments hnode, ← Tree.nodes, ← Tree.nodes,
      shape.nodes_withoutComments, Tree.code]
    refine .find? (fun _ h => h) (fun other _ h => ?_) fun other hother => ?_
    · rw [isDeclaration_of_isComment h]
      rfl
    · rw [isDeclaration_withoutComments, declaredName?_withoutComments shape hother]

end Beans

end RouteScope.Java
