import RouteScope.Proofs.Java.Bean
import RouteScope.Proofs.Report.Classes
import RouteScope.Proofs.Report.Entries

/-!
# Bean entries of a report

An entry for a bean shows the qualified name of its class, and the line of the
declaration if the file declares the class.  The two come from different
look-ups, but they tell about the same type: the line is that of the first
declaration with the name that is shown, and there is none only if no
declaration has that name.
-/

namespace RouteScope.Report

open Java

/-- The entry stands for the call, which refers to a bean. -/
structure ShowsBean (tree : Tree) (call : Node) (bean : BeanUse) : Prop where
  method : methodName? call = some "bean"
  line : bean.line = call.line
  className : ∃ id, beanClass? (ClassIndex.ofTree tree) call = some id ∧
    bean.className = (((ClassIndex.ofTree tree).graph.get? id).map shownName).getD ""
  declaredAt : bean.declaredAt? = (beanNode? call).map (·.line)

variable {tree : Tree}

/-- Bean references are looked up by the recognizer for Java alone. -/
theorem beanNode?_javaRegistry {settings : Settings} {index : ClassIndex} {node : Node}
    {id : ClassId} (h : ((javaRegistry settings index).beanClass? node).value = some id) :
    beanClass? index node = some id ∧
      ((javaRegistry settings index).beanNode? node).value = beanNode? node := by
  rw [value_beanClass?_eq] at h
  rw [value_beanNode?_eq]
  cases hjava : settings.recognizers.java with
  | false =>
    rw [hjava] at h
    exact absurd h (Option.some_ne_none id).symm
  | true =>
    rw [hjava] at h
    exact ⟨h, rfl⟩

/-- An entry has its parts from the call that it stands for. -/
theorem beanAt?_eq_some {settings : Settings} {call : Node} {bean : BeanUse}
    (h : beanAt? (javaRegistry settings (ClassIndex.ofTree tree)) (ClassIndex.ofTree tree).graph
      call = some bean) : ShowsBean tree call bean := by
  obtain ⟨_, hkind, hrest⟩ := Option.bind_eq_some_iff.1 h
  obtain ⟨id, hid, hentry⟩ := Option.bind_eq_some_iff.1 hrest
  obtain ⟨hclass, hdeclaration⟩ := beanNode?_javaRegistry hid
  obtain rfl := Option.some.inj hentry
  have hcall : call.kind = "method_invocation" := beq_iff_eq.1 ((Option.guard_eq_some' _).1 hkind)
  constructor
  case method => exact methodName?_of_beanClass? hcall hclass
  case line => rfl
  case className => exact ⟨id, hclass, rfl⟩
  case declaredAt => rw [← hdeclaration]

/-- The declared type that is the first with its simple name is also the first
with its qualified name. -/
theorem find?_qualifiedName (named : HasSimpleNames tree) {name : String}
    {p : ClassId × Declaration} (h : firstDeclared? tree name = some p) :
    (declarations tree.root).find? (fun declaration =>
      declaration.qualifiedName (packageName? tree.root) ==
        p.2.qualifiedName (packageName? tree.root)) = some p.2 := by
  obtain ⟨hsimple, front, back, hlist, hfirst⟩ := List.find?_eq_some_iff_append.1 h
  have hmem : ∀ q ∈ front ++ p :: back, q.2 ∈ declarations tree.root :=
    fun q hq => (List.of_mem_zip (hlist ▸ hq)).2
  have hname := (declaredName?_eq_some_iff named (hmem p (by simp))).1 (beq_iff_eq.1 hsimple)
  rw [← ClassIndex.map_snd_numbered, List.find?_map, hlist]
  refine Option.map_eq_some_iff.2 ⟨p, List.find?_eq_some_iff_append.2
    ⟨by simp, front, back, rfl, fun q hq => ?_⟩, rfl⟩
  have hother := hfirst q hq
  rw [Bool.not_eq_true', beq_eq_false_iff_ne, Ne,
    declaredName?_eq_some_iff named (hmem q (by simp [hq])), ← hname] at hother
  simpa using fun heq => hother (congrArg _ heq)

/-- The line of a bean entry is that of the first declaration with the name that
is shown. -/
theorem declaredAt?_eq (named : HasSimpleNames tree) {settings : Settings} {file : String}
    {bean : BeanUse} (h : bean ∈ (ofTree settings file tree).beans) :
    bean.declaredAt? = ((declarations tree.root).find? fun declaration =>
      declaration.qualifiedName (packageName? tree.root) == bean.className).map
        (·.node.line) := by
  obtain ⟨node, hnode, hbean⟩ := List.mem_filterMap.1 h
  obtain ⟨-, -, ⟨id, hid, hclass⟩, hline⟩ := beanAt?_eq_some hbean
  rw [beanClass?_eq named] at hid
  obtain ⟨name, hname, hfound⟩ := Option.bind_eq_some_iff.1 hid
  rw [hline, beanNode?_eq named hnode, hname, Option.bind_some]
  cases hfirst : firstDeclared? tree name with
  | some p =>
    obtain rfl : p.1 = id := by simpa [hfirst] using hfound
    have hp := List.mem_of_find?_eq_some hfirst
    rw [hclass, map_shownName (ClassIndex.nameOf?_ofTree hp), Option.getD_some, find?_qualifiedName named hfirst]
    rfl
  | none =>
    rw [hfirst] at hfound
    obtain ⟨qualified, hqualified, hsimple⟩ := exists_nameOf?_of_findBySimpleName? hfound
    rw [hclass, map_shownName hqualified, Option.getD_some, List.find?_eq_none.2]
    · rfl
    · intro declaration hmem heq
      exact firstDeclared?_ne_none named hmem (by rw [beq_iff_eq.1 heq, hsimple]) hfirst

/-- Where every declaration has a name without a dot, the two look-ups of a bean
reference go together: a declaration is found exactly if the number that the
class index gave to it is found, and where none is found, neither is the number
of a declared type.  So an entry of a report has a line exactly if the file declares
a type with the name that is shown, and the line is that of its declaration. -/
theorem bean_lookups_agree (tree : Tree) (named : HasSimpleNames tree) :
    (∀ enabled, ∀ node ∈ tree.nodes,
      (∀ found, (recognizer enabled (ClassIndex.ofTree tree)).beanNode? node = some found ↔
        ∃ p ∈ ClassIndex.numbered tree, p.2.node = found ∧
          (recognizer enabled (ClassIndex.ofTree tree)).beanClass? node = some p.1) ∧
      ((recognizer enabled (ClassIndex.ofTree tree)).beanNode? node = none →
        ∀ id, (recognizer enabled (ClassIndex.ofTree tree)).beanClass? node = some id →
          id ∉ (ClassIndex.ofTree tree).declared)) ∧
    ∀ settings file, ∀ bean ∈ (ofTree settings file tree).beans,
      bean.declaredAt? = ((declarations tree.root).find? fun declaration =>
        declaration.qualifiedName (packageName? tree.root) == bean.className).map
          (·.node.line) := by
  refine ⟨fun enabled node hnode => ⟨fun found => ?_, fun hnone id hid => ?_⟩,
    fun settings file bean hbean => declaredAt?_eq named hbean⟩
  · exact beanNode?_eq_some_iff named hnode
  · exact not_mem_declared_of_beanNode?_eq_none named hnode hnone hid

/-- A reference to a bean of the class `Expression`, in a file that declares a
class of this name only further down. -/
def shadowingCall : Node where
  tree := .node ⟨"method_invocation", true, "bean(Expression.class)", 21, 1, none⟩
    [.node ⟨"identifier", true, "bean", 21, 1, some "name"⟩ [],
      .node ⟨"argument_list", true, "(Expression.class)", 25, 1, some "arguments"⟩
        [.node ⟨"class_literal", true, "Expression.class", 26, 1, none⟩
          [.node ⟨"type_identifier", true, "Expression", 26, 1, none⟩ []]]]
  path :=
    [⟨⟨"class_declaration", true, "class Routes …", 0, 0, none⟩,
        [.node ⟨"identifier", true, "Routes", 6, 0, some "name"⟩ []], []⟩,
      ⟨⟨"program", true, "class Routes … class Expression …", 0, 0, none⟩, [],
        [.node ⟨"class_declaration", true, "class Expression …", 46, 2, none⟩
          [.node ⟨"identifier", true, "Expression", 52, 2, some "name"⟩ []]]⟩]

/-- The file that the reference stands in. -/
def shadowingFile : Tree := shadowingCall.root.tree

theorem hasSimpleNames_shadowingFile : HasSimpleNames shadowingFile := by
  intro node hnode declares
  rw [Tree.nodes_eq_preorder] at hnode
  simp only [shadowingFile, shadowingCall, Node.root, Node.top, Frame.plug, List.reverse_cons,
    List.reverse_nil, List.nil_append, List.cons_append, Tree.preorder, Tree.forestPreorder,
    List.append_nil, List.mem_cons, List.not_mem_nil, or_false] at hnode
  rcases hnode with rfl | rfl | rfl | rfl | rfl | rfl | rfl | rfl | rfl | rfl
  all_goals first
    | exact absurd declares (by decide)
    | exact ⟨_, rfl, by decide⟩

/-- The class of the file goes before that of Camel with the same simple name. -/
theorem bean_lookups_agree_shadowing :
    HasSimpleNames shadowingFile ∧
      ∃ p ∈ ClassIndex.numbered shadowingFile, p.2.node.line = 3 ∧
        (recognizer true (ClassIndex.ofTree shadowingFile)).beanClass? shadowingCall =
          some p.1 := by
  refine ⟨hasSimpleNames_shadowingFile, ?_⟩
  have hcall : shadowingCall ∈ shadowingFile.nodes := Tree.mem_nodes_iff.2 rfl
  have hline : (beanNode? shadowingCall).map (·.line) = some 3 := by
    unfold beanNode?
    rw [Node.descendants_eq_preorder]
    decide
  obtain ⟨found, hfound, hthird⟩ := Option.map_eq_some_iff.1 hline
  have hlookups := (bean_lookups_agree shadowingFile hasSimpleNames_shadowingFile).1 true
    shadowingCall hcall
  obtain ⟨p, hp, rfl, hclass⟩ := (hlookups.1 found).1 hfound
  exact ⟨p, hp, hthird, hclass⟩

end RouteScope.Report
