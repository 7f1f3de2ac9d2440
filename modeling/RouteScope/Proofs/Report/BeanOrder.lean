import RouteScope.Proofs.Report.Beans
import RouteScope.Proofs.Tree.Order

/-!
# Order of bean entries

The bean entries of a report match the calls of `bean` one by one, in document
order, and show the lines on which the calls begin.  In a chain of calls, each
call is a part of the next one, in front of its name.  So the whole chain begins
at one place, the last call is the first one in document order, and entries for
calls of one chain come in the reverse order of their names.

* `showsBean_beanCalls`: the calls that have an entry.
* `nameBefore_iff`: when the names of two calls stand in document order.
* `beans_follow_names_iff`: when the entries come in the order of the names, and
  when they show the lines of these.
-/

namespace RouteScope.Report

open Java

/-- Whether a report has a bean entry for the call. -/
def reportsBean (settings : Settings) (tree : Tree) (call : Node) : Bool :=
  call.kind == "method_invocation" && settings.recognizers.java &&
    (beanClass? (ClassIndex.ofTree tree) call).isSome

/-- The calls that a report has bean entries for, in document order. -/
def beanCalls (settings : Settings) (tree : Tree) : List Node :=
  tree.nodes.filter (reportsBean settings tree)

/-- The name of the one call stands before that of the other. -/
def NameBefore (call other : Node) : Prop :=
  ∃ name otherName, call.field? "name" = some name ∧ other.field? "name" = some otherName ∧
    name.index < otherName.index

/-- The inner call is a part of the other one, in front of its name. -/
def IsChainedOn (call inner : Node) : Prop :=
  call ∈ Ancestry.ancestors inner ∧
    ∃ name, call.field? "name" = some name ∧ inner.index < name.index

/-- The entry shows the line of the name of the call. -/
def ShowsNameLine (call : Node) (bean : BeanUse) : Prop :=
  ∃ name, call.field? "name" = some name ∧ bean.line = name.line

variable {settings : Settings} {tree : Tree} {call other : Node}

/-! ## Calls with an entry -/

theorem isSome_beanAt? : (beanAt? (javaRegistry settings (ClassIndex.ofTree tree))
    (ClassIndex.ofTree tree).graph call).isSome = reportsBean settings tree call := by
  unfold beanAt? reportsBean
  rw [value_beanClass?_eq]
  cases call.kind == "method_invocation" with
  | false => rfl
  | true =>
    cases settings.recognizers.java with
    | false => rfl
    | true =>
      cases beanClass? (ClassIndex.ofTree tree) call with
      | none => rfl
      | some id => rfl

/-- The entries of a report match the calls that have one. -/
theorem showsBean_beanCalls (settings : Settings) (file : String) (tree : Tree) :
    List.Forall₂ (ShowsBean tree) (beanCalls settings tree) (ofTree settings file tree).beans := by
  have hentry : ∀ call ∈ tree.nodes, reportsBean settings tree call = true ↔
      (beanAt? (javaRegistry settings (ClassIndex.ofTree tree)) (ClassIndex.ofTree tree).graph
        call).isSome = true := fun call _ => by rw [isSome_beanAt?]
  have hmatch := forall₂_filterMap hentry fun call bean => beanAt?_eq_some
  simp only [Bool.decide_eq_true] at hmatch
  exact hmatch

/-- A call with an entry has a name. -/
theorem exists_name_of_mem_beanCalls (h : call ∈ beanCalls settings tree) :
    call ∈ tree.nodes ∧ ∃ name, call.field? "name" = some name ∧ name.text = "bean" := by
  obtain ⟨hnode, hreports⟩ := List.mem_filter.1 h
  rw [reportsBean, Bool.and_eq_true, Bool.and_eq_true] at hreports
  obtain ⟨id, hid⟩ := Option.isSome_iff_exists.1 hreports.2
  exact ⟨hnode, Option.map_eq_some_iff.1
    (methodName?_of_beanClass? (beq_iff_eq.1 hreports.1.1) hid)⟩

/-! ## Order -/

/-- What a call is chained on comes behind it in document order. -/
theorem IsChainedOn.index_lt (h : IsChainedOn call other) : call.index < other.index :=
  Node.index_lt_of_mem_ancestors h.1

theorem nameBefore_iff_index {name otherName : Node} (hname : call.field? "name" = some name)
    (hotherName : other.field? "name" = some otherName) :
    NameBefore call other ↔ name.index < otherName.index := by
  constructor
  · rintro ⟨first, second, hfirst, hsecond, hlt⟩
    obtain rfl := Option.some.inj (hname.symm.trans hfirst)
    obtain rfl := Option.some.inj (hotherName.symm.trans hsecond)
    exact hlt
  · exact fun hlt => ⟨name, otherName, hname, hotherName, hlt⟩

theorem isChainedOn_iff_index {name : Node} (hname : call.field? "name" = some name) :
    IsChainedOn call other ↔ call ∈ Ancestry.ancestors other ∧ other.index < name.index := by
  constructor
  · rintro ⟨habove, token, htoken, hlt⟩
    obtain rfl := Option.some.inj (hname.symm.trans htoken)
    exact ⟨habove, hlt⟩
  · exact fun ⟨habove, hlt⟩ => ⟨habove, name, hname, hlt⟩

/-- Of two calls in document order, the names stand in this order too, unless the
first call is chained on the second. -/
theorem nameBefore_iff (hcall : call ∈ beanCalls settings tree)
    (hother : other ∈ beanCalls settings tree) (hlt : call.index < other.index) :
    NameBefore call other ↔ ¬ IsChainedOn call other := by
  obtain ⟨hnode, name, hname, -⟩ := exists_name_of_mem_beanCalls hcall
  obtain ⟨hotherNode, otherName, hotherName, -⟩ := exists_name_of_mem_beanCalls hother
  rw [nameBefore_iff_index hname hotherName, isChainedOn_iff_index hname]
  exact Node.index_lt_index_iff_of_parent? hnode hotherNode hlt (Node.parent?_of_field? hname)
    (Node.parent?_of_field? hotherName)

theorem pairwise_index_beanCalls (settings : Settings) (tree : Tree) :
    (beanCalls settings tree).Pairwise fun first second => first.index < second.index :=
  (Tree.pairwise_index_nodes tree).filter _

theorem pairwise_nameBefore_iff (settings : Settings) (tree : Tree) :
    (beanCalls settings tree).Pairwise NameBefore ↔
      ∀ call ∈ beanCalls settings tree, ∀ inner ∈ beanCalls settings tree,
        ¬ IsChainedOn call inner := by
  rw [Tree.pairwise_iff_of_index (pairwise_index_beanCalls settings tree)]
  refine forall₄_congr fun call hcall inner hinner => ?_
  constructor
  · exact fun h hchained => (nameBefore_iff hcall hinner hchained.index_lt).1
      (h hchained.index_lt) hchained
  · exact fun h hlt => (nameBefore_iff hcall hinner hlt).2 h

/-! ## Lines -/

theorem forall₂_showsNameLine_iff (settings : Settings) (file : String) (tree : Tree) :
    List.Forall₂ ShowsNameLine (beanCalls settings tree) (ofTree settings file tree).beans ↔
      ∀ call ∈ beanCalls settings tree, ∀ name, call.field? "name" = some name →
        name.line = call.line := by
  refine forall₂_iff_forall_mem (showsBean_beanCalls settings file tree) fun call bean shows => ?_
  obtain ⟨name, hname, -⟩ := Option.map_eq_some_iff.1 shows.method
  constructor
  · rintro ⟨token, htoken, hline⟩ other hother
    obtain rfl := Option.some.inj (htoken.symm.trans hother)
    rw [← hline, shows.line]
  · exact fun hline => ⟨name, hname, by rw [shows.line, hline name hname]⟩

/-- The bean entries of a report match the calls of `bean` that refer to one, in
document order.  They come in the order of the names of these calls exactly if none of
the calls is chained on another, and they show the lines of the names exactly if
each call begins on the line of its name. -/
theorem beans_follow_names_iff (settings : Settings) (file : String) (tree : Tree) :
    List.Forall₂ (ShowsBean tree) (beanCalls settings tree) (ofTree settings file tree).beans ∧
    ((beanCalls settings tree).Pairwise NameBefore ↔
      ∀ call ∈ beanCalls settings tree, ∀ inner ∈ beanCalls settings tree,
        ¬ IsChainedOn call inner) ∧
    (List.Forall₂ ShowsNameLine (beanCalls settings tree) (ofTree settings file tree).beans ↔
      ∀ call ∈ beanCalls settings tree, ∀ name, call.field? "name" = some name →
        name.line = call.line) :=
  ⟨showsBean_beanCalls settings file tree, pairwise_nameBefore_iff settings tree,
    forall₂_showsNameLine_iff settings file tree⟩

/-- The chain of calls `a.bean(A.class).bean(B.class)`, with the three parts on three
lines. -/
def chainedBeans : Tree :=
  .node ⟨"method_invocation", true, "a\n.bean(A.class)\n.bean(B.class)", 26, 0, none⟩
    [.node ⟨"method_invocation", true, "a\n.bean(A.class)", 26, 0, some "object"⟩
      [.node ⟨"identifier", true, "a", 26, 0, some "object"⟩ [],
        .node ⟨".", false, ".", 28, 1, none⟩ [],
        .node ⟨"identifier", true, "bean", 29, 1, some "name"⟩ [],
        .node ⟨"argument_list", true, "(A.class)", 33, 1, some "arguments"⟩
          [.node ⟨"class_literal", true, "A.class", 34, 1, none⟩
            [.node ⟨"type_identifier", true, "A", 34, 1, none⟩ []]]],
      .node ⟨".", false, ".", 43, 2, none⟩ [],
      .node ⟨"identifier", true, "bean", 44, 2, some "name"⟩ [],
      .node ⟨"argument_list", true, "(B.class)", 48, 2, some "arguments"⟩
        [.node ⟨"class_literal", true, "B.class", 49, 2, none⟩
          [.node ⟨"type_identifier", true, "B", 49, 2, none⟩ []]]]

/-- A file with the classes `A` and `B`, and the chain of calls in a method of `B`. -/
def chainedBeansFile : Tree :=
  .node ⟨"program", true, "class A\x7b\x7dclass B\x7bvoid f()…\x7d", 0, 0, none⟩
    [.node ⟨"class_declaration", true, "class A\x7b\x7d", 0, 0, none⟩
      [.node ⟨"identifier", true, "A", 6, 0, some "name"⟩ []],
      .node ⟨"class_declaration", true, "class B\x7bvoid f()…\x7d", 9, 0, none⟩
        [.node ⟨"identifier", true, "B", 15, 0, some "name"⟩ [],
          .node ⟨"class_body", true, "\x7bvoid f()…\x7d", 16, 0, some "body"⟩
            [.node ⟨"method_declaration", true, "void f()…", 17, 0, none⟩
              [.node ⟨"identifier", true, "f", 22, 0, some "name"⟩ [],
                .node ⟨"block", true, "\x7ba\n.bean(A.class)\n.bean(B.class);\x7d", 25, 0,
                    some "body"⟩
                  [.node ⟨"expression_statement", true, "a\n.bean(A.class)\n.bean(B.class);", 26,
                      0, none⟩ [chainedBeans]]]]]]

/-- The bean `B` is listed first, both entries show the first line, and the names of
the two calls stand on the third line and on the second. -/
theorem beans_chainedBeansFile :
    (ofTree {} "B.java" chainedBeansFile).beans =
      [{ line := 1, className := "B", declaredAt? := some 1 },
        { line := 1, className := "A", declaredAt? := some 1 }] ∧
    (beanCalls {} chainedBeansFile).map (fun call =>
      (call.field? "name").map fun name => (name.index, name.line)) =
        [some (19, 3), some (14, 2)] := by
  constructor
  · unfold ofTree ofNodes beanAt?
    simp only [value_beanClass?_eq, value_beanNode?_eq, beanNode?, Node.descendants_eq_preorder,
      Tree.nodes_eq_preorder, ClassIndex.ofTree, declarations_root_eq]
    decide
  · unfold beanCalls reportsBean
    simp only [Tree.nodes_eq_preorder, ClassIndex.ofTree, declarations_root_eq]
    decide

end RouteScope.Report
