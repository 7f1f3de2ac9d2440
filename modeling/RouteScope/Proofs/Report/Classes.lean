import RouteScope.Proofs.Java.ExpressionClass
import RouteScope.Report.Scan

/-!
# Classes in a report

A report lists the declared types that are expressions.  They are shown in
document order under their qualified names, whatever the settings are, and
which of them are listed depends on the file alone.
-/

namespace RouteScope.Report

open Java

variable {tree : Tree}

/-- A class of the index is shown under its qualified name. -/
theorem map_shownName {graph : ClassGraph} {id : ClassId} {name : String}
    (h : graph.nameOf? id = some name) : (graph.get? id).map shownName = some name := by
  obtain ⟨entry, found, hname⟩ := Option.bind_eq_some_iff.1 h
  simp [found, shownName, hname]

/-- The declared types of a kind are shown in document order. -/
theorem map_shownName_declaredEntries (tree : Tree) (isListed : ClassId → Bool) :
    ((ClassIndex.ofTree tree).declaredEntries.filter fun (id, _) => isListed id).map
        (fun (_, entry) => shownName entry) =
      ((ClassIndex.numbered tree).filter fun p => isListed p.1).map fun p =>
        p.2.qualifiedName (packageName? tree.root) := by
  have hshown (p) (hp : p ∈ ClassIndex.numbered tree) :=
    map_shownName (ClassIndex.nameOf?_ofTree hp)
  rw [ClassIndex.declaredEntries, ← ClassIndex.map_fst_numbered]
  generalize ClassIndex.numbered tree = numbered at hshown ⊢
  induction numbered with
  | nil => rfl
  | cons p rest ih =>
    obtain ⟨entry, found, hname⟩ := Option.map_eq_some_iff.1 (hshown p List.mem_cons_self)
    have hrest := ih fun q hq => hshown q (List.mem_cons_of_mem _ hq)
    cases hlisted : isListed p.1 <;> simpa [found, hlisted, hname] using hrest

open Classical in
/-- The expression classes in a report are the declared types in
`IsExpressionClass`, in document order.  No class that is neither known nor
declared is an expression, and no group of declared types becomes one by what
its members refer to among themselves. -/
theorem expressionClasses_eq (settings : Settings) (file : String) (tree : Tree) :
    (ofTree settings file tree).expressionClasses =
        ((ClassIndex.numbered tree).filter fun p => IsExpressionClass tree p.1).map
          (fun p => p.2.qualifiedName (packageName? tree.root)) ∧
      (∀ id, Camel.graph.size ≤ id → id ∉ (ClassIndex.ofTree tree).declared →
        (ClassIndex.ofTree tree).graph.isExpressionType (some id) = false) ∧
      ∀ group : ClassId → Prop,
        (∀ p ∈ ClassIndex.numbered tree, group p.1 →
          p.2.qualifiedName (packageName? tree.root) ∉ Camel.expressionTypes ∧
          ∀ super, p.2.RefersTo tree super → ¬ Camel.IsExpression super ∧
            (super ∈ (ClassIndex.ofTree tree).declared → group super)) →
        ∀ id, group id → ¬ IsExpressionClass tree id := by
  refine ⟨?_, fun id hge hnot => ?_, fun group closed id inside =>
    not_isExpressionClass_of_group group closed inside⟩
  · have hlisted := map_shownName_declaredEntries tree fun id =>
      (ClassIndex.ofTree tree).graph.isExpressionType (some id)
    refine hlisted.trans (congrArg _ (List.filter_congr fun p hp => ?_))
    have hdeclared := (ClassIndex.mem_declared_iff.1 (List.of_mem_zip hp).1).1
    rw [Bool.eq_iff_iff, ClassIndex.isExpressionType_ofTree_iff, decide_eq_true_iff]
    exact or_iff_right fun hknown => absurd hknown.1 (Nat.not_lt.2 hdeclared)
  · rw [← Bool.not_eq_true, ClassIndex.isExpressionType_ofTree_iff]
    rintro (hknown | hclass)
    · exact absurd hknown.1 (Nat.not_lt.2 hge)
    · exact hnot hclass.mem_declared

end RouteScope.Report
