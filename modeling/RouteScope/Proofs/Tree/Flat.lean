import RouteScope.Proofs.Text.Bytes
import RouteScope.Proofs.Tree.Preorder
import RouteScope.Tree.Flat

/-!
# What a flat tree spells

The nodes of a flat tree stand in document order, and so do those of the tree that is
put together from it: it has the same labels in the same order, none of them left out
or made up.  The text of a label is what the source has between the bounds of its
node.

* `labels_ofFlat?`: the labels of a tree that has been put together.
* `exists_mem_of_mem_nodes`: the flat node that a node of the tree comes from.
* `FlatNode.Covers.text_label`: the text of a label.
-/

namespace RouteScope

open RouteScope.Tree (preorder forestPreorder)

/-! ## Labels in document order -/

namespace Tree

mutual

/-- The labels of a tree in document order. -/
def labels : Tree → List Label
  | node label children => label :: forestLabels children

/-- The labels of a list of trees, one tree behind the other. -/
def forestLabels : List Tree → List Label
  | [] => []
  | tree :: trees => labels tree ++ forestLabels trees

end

@[simp] theorem labels_node (label : Label) (children : List Tree) :
    (node label children).labels = label :: forestLabels children := rfl

@[simp] theorem forestLabels_nil : forestLabels [] = [] := rfl

@[simp] theorem forestLabels_cons (tree : Tree) (trees : List Tree) :
    forestLabels (tree :: trees) = tree.labels ++ forestLabels trees := rfl

@[simp] theorem forestLabels_append (trees others : List Tree) :
    forestLabels (trees ++ others) = forestLabels trees ++ forestLabels others := by
  induction trees with
  | nil => rfl
  | cons tree trees ih => simp [ih]

mutual

/-- The nodes of a tree have its labels, wherever the tree stands. -/
theorem map_label_preorder (path : List Frame) : ∀ tree : Tree,
    (preorder path tree).map (·.tree.label) = tree.labels
  | .node label children => by
    rw [preorder, List.map_cons, map_label_forestPreorder label path [] children]
    rfl

theorem map_label_forestPreorder (label : Label) (path : List Frame) (before : List Tree) :
    ∀ trees : List Tree,
      (forestPreorder label path before trees).map (·.tree.label) = forestLabels trees
  | [] => rfl
  | tree :: after => by
    rw [forestPreorder, List.map_append, map_label_preorder _ tree,
      map_label_forestPreorder label path (tree :: before) after, forestLabels_cons]

end

theorem map_label_nodes (tree : Tree) : tree.nodes.map (·.tree.label) = tree.labels := by
  rw [nodes_eq_preorder, map_label_preorder]

/-! ## Putting a tree together -/

/-- A node comes to stand in front of the labels that wait. -/
theorem forestLabels_gather (source : List Char) (flat : FlatNode × Nat)
    (waiting : List (Option Nat × Tree)) :
    forestLabels ((gather source flat waiting).map (·.2)) =
      flat.1.label source :: forestLabels (waiting.map (·.2)) := by
  have hspan : waiting.takeWhile (·.1 == some flat.2) ++
      waiting.dropWhile (·.1 == some flat.2) = waiting := List.takeWhile_append_dropWhile
  simp only [gather, List.span_eq_takeWhile_dropWhile, List.map_cons, forestLabels_cons,
    labels_node, List.cons_append]
  rw [← forestLabels_append, ← List.map_append, hspan]

theorem forestLabels_foldr_gather (source : List Char) (flat : List (FlatNode × Nat)) :
    forestLabels ((flat.foldr (gather source) []).map (·.2)) =
      flat.map fun node => node.1.label source := by
  induction flat with
  | nil => rfl
  | cons node flat ih => rw [List.foldr_cons, forestLabels_gather, ih, List.map_cons]

variable {source : String} {flat : List FlatNode} {tree : Tree}

/-- The tree has the labels of the flat tree, in the same order. -/
theorem labels_ofFlat? (h : ofFlat? source flat = some tree) :
    tree.labels = flat.map (·.label source.toList) := by
  have hlabels := forestLabels_foldr_gather source.toList flat.zipIdx
  unfold ofFlat? at h
  split at h
  · rename_i top hwaiting
    obtain rfl := Option.some.inj h
    rw [hwaiting] at hlabels
    calc top.labels = forestLabels [top] := (List.append_nil _).symm
      _ = flat.zipIdx.map fun node => node.1.label source.toList := hlabels
      _ = (flat.zipIdx.map Prod.fst).map (·.label source.toList) := by
        rw [List.map_map]
        rfl
      _ = flat.map (·.label source.toList) := by rw [List.zipIdx_map_fst]
  · exact absurd h (Option.some_ne_none tree).symm

/-- Every node of the tree comes from one of the flat tree. -/
theorem exists_mem_of_mem_nodes (h : ofFlat? source flat = some tree) {node : Node}
    (hnode : node ∈ tree.nodes) :
    ∃ origin ∈ flat, origin.label source.toList = node.tree.label := by
  have hlabel := List.mem_map_of_mem (f := fun place : Node => place.tree.label) hnode
  rw [map_label_nodes, labels_ofFlat? h] at hlabel
  exact List.mem_map.1 hlabel

end Tree

/-! ## The text of a label -/

namespace FlatNode

/-- The source has the text between the bounds of the node. -/
def Covers (source text : String) (node : FlatNode) : Prop :=
  ∃ before after, source = before ++ text ++ after ∧ node.start = before.utf8ByteSize ∧
    node.stop = node.start + text.utf8ByteSize

theorem Covers.text_label {source text : String} {node : FlatNode}
    (h : node.Covers source text) : (node.label source.toList).text = text := by
  obtain ⟨before, after, rfl, hstart, hstop⟩ := h
  have hrange : Text.byteRange? (before ++ text ++ after).toList node.start node.stop =
      some text.toList := by
    refine Text.byteRange?_eq_some_iff.2 ⟨before.toList, after.toList, ?_, ?_, ?_⟩
    · rw [String.toList_append, String.toList_append]
    · rw [Text.byteLength_toList, hstart]
    · rw [Text.byteLength_toList, hstop]
  rw [label, hrange, Option.getD_some, String.ofList_toList]

end FlatNode

end RouteScope
