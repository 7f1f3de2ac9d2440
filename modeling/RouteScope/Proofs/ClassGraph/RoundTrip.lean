import RouteScope.ClassGraph.Json
import RouteScope.Proofs.ClassGraph.Derivation
import RouteScope.Proofs.Json.Record

/-!
# Class graphs handed over

A class graph is handed over as JSON text.  Both printers write a text that reads
back as the same graph, so whatever is asked about the graph has the same answer
on the other side.  The graph may be any list of descriptors: references may
dangle or lead in circles, and names may be any texts.

Numbers of classes are the only limit.  A reader takes those below 2⁶⁴, and a
larger one, which no class can have, would not be read.

* `ClassEntry.ofJson?_toJson`: one descriptor.
* `ClassGraph.read_toJson`: a whole graph.
-/

namespace RouteScope

open Json

/-! ## References and methods -/

theorem TypeRef.isPlain_toJson (ref : TypeRef) : IsPlain ref.toJson := by
  cases ref with
  | resolved id => exact .record (List.forall_mem_singleton.2 (.natural id))
  | unresolved name => exact .record (List.forall_mem_singleton.2 (.text name))

theorem TypeRef.toJson_ne_null (ref : TypeRef) : ref.toJson ≠ .null := by
  cases ref <;> exact Json.noConfusion

/-- A reference is read back if its number is below the limit. -/
theorem TypeRef.ofJson?_toJson {ref : TypeRef}
    (bounded : ∀ id, ref = .resolved id → id < UInt64.size) : ofJson? ref.toJson = some ref := by
  cases ref with
  | unresolved name => rfl
  | resolved id =>
    have hid : ClassId.ofJson? (natural id) = some id := by
      rw [ClassId.ofJson?, natural?_natural, Option.filter_some, if_pos]
      exact decide_eq_true (bounded id rfl)
    show (ClassId.ofJson? (natural id)).map resolved = some (resolved id)
    rw [hid, Option.map_some]

theorem Method.isPlain_toJson (method : Method) : IsPlain method.toJson := by
  refine .record (List.forall_mem_cons.2 ⟨.text method.name, List.forall_mem_singleton.2 ?_⟩)
  exact isPlain_texts method.annotations

theorem Method.ofJson?_toJson (method : Method) : ofJson? method.toJson = some method := by
  have hfields := fields?_record [("name", text method.name),
    ("annotations", texts method.annotations)] (by simp)
  have hannotations : listFieldOf? Json.text? (some (texts method.annotations)) =
      some method.annotations := listOf?_texts _
  have hname : Json.text? (text method.name) = some method.name := rfl
  rw [toJson, ofJson?]
  simp only [List.map_cons, List.map_nil] at hfields
  simp only [hfields, Option.bind_eq_bind, Option.bind_some, hannotations, hname]
  rfl

/-! ## Descriptors -/

theorem ClassEntry.isPlain_toJson (entry : ClassEntry) : IsPlain entry.toJson := by
  refine .record fun member hmember => ?_
  simp only [List.mem_cons, List.not_mem_nil, or_false] at hmember
  rcases hmember with rfl | rfl | rfl | rfl | rfl | rfl
  · exact isPlain_optional .text _
  · exact isPlain_array_map TypeRef.isPlain_toJson _
  · exact isPlain_array_map TypeRef.isPlain_toJson _
  · exact isPlain_optional TypeRef.isPlain_toJson _
  · exact isPlain_texts _
  · exact isPlain_array_map Method.isPlain_toJson _

/-- A descriptor is read back if the numbers in it are below the limit. -/
theorem ClassEntry.ofJson?_toJson {entry : ClassEntry}
    (bounded : ∀ id, entry.HasSupertype id → id < UInt64.size) :
    ofJson? entry.toJson = some entry := by
  have hname : optionFieldOf? Json.text? (some (optional (entry.qualifiedName?.map text))) =
      some entry.qualifiedName? :=
    optionFieldOf?_optional (fun _ => Json.noConfusion) fun _ _ => rfl
  have himplemented : listFieldOf? TypeRef.ofJson?
      (some (array (entry.implemented.map TypeRef.toJson))) = some entry.implemented :=
    listOf?_array_map fun ref hmem => TypeRef.ofJson?_toJson fun id heq =>
      bounded id (.inl (heq ▸ hmem))
  have hextended : listFieldOf? TypeRef.ofJson?
      (some (array (entry.extended.map TypeRef.toJson))) = some entry.extended :=
    listOf?_array_map fun ref hmem => TypeRef.ofJson?_toJson fun id heq =>
      bounded id (.inr (.inl (heq ▸ hmem)))
  have hsuperclass : optionFieldOf? TypeRef.ofJson?
      (some (optional (entry.superclass?.map TypeRef.toJson))) = some entry.superclass? :=
    optionFieldOf?_optional TypeRef.toJson_ne_null fun ref hmem =>
      TypeRef.ofJson?_toJson fun id heq => bounded id (.inr (.inr (heq ▸ hmem)))
  have hannotations : listFieldOf? Json.text? (some (texts entry.annotations)) =
      some entry.annotations := listOf?_texts _
  have hmethods : listFieldOf? Method.ofJson? (some (array (entry.methods.map Method.toJson))) =
      some entry.methods :=
    listOf?_array_map fun method _ => Method.ofJson?_toJson method
  have hfields := fields?_record [
    ("qualified_name", optional (entry.qualifiedName?.map text)),
    ("implements", array (entry.implemented.map TypeRef.toJson)),
    ("extends", array (entry.extended.map TypeRef.toJson)),
    ("superclass", optional (entry.superclass?.map TypeRef.toJson)),
    ("annotations", texts entry.annotations),
    ("methods", array (entry.methods.map Method.toJson))] (by simp)
  simp only [List.map_cons, List.map_nil] at hfields
  rw [toJson, ofJson?]
  simp only [hfields, Option.bind_eq_bind, Option.bind_some, hname, himplemented, hextended,
    hsuperclass, hannotations, hmethods]
  rfl

/-! ## Class graphs -/

namespace ClassGraph

theorem isPlain_toJson (graph : ClassGraph) : IsPlain graph.toJson :=
  isPlain_array_map ClassEntry.isPlain_toJson _

theorem ofJson?_toJson {graph : ClassGraph}
    (bounded : ∀ entry ∈ graph.entries, ∀ id, entry.HasSupertype id → id < UInt64.size) :
    ofJson? graph.toJson = some graph := by
  have hentries : listOf? ClassEntry.ofJson? graph.toJson = some graph.entries :=
    listOf?_array_map fun entry hmem => ClassEntry.ofJson?_toJson (bounded entry hmem)
  rw [ofJson?, hentries]
  rfl

/-- A class graph reads back from its JSON text as it was, whether the text is
written with blanks or without, if the numbers that it refers to fit into 64 bits.
They need not be numbers of classes. -/
theorem read_toJson (graph : ClassGraph)
    (bounded : ∀ entry ∈ graph.entries, ∀ id, entry.HasSupertype id → id < UInt64.size) :
    read graph.toJson.compact = .ok graph ∧ read graph.toJson.pretty = .ok graph := by
  have hplain := isPlain_toJson graph
  constructor
  · rw [read, read?_compact hplain, Option.bind_some, ofJson?_toJson bounded]
  · rw [read, read?_pretty hplain, Option.bind_some, ofJson?_toJson bounded]

/-- A graph with the largest number that fits, dangling and circular references,
missing parts, and names that have to be escaped or lie beyond the first plane. -/
def awkwardGraph : ClassGraph where
  entries := [
    { qualifiedName? := some "a.\"B\\C\"\n\x00\x1f\x7f😀"
      implemented := [.resolved 18446744073709551615, .unresolved "", .resolved 0]
      extended := [.unresolved "null", .resolved 1]
      superclass? := some (.resolved 0)
      annotations := ["", "é\t\r\x08\x0c"]
      methods := [{ name := "" }, { name := "m\x0b", annotations := ["/", "\\u0041"] }] },
    {},
    { superclass? := some (.unresolved "Missing") }]

theorem read_toJson_awkward :
    (∀ entry ∈ awkwardGraph.entries, ∀ id, entry.HasSupertype id → id < UInt64.size) ∧
      read awkwardGraph.toJson.compact = .ok awkwardGraph ∧
        read awkwardGraph.toJson.pretty = .ok awkwardGraph := by
  have bounded : ∀ entry ∈ awkwardGraph.entries, ∀ id, entry.HasSupertype id →
      id < UInt64.size := by
    have hids : ∀ entry ∈ awkwardGraph.entries, ∀ id ∈ entry.supertypes.filterMap TypeRef.id?,
        id < UInt64.size := by
      decide
    exact fun entry hmem id h => hids entry hmem id (mem_supertypes_filterMap_iff.2 h)
  exact ⟨bounded, read_toJson awkwardGraph bounded⟩

end ClassGraph

end RouteScope
