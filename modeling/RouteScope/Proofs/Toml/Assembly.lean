import Mathlib.Data.List.Nodup
import RouteScope.Toml.Reader

/-!
# Putting tables together

A document whose headers name distinct tables, each of them with distinct keys,
defines these tables and nothing else.  The steps are fresh entries: a header
adds an empty table behind all others, and an assignment adds a value behind
those of the last table.
-/

namespace RouteScope.Toml

/-- A table with a header: its key and its values by key. -/
abbrev Section := String × List (String × Value)

/-- The header and the assignments of a table. -/
def Section.statements : Section → List Statement
  | (key, values) => .table [] key :: values.map fun (name, value) => .assign [] name value

/-- The values as entries of a table under construction. -/
def valueItems (values : List (String × Value)) : Entries :=
  values.map fun (name, value) => (name, .value value)

/-- The table as an entry of the document under construction. -/
def Section.item : Section → String × Item
  | (key, values) => (key, .table .header (valueItems values))

/-- The keys of the tables are distinct, and so are the keys in each of them. -/
structure DistinctKeys (sections : List Section) : Prop where
  outer : (sections.map Prod.fst).Nodup
  inner : ∀ part ∈ sections, (part.2.map Prod.fst).Nodup

namespace Entries

theorem alter_append {key : String} (change : Option Item → Option Item) {front : Entries}
    (hkey : key ∉ front.map Prod.fst) (back : Entries) :
    alter key change (front ++ back) = (alter key change back).map (front ++ ·) := by
  induction front with
  | nil => simp
  | cons entry front ih =>
      obtain ⟨other, item⟩ := entry
      simp only [List.map_cons, List.mem_cons, not_or] at hkey
      rw [List.cons_append, alter, if_neg (Ne.symm hkey.1), ih hkey.2, Option.map_map]
      rfl

theorem alter_fresh {key : String} (change : Option Item → Option Item) {entries : Entries}
    (hkey : key ∉ entries.map Prod.fst) :
    alter key change entries = (change none).map fun item => entries ++ [(key, item)] := by
  have halter := alter_append change hkey []
  rw [List.append_nil] at halter
  rw [halter, alter, Option.map_map]
  rfl

/-- A new table comes behind all entries. -/
theorem openTable_fresh {key : String} {entries : Entries}
    (hkey : key ∉ entries.map Prod.fst) :
    openTable [] key entries = some (entries ++ [(key, .table .header [])]) := by
  rw [openTable, modifyAt, alter_fresh _ hkey]
  rfl

/-- A new value comes behind those of the last table. -/
theorem assignAt_fresh {key name : String} {front below : Entries} (value : Value)
    (hkey : key ∉ front.map Prod.fst) (hname : name ∉ below.map Prod.fst) :
    assignAt [key] [] name value (front ++ [(key, .table .header below)]) =
      some (front ++ [(key, .table .header (below ++ [(name, .value value)]))]) := by
  have hassign : assign [] name value below = some (below ++ [(name, .value value)]) := by
    rw [assign, modifyAt, if_pos (.inl rfl), alter_fresh _ hname]
    rfl
  rw [assignAt, modifyAt, alter_append _ hkey, alter, if_pos rfl]
  simp [modifyAt, hassign]

end Entries

/-- Assignments with fresh keys come behind the values of the table that is
open. -/
theorem assemble_values {key : String} {front : Entries} (hkey : key ∉ front.map Prod.fst)
    (below : Entries) (values : List (String × Value))
    (hnames : (below.map Prod.fst ++ values.map Prod.fst).Nodup) (statements : List Statement) :
    assemble [key] (front ++ [(key, .table .header below)])
        ((values.map fun (name, value) => .assign [] name value) ++ statements) =
      assemble [key] (front ++ [(key, .table .header (below ++ valueItems values))])
        statements := by
  induction values generalizing below with
  | nil => simp [valueItems]
  | cons entry values ih =>
      obtain ⟨name, value⟩ := entry
      have hname : name ∉ below.map Prod.fst := by
        intro hmem
        exact (List.nodup_append.1 hnames).2.2 name hmem name (by simp) rfl
      have hnext := ih (below ++ [(name, .value value)]) (by simpa using hnames)
      rw [List.map_cons, List.cons_append, assemble, Entries.assignAt_fresh value hkey hname]
      simpa [valueItems] using hnext

/-- Tables with fresh keys come behind all entries. -/
theorem assemble_statements (table : List String) (front : Entries) {sections : List Section}
    (houter : (front.map Prod.fst ++ sections.map Prod.fst).Nodup)
    (hinner : ∀ part ∈ sections, (part.2.map Prod.fst).Nodup) :
    assemble table front (sections.flatMap Section.statements) =
      some (front ++ sections.map Section.item) := by
  induction sections generalizing table front with
  | nil => simp [assemble]
  | cons part sections ih =>
      obtain ⟨key, values⟩ := part
      have hkey : key ∉ front.map Prod.fst := by
        intro hmem
        exact (List.nodup_append.1 houter).2.2 key hmem key (by simp) rfl
      have hvalues := assemble_values hkey [] values
        (by simpa using hinner (key, values) List.mem_cons_self)
        (sections.flatMap Section.statements)
      have hrest := ih [key] (front ++ [(key, .table .header (valueItems values))])
        (by simpa using houter) (fun part hpart => hinner part (List.mem_cons_of_mem _ hpart))
      rw [List.flatMap_cons, Section.statements, List.cons_append, assemble,
        Entries.openTable_fresh hkey]
      refine hvalues.trans ?_
      rw [List.nil_append, hrest]
      simp [Section.item]

theorem finishEntries_valueItems (values : List (String × Value)) :
    finishEntries (valueItems values) = values := by
  induction values with
  | nil => rfl
  | cons entry values ih =>
      change (entry.1, entry.2) :: finishEntries (valueItems values) = entry :: values
      rw [ih]

theorem finishEntries_map_item (sections : List Section) :
    finishEntries (sections.map Section.item) =
      sections.map fun (key, values) => (key, .table values) := by
  induction sections with
  | nil => rfl
  | cons part sections ih =>
      rw [List.map_cons, List.map_cons, Section.item, finishEntries, ih, Item.finish,
        finishEntries_valueItems]

/-- The tables are put together as their headers and assignments tell. -/
theorem map_finishEntries_assemble {sections : List Section} (hkeys : DistinctKeys sections) :
    (assemble [] [] (sections.flatMap Section.statements)).map finishEntries =
      some (sections.map fun (key, values) => (key, .table values)) := by
  rw [assemble_statements [] [] (by simpa using hkeys.outer) hkeys.inner, List.nil_append,
    Option.map_some, finishEntries_map_item]

end RouteScope.Toml
