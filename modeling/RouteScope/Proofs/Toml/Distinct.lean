import RouteScope.Proofs.Toml.Assembly

/-!
# No key twice

No table of a document has a key twice, however the table was put together: by
headers, by dotted keys or in one line.  A step of the construction changes one entry
or adds one whose key is new, and every path of a dotted key or a header ends in such
a step.

* `alter_cases`: what a step does to the entries.
* `HaveDistinctKeys.modifyAt`: a step at the end of a path keeps keys distinct.
* `HaveDistinctKeys.assemble`: so do all statements of a document.
* `hasDistinctKeys_of_readValue`, `hasDistinctKeys_of_read?`: values and documents
  that have been read.
* `lookup_eq_some_iff_mem`: where keys are distinct, a search finds what is there.
-/

namespace RouteScope.Toml

/-- No table in the value has a key twice. -/
inductive Value.HasDistinctKeys : Value → Prop where
  | scalar {value : Value} (noArray : ∀ items, value ≠ .array items)
      (noTable : ∀ entries, value ≠ .table entries) : HasDistinctKeys value
  | array {items : List Value} (inner : ∀ item ∈ items, HasDistinctKeys item) :
      HasDistinctKeys (.array items)
  | table {entries : List (String × Value)} (nodup : (entries.map Prod.fst).Nodup)
      (inner : ∀ entry ∈ entries, HasDistinctKeys entry.2) : HasDistinctKeys (.table entries)

mutual

/-- No table in the entry has a key twice. -/
inductive Item.HasDistinctKeys : Item → Prop where
  | value {value : Value} (h : value.HasDistinctKeys) : Item.HasDistinctKeys (.value value)
  | table {origin : Origin} {entries : Entries} (h : Entries.HaveDistinctKeys entries) :
      Item.HasDistinctKeys (.table origin entries)
  | tables {before : List Entries} {last : Entries}
      (hbefore : ∀ entries ∈ before, Entries.HaveDistinctKeys entries)
      (hlast : Entries.HaveDistinctKeys last) :
      Item.HasDistinctKeys (.tables before last)

/-- No key of the entries is there twice, nor one of a table in them. -/
inductive Entries.HaveDistinctKeys : Entries → Prop where
  | mk {entries : Entries} (nodup : (entries.map Prod.fst).Nodup)
      (inner : ∀ entry ∈ entries, Item.HasDistinctKeys entry.2) :
      Entries.HaveDistinctKeys entries

end

namespace Entries

/-! ## Steps -/

/-- A step changes the entry with the key, or adds one behind all others if the key is
new. -/
theorem alter_cases {key : String} {change : Option Item → Option Item} {entries result : Entries}
    (h : entries.alter key change = some result) :
    (∃ front item back new, entries = front ++ (key, item) :: back ∧
      change (some item) = some new ∧ result = front ++ (key, new) :: back) ∨
    (key ∉ entries.map Prod.fst ∧ ∃ new, change none = some new ∧
      result = entries ++ [(key, new)]) := by
  induction entries generalizing result with
  | nil =>
    obtain ⟨new, hnew, rfl⟩ := Option.map_eq_some_iff.1 h
    exact .inr ⟨List.not_mem_nil, new, hnew, rfl⟩
  | cons entry entries ih =>
    obtain ⟨other, item⟩ := entry
    rw [alter] at h
    split at h
    · rename_i heq
      obtain ⟨new, hnew, rfl⟩ := Option.map_eq_some_iff.1 h
      exact .inl ⟨[], item, entries, new, by rw [heq]; rfl, hnew, rfl⟩
    · rename_i hne
      obtain ⟨rest, hrest, rfl⟩ := Option.map_eq_some_iff.1 h
      rcases ih hrest with ⟨front, old, back, new, rfl, hnew, rfl⟩ | ⟨hkey, new, hnew, rfl⟩
      · exact .inl ⟨(other, item) :: front, old, back, new, rfl, hnew, rfl⟩
      · refine .inr ⟨?_, new, hnew, rfl⟩
        rw [List.map_cons, List.mem_cons, not_or]
        exact ⟨Ne.symm hne, hkey⟩

namespace HaveDistinctKeys

variable {entries result : Entries}

theorem empty : HaveDistinctKeys [] :=
  .mk List.nodup_nil fun _ h => absurd h List.not_mem_nil

/-- A step keeps keys distinct if they are distinct in what it puts there. -/
theorem alter {key : String} {change : Option Item → Option Item}
    (h : HaveDistinctKeys entries)
    (hchange : ∀ item? new, (∀ item ∈ item?, Item.HasDistinctKeys item) →
      change item? = some new → new.HasDistinctKeys)
    (hresult : entries.alter key change = some result) : HaveDistinctKeys result := by
  obtain ⟨nodup, inner⟩ := h
  rcases alter_cases hresult with
    ⟨front, item, back, new, rfl, hnew, rfl⟩ | ⟨hkey, new, hnew, rfl⟩
  · have hitem : item.HasDistinctKeys := inner (key, item) (by simp)
    have hnew' := hchange (some item) new (by simpa using hitem) hnew
    refine .mk (by simpa using nodup) fun entry hentry => ?_
    rw [List.mem_append, List.mem_cons] at hentry
    rcases hentry with hfront | rfl | hback
    · exact inner entry (List.mem_append_left _ hfront)
    · exact hnew'
    · exact inner entry (List.mem_append_right _ (List.mem_cons_of_mem _ hback))
  · have hnew' := hchange none new (by simp) hnew
    refine .mk ?_ fun entry hentry => ?_
    · rw [List.map_append, List.nodup_append]
      refine ⟨nodup, List.nodup_singleton key, fun other hother last hlast => ?_⟩
      rw [List.mem_singleton.1 hlast]
      rintro rfl
      exact hkey hother
    · rcases List.mem_append.1 hentry with hmem | hmem
      · exact inner entry hmem
      · rw [List.mem_singleton.1 hmem]
        exact hnew'

/-- A step at the end of a path keeps keys distinct.  The induction is over the
path, and each part of it is a step of its own. -/
theorem modifyAt {missing : Origin} {change : Origin → Entries → Option Entries}
    (hchange : ∀ origin entries result, HaveDistinctKeys entries →
      change origin entries = some result → HaveDistinctKeys result)
    {path : List String} {origin : Origin} (h : HaveDistinctKeys entries)
    (hresult : Entries.modifyAt missing change path origin entries = some result) :
    HaveDistinctKeys result := by
  induction path generalizing origin entries result with
  | nil => exact hchange origin entries result h hresult
  | cons key path ih =>
    refine h.alter (fun item? new hitem hnew => ?_) hresult
    split at hnew
    · obtain ⟨below, hbelow, rfl⟩ := Option.map_eq_some_iff.1 hnew
      exact .table (ih empty hbelow)
    · exact absurd hnew.symm (Option.some_ne_none new)
    · rename_i origin below
      split at hnew
      · exact absurd hnew.symm (Option.some_ne_none new)
      · obtain ⟨entries, hentries, rfl⟩ := Option.map_eq_some_iff.1 hnew
        cases hitem _ rfl with
        | table hbelow => exact .table (ih hbelow hentries)
    · obtain ⟨entries, hentries, rfl⟩ := Option.map_eq_some_iff.1 hnew
      cases hitem _ rfl with
      | tables hbefore hlast => exact .tables hbefore (ih hlast hentries)

theorem openTable {path : List String} {key : String} (h : HaveDistinctKeys entries)
    (hresult : entries.openTable path key = some result) : HaveDistinctKeys result := by
  refine h.modifyAt (fun origin entries result h hresult => ?_) hresult
  refine h.alter (fun item? new hitem hnew => ?_) hresult
  split at hnew
  · cases hnew
    exact .table empty
  · cases hnew
    cases hitem _ rfl with
    | table hbelow => exact .table hbelow
  · cases hnew

theorem openElement {path : List String} {key : String} (h : HaveDistinctKeys entries)
    (hresult : entries.openElement path key = some result) : HaveDistinctKeys result := by
  refine h.modifyAt (fun origin entries result h hresult => ?_) hresult
  refine h.alter (fun item? new hitem hnew => ?_) hresult
  split at hnew
  · cases hnew
    exact .tables (fun _ hmem => absurd hmem List.not_mem_nil) empty
  · cases hnew
    cases hitem _ rfl with
    | tables hbefore hlast =>
      refine .tables (fun entries hmem => ?_) empty
      rcases List.mem_append.1 hmem with hmem | hmem
      · exact hbefore entries hmem
      · rw [List.mem_singleton.1 hmem]
        exact hlast
  · cases hnew

theorem assign {path : List String} {key : String} {value : Value} (h : HaveDistinctKeys entries)
    (hvalue : value.HasDistinctKeys)
    (hresult : entries.assign path key value = some result) : HaveDistinctKeys result := by
  refine h.modifyAt (fun origin entries result h hresult => ?_) hresult
  split at hresult
  · refine h.alter (fun item? new hitem hnew => ?_) hresult
    split at hnew
    · cases hnew
      exact .value hvalue
    · cases hnew
  · cases hresult

theorem assignAt {table path : List String} {key : String} {value : Value}
    (h : HaveDistinctKeys entries) (hvalue : value.HasDistinctKeys)
    (hresult : entries.assignAt table path key value = some result) : HaveDistinctKeys result :=
  h.modifyAt (fun _ _ _ h hresult => h.assign hvalue hresult) hresult

end HaveDistinctKeys

end Entries

/-! ## Finished tables -/

theorem finishEntries_eq_map (entries : Entries) :
    finishEntries entries = entries.map fun entry => (entry.1, entry.2.finish) := by
  induction entries with
  | nil => rfl
  | cons entry entries ih => rw [finishEntries, ih, List.map_cons]

theorem finishTables_eq_map (tables : List Entries) :
    finishTables tables = tables.map fun entries => .table (finishEntries entries) := by
  induction tables with
  | nil => rfl
  | cons entries tables ih => rw [finishTables, ih, List.map_cons]

mutual

theorem Item.HasDistinctKeys.finish : ∀ {item : Item}, item.HasDistinctKeys →
    item.finish.HasDistinctKeys
  | _, .value h => h
  | _, .table h => h.finish
  | _, .tables hbefore hlast => by
    refine .array fun item hitem => ?_
    rw [finishTables_eq_map, List.mem_append, List.mem_singleton] at hitem
    rcases hitem with hitem | rfl
    · obtain ⟨entries, hentries, rfl⟩ := List.mem_map.1 hitem
      exact (hbefore entries hentries).finish
    · exact hlast.finish

theorem Entries.HaveDistinctKeys.finish : ∀ {entries : Entries}, entries.HaveDistinctKeys →
    (Value.table (finishEntries entries)).HasDistinctKeys
  | _, .mk nodup inner => by
    rw [finishEntries_eq_map]
    refine .table (by simpa [Function.comp_def] using nodup) fun entry hentry => ?_
    obtain ⟨item, hitem, rfl⟩ := List.mem_map.1 hentry
    exact (inner item hitem).finish

end

/-! ## Values -/

theorem hasDistinctKeys_of_integer? {negative : Bool} {magnitude : Nat} {value : Value}
    (h : integer? negative magnitude = some value) : value.HasDistinctKeys := by
  obtain ⟨-, h⟩ := Option.ite_none_right_eq_some.1 h
  cases h
  exact .scalar nofun nofun

theorem hasDistinctKeys_of_float? {negative : Bool} {whole : List Char} {decimals : Decimals}
    {value : Value} (h : float? negative whole decimals = some value) : value.HasDistinctKeys := by
  obtain ⟨-, h⟩ := Option.ite_none_left_eq_some.1 h
  cases h
  exact .scalar nofun nofun

theorem hasDistinctKeys_of_readUnsigned {negative : Bool} {text rest : List Char} {value : Value}
    (h : readUnsigned negative text = some (value, rest)) : value.HasDistinctKeys := by
  rw [readUnsigned.eq_def] at h
  split at h
  · cases h
    exact .scalar nofun nofun
  · cases h
    exact .scalar nofun nofun
  · obtain ⟨⟨whole, text⟩, -, h⟩ := Option.bind_eq_some_iff.1 h
    obtain ⟨⟨decimals, behind⟩, -, h⟩ := Option.bind_eq_some_iff.1 h
    dsimp only at h
    split at h
    · obtain ⟨number, hnumber, h⟩ := Option.bind_eq_some_iff.1 h
      cases h
      exact hasDistinctKeys_of_integer? hnumber
    · obtain ⟨number, hnumber, h⟩ := Option.bind_eq_some_iff.1 h
      cases h
      exact hasDistinctKeys_of_float? hnumber

theorem hasDistinctKeys_of_readInBase {base : Nat} {isDigit : Char → Bool}
    {text rest : List Char} {value : Value}
    (h : readInBase base isDigit text = some (value, rest)) : value.HasDistinctKeys := by
  obtain ⟨⟨digits, behind⟩, -, h⟩ := Option.bind_eq_some_iff.1 h
  obtain ⟨number, hnumber, h⟩ := Option.bind_eq_some_iff.1 h
  cases h
  exact hasDistinctKeys_of_integer? hnumber

theorem hasDistinctKeys_of_readNumber {text rest : List Char} {value : Value}
    (h : readNumber text = some (value, rest)) : value.HasDistinctKeys := by
  rw [readNumber.eq_def] at h
  split at h
  · exact hasDistinctKeys_of_readUnsigned h
  · exact hasDistinctKeys_of_readUnsigned h
  · exact hasDistinctKeys_of_readInBase h
  · exact hasDistinctKeys_of_readInBase h
  · exact hasDistinctKeys_of_readInBase h
  · exact hasDistinctKeys_of_readUnsigned h

theorem hasDistinctKeys_of_readMoment {text rest : List Char} {value : Value}
    (h : readMoment text = some (value, rest)) : value.HasDistinctKeys := by
  rw [readMoment] at h
  split at h
  all_goals
    obtain ⟨behind, -, h⟩ := Option.bind_eq_some_iff.1 h
    cases h
    exact .scalar nofun nofun

/-- A value that holds no others is neither a list nor a table. -/
theorem hasDistinctKeys_of_readScalar {text rest : List Char} {value : Value}
    (h : readScalar text = some (value, rest)) : value.HasDistinctKeys := by
  rw [readScalar.eq_def] at h
  split at h
  · cases h
    exact .scalar nofun nofun
  · cases h
    exact .scalar nofun nofun
  · split at h
    · obtain ⟨⟨chars, behind⟩, -, h⟩ := Option.bind_eq_some_iff.1 h
      cases h
      exact .scalar nofun nofun
    · split at h
      · exact hasDistinctKeys_of_readMoment h
      · exact hasDistinctKeys_of_readNumber h
  · cases h

section

variable {read : List Char → Option (Value × List Char)}

theorem hasDistinctKeys_of_readItems
    (hread : ∀ text value rest, read text = some (value, rest) → value.HasDistinctKeys)
    {bound : Nat} {text rest : List Char} {items : List Value}
    (h : readItems read bound text = some (items, rest)) :
    ∀ item ∈ items, item.HasDistinctKeys := by
  induction bound generalizing text items with
  | zero => cases h
  | succ bound ih =>
    rw [readItems] at h
    split at h
    · cases h
      exact fun _ hmem => absurd hmem List.not_mem_nil
    · obtain ⟨⟨first, behind⟩, hfirst, h⟩ := Option.bind_eq_some_iff.1 h
      have hfirst' := hread _ _ _ hfirst
      dsimp only at h
      split at h
      · obtain ⟨⟨others, end'⟩, hothers, h⟩ := Option.bind_eq_some_iff.1 h
        cases h
        exact List.forall_mem_cons.2 ⟨hfirst', ih hothers⟩
      · cases h
        exact List.forall_mem_singleton.2 hfirst'
      · cases h

theorem hasDistinctKeys_of_readAssignment
    (hread : ∀ text value rest, read text = some (value, rest) → value.HasDistinctKeys)
    {text rest : List Char} {assignment : (List String × String) × Value}
    (h : readAssignment read text = some (assignment, rest)) : assignment.2.HasDistinctKeys := by
  obtain ⟨⟨path, behind⟩, -, h⟩ := Option.bind_eq_some_iff.1 h
  dsimp only at h
  split at h
  · obtain ⟨⟨value, last⟩, hvalue, h⟩ := Option.bind_eq_some_iff.1 h
    cases h
    exact hread _ _ _ hvalue
  · cases h

theorem hasDistinctKeys_of_readAssignments
    (hread : ∀ text value rest, read text = some (value, rest) → value.HasDistinctKeys)
    {bound : Nat} {text rest : List Char} {assignments : List ((List String × String) × Value)}
    (h : readAssignments read bound text = some (assignments, rest)) :
    ∀ assignment ∈ assignments, assignment.2.HasDistinctKeys := by
  induction bound generalizing text assignments with
  | zero => cases h
  | succ bound ih =>
    obtain ⟨⟨first, behind⟩, hfirst, h⟩ := Option.bind_eq_some_iff.1 h
    have hfirst' := hasDistinctKeys_of_readAssignment hread hfirst
    dsimp only at h
    split at h
    · obtain ⟨⟨others, last⟩, hothers, h⟩ := Option.bind_eq_some_iff.1 h
      cases h
      exact List.forall_mem_cons.2 ⟨hfirst', ih hothers⟩
    · cases h
      exact List.forall_mem_singleton.2 hfirst'
    · cases h

end

/-- The assignments of an inline table are steps of its construction. -/
theorem haveDistinctKeys_of_foldlM {assignments : List ((List String × String) × Value)}
    (hvalues : ∀ assignment ∈ assignments, assignment.2.HasDistinctKeys)
    {entries result : Entries} (h : entries.HaveDistinctKeys)
    (hresult : assignments.foldlM
      (fun entries ((path, key), value) => Entries.assign path key value entries) entries =
        some result) : result.HaveDistinctKeys := by
  induction assignments generalizing entries with
  | nil =>
    cases hresult
    exact h
  | cons assignment assignments ih =>
    rw [List.foldlM_cons] at hresult
    obtain ⟨next, hnext, hresult⟩ := Option.bind_eq_some_iff.1 hresult
    obtain ⟨hvalue, hrest⟩ := List.forall_mem_cons.1 hvalues
    exact ih hrest (h.assign hvalue hnext) hresult

theorem hasDistinctKeys_of_inlineTable? {assignments : List ((List String × String) × Value)}
    {value : Value} (hvalues : ∀ assignment ∈ assignments, assignment.2.HasDistinctKeys)
    (h : inlineTable? assignments = some value) : value.HasDistinctKeys := by
  obtain ⟨entries, hentries, h⟩ := Option.bind_eq_some_iff.1 h
  cases h
  exact (haveDistinctKeys_of_foldlM hvalues .empty hentries).finish

/-- No table in a value that has been read has a key twice.  The induction is over how
deep values are nested. -/
theorem hasDistinctKeys_of_readValue {depth : Nat} {text rest : List Char} {value : Value}
    (h : readValue depth text = some (value, rest)) : value.HasDistinctKeys := by
  induction depth generalizing text value rest with
  | zero =>
    rw [readValue] at h
    · exact hasDistinctKeys_of_readScalar h
    · nofun
    · nofun
  | succ depth ih =>
    have hread : ∀ text value rest, readValue depth text = some (value, rest) →
        value.HasDistinctKeys := fun _ _ _ => ih
    rw [readValue.eq_def] at h
    split at h
    · rename_i below behind hdepth
      obtain rfl : depth = below := Nat.succ.inj hdepth
      obtain ⟨⟨items, last⟩, hitems, h⟩ := Option.bind_eq_some_iff.1 h
      cases h
      exact .array (hasDistinctKeys_of_readItems hread hitems)
    · rename_i below behind hdepth
      obtain rfl : depth = below := Nat.succ.inj hdepth
      split at h
      · cases h
        exact .table List.nodup_nil fun _ hmem => absurd hmem List.not_mem_nil
      · obtain ⟨⟨assignments, last⟩, hassignments, h⟩ := Option.bind_eq_some_iff.1 h
        obtain ⟨table, htable, h⟩ := Option.bind_eq_some_iff.1 h
        cases h
        exact hasDistinctKeys_of_inlineTable?
          (hasDistinctKeys_of_readAssignments hread hassignments) htable
    · exact hasDistinctKeys_of_readScalar h

/-! ## Documents -/

/-- No table in the value of an assignment has a key twice. -/
def Statement.HasDistinctKeys : Statement → Prop
  | .assign _ _ value => value.HasDistinctKeys
  | _ => True

theorem hasDistinctKeys_of_readStatement {text rest : List Char} {statement : Statement}
    (h : readStatement text = some (statement, rest)) : statement.HasDistinctKeys := by
  rw [readStatement.eq_def] at h
  split at h
  · obtain ⟨⟨⟨path, key⟩, behind⟩, -, h⟩ := Option.bind_eq_some_iff.1 h
    dsimp only at h
    split at h <;> cases h
    exact trivial
  · obtain ⟨⟨⟨path, key⟩, behind⟩, -, h⟩ := Option.bind_eq_some_iff.1 h
    dsimp only at h
    split at h <;> cases h
    exact trivial
  · obtain ⟨⟨assignment, behind⟩, hassignment, h⟩ := Option.bind_eq_some_iff.1 h
    cases h
    exact hasDistinctKeys_of_readAssignment (fun _ _ _ => hasDistinctKeys_of_readValue) hassignment

theorem hasDistinctKeys_of_readStatements {bound : Nat} {text : List Char}
    {statements : List Statement} (h : readStatements bound text = some statements) :
    ∀ statement ∈ statements, statement.HasDistinctKeys := by
  induction bound generalizing text statements with
  | zero => cases h
  | succ bound ih =>
    rw [readStatements] at h
    split at h
    · cases h
      exact fun _ hmem => absurd hmem List.not_mem_nil
    · split at h
      · obtain ⟨behind, -, h⟩ := Option.bind_eq_some_iff.1 h
        exact ih h
      · obtain ⟨⟨first, behind⟩, hfirst, h⟩ := Option.bind_eq_some_iff.1 h
        obtain ⟨next, -, h⟩ := Option.bind_eq_some_iff.1 h
        obtain ⟨others, hothers, h⟩ := Option.bind_eq_some_iff.1 h
        cases h
        exact List.forall_mem_cons.2 ⟨hasDistinctKeys_of_readStatement hfirst, ih hothers⟩

/-- The statements of a document are steps of its construction. -/
theorem Entries.HaveDistinctKeys.assemble {statements : List Statement}
    (hvalues : ∀ statement ∈ statements, statement.HasDistinctKeys) {table : List String}
    {entries result : Entries} (h : entries.HaveDistinctKeys)
    (hresult : Toml.assemble table entries statements = some result) :
    result.HaveDistinctKeys := by
  induction statements generalizing table entries with
  | nil =>
    cases hresult
    exact h
  | cons statement statements ih =>
    obtain ⟨hvalue, hrest⟩ := List.forall_mem_cons.1 hvalues
    cases statement with
    | table path key =>
      obtain ⟨next, hnext, hresult⟩ := Option.bind_eq_some_iff.1 hresult
      exact ih hrest (h.openTable hnext) hresult
    | element path key =>
      obtain ⟨next, hnext, hresult⟩ := Option.bind_eq_some_iff.1 hresult
      exact ih hrest (h.openElement hnext) hresult
    | assign path key value =>
      obtain ⟨next, hnext, hresult⟩ := Option.bind_eq_some_iff.1 hresult
      exact ih hrest (h.assignAt hvalue hnext) hresult

/-- No table of a document has a key twice. -/
theorem hasDistinctKeys_of_read? {document : String} {entries : List (String × Value)}
    (h : read? document = some entries) : (Value.table entries).HasDistinctKeys := by
  obtain ⟨statements, hstatements, h⟩ := Option.bind_eq_some_iff.1 h
  obtain ⟨tables, htables, h⟩ := Option.bind_eq_some_iff.1 h
  cases h
  exact (Entries.HaveDistinctKeys.empty.assemble
    (hasDistinctKeys_of_readStatements hstatements) htables).finish

/-- Where keys are distinct, a search finds what is there. -/
theorem lookup_eq_some_iff_mem {entries : List (String × Value)}
    (nodup : (entries.map Prod.fst).Nodup) {key : String} {value : Value} :
    entries.lookup key = some value ↔ (key, value) ∈ entries := by
  constructor
  · intro h
    obtain ⟨front, back, rfl, -⟩ := List.lookup_eq_some_iff.1 h
    exact List.mem_append_right _ List.mem_cons_self
  · intro h
    obtain ⟨front, back, rfl⟩ := List.append_of_mem h
    refine List.lookup_eq_some_iff.2 ⟨front, back, rfl, fun other hother => ?_⟩
    rw [List.map_append, List.map_cons, List.nodup_append] at nodup
    have hne := nodup.2.2 other.1 (List.mem_map_of_mem hother) key List.mem_cons_self
    simpa using hne.symm

end RouteScope.Toml
