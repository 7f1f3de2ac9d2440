import Mathlib.Data.List.TakeDrop
import RouteScope.Proofs.Toml.Assembly
import RouteScope.Proofs.Toml.Written

/-!
# Written documents

A document of sections reads back as the tables of these sections, if its keys
need no quotes, no key occurs twice and each written value spells the value.

`Says` is the property that a text has statement by statement.  It holds for
every bound on the number of lines that is above the length of the text, so that
lines can be put in front of a text without counting them.
-/

namespace RouteScope.Toml

/-! ## Keys -/

/-- A key that needs no quotes. -/
def IsBare (key : String) : Prop :=
  key.toList ≠ [] ∧ ∀ c ∈ key.toList, isBareKey c = true

instance (key : String) : Decidable (IsBare key) :=
  decidable_of_iff ((!key.toList.isEmpty && key.toList.all isBareKey) = true)
    (by simp [IsBare])

theorem IsBare.exists_cons {key : String} (hkey : IsBare key) :
    ∃ c tail, key.toList = c :: tail ∧ isBareKey c = true := by
  obtain ⟨hne, hall⟩ := hkey
  cases hchars : key.toList with
  | nil => exact absurd hchars hne
  | cons c tail => exact ⟨c, tail, rfl, hall c (by simp [hchars])⟩

/-- A key that needs no quotes begins with none of the characters that mean
something in front of a key. -/
theorem IsBare.append_ne_cons {key : String} (hkey : IsBare key) {c : Char}
    (hc : isBareKey c = false) (rest text : List Char) : key.toList ++ rest ≠ c :: text := by
  obtain ⟨d, tail, hchars, hd⟩ := hkey.exists_cons
  intro heq
  rw [hchars] at heq
  exact ne_of_test isBareKey hd hc (List.cons.inj heq).1

theorem isBlank_of_isBareKey {c : Char} (hc : isBareKey c = true) : isBlank c = false := by
  have hspace : c ≠ ' ' := ne_of_test isBareKey hc rfl
  have htab : c ≠ '\t' := ne_of_test isBareKey hc rfl
  simp [isBlank, hspace, htab]

theorem readKeyPart_append {key : String} (hkey : IsBare key) {c : Char} (text : List Char)
    (hc : isBareKey c = false) :
    readKeyPart (key.toList ++ c :: text) = some (key.toList, c :: text) := by
  have hspan : (key.toList ++ c :: text).span isBareKey = (key.toList, c :: text) := by
    rw [List.span_eq_takeWhile_dropWhile, List.takeWhile_append_of_pos hkey.2,
      List.dropWhile_append_of_pos hkey.2]
    simp [hc]
  rw [readKeyPart]
  · rw [hspan]
    simp [hkey.1]
  all_goals
    intro rest heq
    exact hkey.append_ne_cons rfl _ _ heq

theorem skipBlanks_cons {c : Char} (text : List Char) (hc : isBlank c = false) :
    skipBlanks (c :: text) = c :: text := by
  rw [skipBlanks, List.dropWhile_cons_of_neg]
  simp [hc]

theorem skipBlanks_bare {key : String} (hkey : IsBare key) (rest : List Char) :
    skipBlanks (key.toList ++ rest) = key.toList ++ rest := by
  obtain ⟨c, tail, hchars, hc⟩ := hkey.exists_cons
  rw [hchars]
  exact skipBlanks_cons _ (isBlank_of_isBareKey hc)

/-- A key that needs no quotes is taken for itself. -/
theorem readPath_append {key : String} (hkey : IsBare key) {c : Char} (text : List Char)
    (hc : isBareKey c = false) (hdot : (skipBlanks (c :: text)).head? ≠ some '.') :
    readPath (key.toList ++ c :: text) = some (([], key), skipBlanks (c :: text)) := by
  have hread : readKey depthLimit (key.toList ++ c :: text) =
      some ([key], skipBlanks (c :: text)) := by
    rw [depthLimit, readKey, skipBlanks_bare hkey, readKeyPart_append hkey text hc]
    simp only [Option.bind_eq_bind, Option.bind_some]
    split
    · rename_i heq
      simp [heq] at hdot
    · simp
  rw [readPath, hread]
  rfl

/-! ## Lines -/

/-- The header of a table, up to the end of its line. -/
theorem readStatement_header {key : String} (hkey : IsBare key) (rest : List Char) :
    readStatement ('[' :: (key.toList ++ ']' :: rest)) = some (.table [] key, rest) := by
  rw [readStatement, readPath_append hkey rest rfl (by simp [skipBlanks, isBlank])]
  · simp [skipBlanks, isBlank]
  · intro text heq
    exact hkey.append_ne_cons rfl _ _ heq

theorem readAssignment_append {key : String} (hkey : IsBare key) {written : List Char}
    {value : Value} (hspells : Spells depthLimit written value) (rest : List Char) :
    readAssignment (readValue depthLimit)
        (key.toList ++ ' ' :: '=' :: ' ' :: (written ++ '\n' :: rest)) =
      some ((([], key), value), '\n' :: rest) := by
  have hpath := readPath_append (c := ' ') hkey ('=' :: ' ' :: (written ++ '\n' :: rest)) rfl
    (by simp [skipBlanks, isBlank])
  have hequals : skipBlanks (' ' :: '=' :: ' ' :: (written ++ '\n' :: rest)) =
      '=' :: ' ' :: (written ++ '\n' :: rest) := rfl
  have hblank : skipBlanks (' ' :: (written ++ '\n' :: rest)) = written ++ '\n' :: rest :=
    hspells.skipBlanks_append ('\n' :: rest)
  have hvalue := hspells.readValue_append _ (.feed rest)
  have hfeed : skipBlanks ('\n' :: rest) = '\n' :: rest := rfl
  rw [readAssignment, hpath, hequals]
  simp [hblank, hvalue, hfeed]

/-- An assignment, up to the end of its line. -/
theorem readStatement_assignment {key : String} (hkey : IsBare key) {written : List Char}
    {value : Value} (hspells : Spells depthLimit written value) (rest : List Char) :
    readStatement (key.toList ++ ' ' :: '=' :: ' ' :: (written ++ '\n' :: rest)) =
      some (.assign [] key value, '\n' :: rest) := by
  rw [readStatement, readAssignment_append hkey hspells rest]
  · rfl
  all_goals
    intro text heq
    exact hkey.append_ne_cons rfl _ _ heq

/-! ## Sections -/

/-- A text that has these statements, one behind the other. -/
def Says (text : List Char) (statements : List Statement) : Prop :=
  ∀ bound, text.length < bound → readStatements bound text = some statements

theorem says_nil : Says [] [] := by
  intro bound hbound
  cases bound with
  | zero => omega
  | succ bound => rfl

/-- An empty line says nothing. -/
theorem Says.newline {text : List Char} {statements : List Statement}
    (htext : Says text statements) : Says ('\n' :: text) statements := by
  intro bound hbound
  cases bound with
  | zero => omega
  | succ bound =>
      have hrest := htext bound (by simpa using hbound)
      change (do
        let rest ← lineEnd? ('\n' :: text)
        readStatements bound rest) = some statements
      exact hrest

/-- A line with a statement. -/
theorem Says.line {text : List Char} {statements : List Statement}
    (htext : Says text statements) {c : Char} {line : List Char} {statement : Statement}
    (hblank : isBlank c = false) (hc : ¬(c = '#' ∨ c = '\n' ∨ c = '\r'))
    (hread : readStatement (c :: (line ++ '\n' :: text)) = some (statement, '\n' :: text)) :
    Says (c :: (line ++ '\n' :: text)) (statement :: statements) := by
  intro bound hbound
  cases bound with
  | zero => omega
  | succ bound =>
      have hrest := htext bound (by
        simp only [List.length_cons, List.length_append] at hbound
        omega)
      have hend : lineEnd? ('\n' :: text) = some text := rfl
      rw [readStatements, skipBlanks_cons _ hblank]
      simp only [if_neg hc, hread]
      simp [hend, hrest]

theorem Says.header {text : List Char} {statements : List Statement}
    (htext : Says text statements) {key : String} (hkey : IsBare key) :
    Says ('[' :: (key.toList ++ ']' :: '\n' :: text)) (.table [] key :: statements) := by
  have hread := readStatement_header hkey ('\n' :: text)
  have hline : key.toList ++ ']' :: '\n' :: text = (key.toList ++ [']']) ++ '\n' :: text := by
    simp
  rw [hline] at hread ⊢
  exact htext.line rfl (by decide) hread

theorem Says.assignment {text : List Char} {statements : List Statement}
    (htext : Says text statements) {key : String} (hkey : IsBare key) {written : List Char}
    {value : Value} (hspells : Spells depthLimit written value) :
    Says (writeAssignment key written ++ text) (.assign [] key value :: statements) := by
  obtain ⟨c, tail, hchars, hc⟩ := hkey.exists_cons
  have hread := readStatement_assignment hkey hspells text
  have hline : writeAssignment key written ++ text =
      c :: ((tail ++ [' ', '=', ' '] ++ written) ++ '\n' :: text) := by
    simp [writeAssignment, hchars]
  have hsame : key.toList ++ ' ' :: '=' :: ' ' :: (written ++ '\n' :: text) =
      c :: ((tail ++ [' ', '=', ' '] ++ written) ++ '\n' :: text) := by
    simp [hchars]
  rw [hsame] at hread
  rw [hline]
  refine htext.line (isBlank_of_isBareKey hc) ?_ hread
  intro hother
  rcases hother with hhash | hfeed | hreturn
  · exact ne_of_test isBareKey hc rfl hhash
  · exact ne_of_test isBareKey hc rfl hfeed
  · exact ne_of_test isBareKey hc rfl hreturn

/-- A written assignment: its key needs no quotes, and its value is spelled. -/
inductive SpellsAssignment : String × List Char → String × Value → Prop where
  | mk {key : String} {written : List Char} {value : Value} (hkey : IsBare key)
      (hspells : Spells depthLimit written value) : SpellsAssignment (key, written) (key, value)

/-- A written table: its key needs no quotes, and its assignments are written
one by one. -/
inductive SpellsSection : String × List (String × List Char) → Section → Prop where
  | mk {key : String} {written : List (String × List Char)} {values : List (String × Value)}
      (hkey : IsBare key) (hvalues : List.Forall₂ SpellsAssignment written values) :
      SpellsSection (key, written) (key, values)

theorem Says.assignments {text : List Char} {statements : List Statement}
    (htext : Says text statements) {written : List (String × List Char)}
    {values : List (String × Value)}
    (hvalues : List.Forall₂ SpellsAssignment written values) :
    Says ((written.flatMap fun (key, value) => writeAssignment key value) ++ text)
      ((values.map fun (name, value) => .assign [] name value) ++ statements) := by
  induction hvalues with
  | nil => exact htext
  | cons hfirst _ ih =>
      obtain ⟨hkey, hspells⟩ := hfirst
      rw [List.flatMap_cons, List.append_assoc]
      exact ih.assignment hkey hspells

/-- A written table says its header and its assignments. -/
theorem Says.section {text : List Char} {statements : List Statement}
    (htext : Says text statements) {written : String × List (String × List Char)}
    {part : Section} (hpart : SpellsSection written part) :
    Says (writeSection written.1 written.2 ++ text) (part.statements ++ statements) := by
  obtain ⟨hkey, hvalues⟩ := hpart
  have hheader := (htext.assignments hvalues).header hkey
  simpa [writeSection, Section.statements] using hheader

/-- A document says what its sections say, one behind the other. -/
theorem says_writeSections {written : List (String × List (String × List Char))}
    {sections : List Section} (hsections : List.Forall₂ SpellsSection written sections) :
    Says (writeSections (written.map fun (key, assignments) => writeSection key assignments))
      (sections.flatMap Section.statements) := by
  induction hsections with
  | nil => exact says_nil
  | @cons first part written sections hfirst hrest ih =>
      cases hrest with
      | nil =>
          have hlast := says_nil.section hfirst
          simpa [writeSections] using hlast
      | cons hsecond hrest =>
          have hmore := ih.newline.section hfirst
          simpa [writeSections] using hmore

/-- A document begins with a header, so it has no byte order mark. -/
theorem skipMark_writeSections (written : List (String × List (String × List Char))) :
    skipMark (writeSections
        (written.map fun (key, assignments) => writeSection key assignments)) =
      writeSections (written.map fun (key, assignments) => writeSection key assignments) := by
  match written with
  | [] | [_] | _ :: _ :: _ => rfl

/-- A written document reads back as the tables of its sections. -/
theorem read?_writeSections {written : List (String × List (String × List Char))}
    {sections : List Section} (hsections : List.Forall₂ SpellsSection written sections)
    (hkeys : DistinctKeys sections) :
    read? (String.ofList (writeSections
        (written.map fun (key, assignments) => writeSection key assignments))) =
      some (sections.map fun (key, values) => (key, .table values)) := by
  have hsays := says_writeSections hsections _ (Nat.lt_succ_self _)
  have hentries := map_finishEntries_assemble hkeys
  obtain ⟨entries, hassemble, hfinish⟩ := Option.map_eq_some_iff.1 hentries
  rw [read?, String.toList_ofList, skipMark_writeSections]
  simp only [Option.bind_eq_bind, hsays, Option.bind_some, hassemble]
  rw [hfinish]
  rfl

end RouteScope.Toml
