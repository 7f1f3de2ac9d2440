import Mathlib
import RouteScope.Command.Run
import RouteScope.Proofs.Toml.Document

/-!
# Settings read back

All settings are written as a document that reads back as the same settings,
whatever characters their texts have.  The width is the only setting that
matters: it must be positive, and it must fit into a signed number of 64 bits.
Both hold of all settings that have been read from a document.
-/

namespace RouteScope.Settings

open Toml

/-! ## Writing and reading -/

/-- The tables that the settings are written as. -/
def tomlSections (settings : Settings) : List Toml.Section := [
  ("recognizers", [("java", .boolean settings.recognizers.java)]),
  ("display", [
    ("wrap_width", .integer (.ofInt settings.display.wrapWidth)),
    ("separator", .string settings.display.separator),
    ("line_break", .string settings.display.lineBreak)]),
  ("logging", [("level", .string settings.logging.level)]),
  ("languages", [("known", .array (settings.languages.known.map .string))])]

/-- The same tables with their values written. -/
def writtenSections (settings : Settings) : List (String × List (String × List Char)) := [
  ("recognizers", [("java", writeBoolean settings.recognizers.java)]),
  ("display", [
    ("wrap_width", writeNatural settings.display.wrapWidth),
    ("separator", writeString settings.display.separator),
    ("line_break", writeString settings.display.lineBreak)]),
  ("logging", [("level", writeString settings.logging.level)]),
  ("languages", [("known", writeStrings settings.languages.known)])]

theorem tomlChars_eq_writeSections (settings : Settings) :
    settings.tomlChars = writeSections
      (settings.writtenSections.map fun (key, assignments) => writeSection key assignments) :=
  rfl

theorem distinctKeys_tomlSections (settings : Settings) :
    DistinctKeys settings.tomlSections := by
  constructor
  · simp [tomlSections]
  · simp [tomlSections]

/-- Each of the tables is written with its values. -/
theorem spellsSection_writtenSections {settings : Settings}
    (hwidth : settings.display.wrapWidth ≤ Int64.maxValue.toInt) :
    List.Forall₂ SpellsSection settings.writtenSections settings.tomlSections := by
  refine .cons ?recognizers (.cons ?display (.cons ?logging (.cons ?languages .nil)))
  case recognizers =>
    exact .mk (by decide) (.cons (.mk (by decide) (spells_writeBoolean _ _)) .nil)
  case display =>
    refine .mk (by decide) (.cons ?_ (.cons ?_ (.cons ?_ .nil)))
    · exact .mk (by decide) (spells_writeNatural _ hwidth)
    · exact .mk (by decide) (spells_writeString _ _)
    · exact .mk (by decide) (spells_writeString _ _)
  case logging =>
    exact .mk (by decide) (.cons (.mk (by decide) (spells_writeString _ _)) .nil)
  case languages =>
    exact .mk (by decide) (.cons (.mk (by decide) (spells_writeStrings _ _)) .nil)

/-- The written settings are taken for the tables. -/
theorem read?_tomlChars {settings : Settings}
    (hwidth : settings.display.wrapWidth ≤ Int64.maxValue.toInt) :
    read? (String.ofList settings.tomlChars) =
      some (settings.tomlSections.map fun (key, values) => (key, .table values)) := by
  rw [tomlChars_eq_writeSections]
  exact read?_writeSections (spellsSection_writtenSections hwidth)
    settings.distinctKeys_tomlSections

theorem natural?_integer {n : Nat} (hn : n ≤ Int64.maxValue.toInt) :
    Value.natural? (.integer (.ofInt n)) = some n := by
  rw [Int64.toInt_maxValue] at hn
  rw [Value.natural?, Int64.toInt_ofInt_of_le (by omega) (by omega)]
  rfl

theorem texts?_array (texts : List String) :
    Value.texts? (.array (texts.map .string)) = some texts := by
  rw [Value.texts?]
  induction texts with
  | nil => rfl
  | cons text texts ih => simp [Value.text?, ih]

/-- The tables hold the settings that they were made of. -/
theorem ofEntries?_tomlSections {settings : Settings}
    (hwidth : settings.display.wrapWidth ≤ Int64.maxValue.toInt) :
    ofEntries? (settings.tomlSections.map fun (key, values) => (key, .table values)) =
      some settings := by
  have hnatural := natural?_integer hwidth
  have htexts := texts?_array settings.languages.known
  simp [ofEntries?, tomlSections, List.lookup, Value.orDefault, RecognizerSettings.ofToml?,
    DisplaySettings.ofToml?, LoggingSettings.ofToml?, LanguageSettings.ofToml?,
    Value.setting?, Value.truth?, Value.text?, hnatural, htexts]

theorem ofTomlAt_eq_ok_iff {path document : String} {settings : Settings} :
    ofTomlAt path document = .ok settings ↔
      (read? document >>= ofEntries?) = some settings ∧ settings.display.wrapWidth ≠ 0 := by
  rw [ofTomlAt]
  cases hread : read? document >>= ofEntries? with
  | none => simp
  | some found =>
      by_cases hzero : found.display.wrapWidth = 0
      · simp only [hzero, ↓reduceIte, reduceCtorEq, Option.some.injEq, false_iff, not_and]
        intro heq hne
        exact hne (heq ▸ hzero)
      · simp only [hzero, ↓reduceIte, Except.ok.injEq, Option.some.injEq]
        constructor
        · intro heq
          exact ⟨heq, heq ▸ hzero⟩
        · intro heq
          exact heq.1

/-- All settings whose width is positive and fits into a signed number are written,
and read back from what is written. -/
theorem ofTomlAt_toToml (path : String) {settings : Settings}
    (hpositive : 1 ≤ settings.display.wrapWidth)
    (hwidth : settings.display.wrapWidth ≤ Int64.maxValue.toInt) :
    ∃ document, settings.toToml = .ok document ∧ ofTomlAt path document = .ok settings := by
  refine ⟨String.ofList settings.tomlChars, ?_, ?_⟩
  · rw [toToml, if_pos hwidth]
  · rw [ofTomlAt_eq_ok_iff, read?_tomlChars hwidth]
    refine ⟨ofEntries?_tomlSections hwidth, ?_⟩
    omega

/-! ## Settings that have been read -/

theorem natural?_le {value : Value} {n : Nat} (hvalue : value.natural? = some n) :
    n ≤ Int64.maxValue.toInt := by
  cases value with
  | integer value =>
      have hint : value.toInt = n := Int.mem_toNat?.1 hvalue
      rw [← hint]
      exact Int64.toInt_le value
  | _ => cases hvalue

theorem orDefault_natural?_le {value? : Option Value} {default n : Nat}
    (hdefault : default ≤ Int64.maxValue.toInt)
    (hvalue : Value.orDefault default Value.natural? value? = some n) :
    n ≤ Int64.maxValue.toInt := by
  cases value? with
  | none =>
      cases hvalue
      exact hdefault
  | some value => exact natural?_le hvalue

theorem wrapWidth_ofToml?_le {value : Value} {display : DisplaySettings}
    (hdisplay : DisplaySettings.ofToml? value = some display) :
    display.wrapWidth ≤ Int64.maxValue.toInt := by
  simp only [DisplaySettings.ofToml?, Option.bind_eq_bind, Option.bind_eq_some_iff] at hdisplay
  obtain ⟨setting?, -, width, hwidth, separator?, -, separator, -, break?, -, lineBreak, -, heq⟩ :=
    hdisplay
  cases heq
  exact orDefault_natural?_le (by decide) hwidth

/-- The width of settings that have been read is positive and fits into a signed
number. -/
theorem wrapWidth_of_ofTomlAt {path document : String} {settings : Settings}
    (haccepted : ofTomlAt path document = .ok settings) :
    1 ≤ settings.display.wrapWidth ∧ settings.display.wrapWidth ≤ Int64.maxValue.toInt := by
  obtain ⟨hread, hzero⟩ := ofTomlAt_eq_ok_iff.1 haccepted
  refine ⟨by omega, ?_⟩
  obtain ⟨entries, -, hentries⟩ := Option.bind_eq_some_iff.1 hread
  simp only [ofEntries?, Option.bind_eq_bind, Option.bind_eq_some_iff] at hentries
  obtain ⟨recognizers, -, display, hdisplay, logging, -, languages, -, heq⟩ := hentries
  cases heq
  cases hvalue : entries.lookup "display" with
  | none =>
      rw [hvalue] at hdisplay
      cases hdisplay
      change ({} : DisplaySettings).wrapWidth ≤ Int64.maxValue.toInt
      decide
  | some value =>
      rw [hvalue] at hdisplay
      exact wrapWidth_ofToml?_le hdisplay

/-! ## The round trip -/

/-- All settings whose width is positive and fits into a signed number of 64
bits are written, and read back from what is written.  If a file holds a
document of settings, then showing them gives a document of the same settings. -/
theorem ofToml_toToml (settings : Settings) :
    (1 ≤ settings.display.wrapWidth → settings.display.wrapWidth ≤ 2 ^ 63 - 1 →
      ∃ document, settings.toToml = .ok document ∧ ofToml document = .ok settings) ∧
    (∀ (around : Command.Surroundings) (path document : String) (tree? : Option Tree),
      around.stateOf path = .text document tree? → ofToml document = .ok settings →
      ∃ printed, around.answer ⟨.text, some path, .config none⟩ = .ok printed ∧
        ofToml printed = .ok settings) := by
  refine ⟨?written, ?printed⟩
  case written =>
    intro hpositive hwidth
    apply ofTomlAt_toToml "<inline>" hpositive
    rw [Int64.toInt_maxValue]
    omega
  case printed =>
    intro around path document tree? hfile haccepted
    have hloaded : ofTomlAt path document = .ok settings :=
      ofTomlAt_eq_ok_iff.2 (ofTomlAt_eq_ok_iff.1 haccepted)
    obtain ⟨hpositive, hwidth⟩ := wrapWidth_of_ofTomlAt haccepted
    obtain ⟨printed, hprinted, hread⟩ := ofTomlAt_toToml "<inline>" hpositive hwidth
    refine ⟨printed, ?_, hread⟩
    have hsettings : around.settings ⟨.text, some path, .config none⟩ = .ok settings := by
      simp [Command.Surroundings.settings, hfile, load, hloaded]
    rw [Command.Surroundings.answer, hsettings]
    exact hprinted

/-- A separator with a quotation mark and a backslash, read from a file in which
it stands between apostrophes. -/
theorem ofToml_toToml_apostrophes :
    (∃ document,
      toToml { display := { wrapWidth := 80, separator := "\"\\" } } = .ok document ∧
        ofToml document = .ok { display := { wrapWidth := 80, separator := "\"\\" } }) ∧
    ∃ printed,
      Command.Surroundings.answer
          ⟨fun _ => .text "[display]\nwrap_width = 80\nseparator = '\"\\'\n" none, none, none⟩
          ⟨.text, some "lens.toml", .config none⟩ = .ok printed ∧
        ofToml printed = .ok { display := { wrapWidth := 80, separator := "\"\\" } } := by
  have hread : ofToml "[display]\nwrap_width = 80\nseparator = '\"\\'\n" =
      .ok { display := { wrapWidth := 80, separator := "\"\\" } } := by
    rw [ofToml, ofTomlAt_eq_ok_iff]
    decide +kernel
  obtain ⟨hwritten, hprinted⟩ :=
    ofToml_toToml { display := { wrapWidth := 80, separator := "\"\\" } }
  exact ⟨hwritten (by decide) (by decide), hprinted _ "lens.toml" _ none rfl hread⟩

end RouteScope.Settings
