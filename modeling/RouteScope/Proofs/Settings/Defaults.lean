import RouteScope.Proofs.Settings.RoundTrip
import RouteScope.Proofs.Toml.Distinct

/-!
# Settings in place of defaults

A document replaces those defaults for which it gives a value, and it is accepted if
all of these values have the right types and the width is not zero.  Nothing else in
the document matters: not the order of the keys, not the keys and tables that are not
known, and not whether a default is written down or left out.

The defaults of a section are given twice, for a section that is missing and for
each key that is missing in one.  They agree: a section without any keys is read as
a section that is missing.

* `ofToml?_empty`: the two kinds of defaults agree.
* `ofEntries?_eq_some_iff`: the settings that the entries of a document give.
* `exists_replaces_iff`: which entries give settings.
* `ofEntries?_eq_of_omitsDefaults`: defaults may be left out.
* `ofToml_replaces_defaults`: all of this of documents.
-/

namespace RouteScope.Settings

open Toml

/-! ## Keys -/

/-- The settings that a document may hold. -/
inductive Key where
  | java
  | wrapWidth
  | separator
  | lineBreak
  | level
  | known
deriving DecidableEq, Repr

namespace Key

/-- The table that holds the setting. -/
def sectionName : Key → String
  | java => "recognizers"
  | wrapWidth | separator | lineBreak => "display"
  | level => "logging"
  | known => "languages"

/-- The name of the setting in its table. -/
def name : Key → String
  | java => "java"
  | wrapWidth => "wrap_width"
  | separator => "separator"
  | lineBreak => "line_break"
  | level => "level"
  | known => "known"

/-- The value has the type of the setting. -/
def Accepts : Key → Value → Prop
  | java, value => ∃ truth, value = .boolean truth
  | wrapWidth, value => ∃ number : Int64, 0 ≤ number.toInt ∧ value = .integer number
  | separator, value | lineBreak, value | level, value => ∃ text, value = .string text
  | known, value => ∃ texts : List String, value = .array (texts.map .string)

/-- The value stands for what the setting is. -/
def Holds (settings : Settings) : Key → Value → Prop
  | java, value => value = .boolean settings.recognizers.java
  | wrapWidth, value =>
      ∃ number : Int64, number.toInt = settings.display.wrapWidth ∧ value = .integer number
  | separator, value => value = .string settings.display.separator
  | lineBreak, value => value = .string settings.display.lineBreak
  | level, value => value = .string settings.logging.level
  | known, value => value = .array (settings.languages.known.map .string)

theorem accepts_of_holds {settings : Settings} {key : Key} {value : Value}
    (h : key.Holds settings value) : key.Accepts value := by
  cases key with
  | wrapWidth =>
    obtain ⟨number, hnumber, rfl⟩ := h
    exact ⟨number, hnumber ▸ Int.natCast_nonneg _, rfl⟩
  | _ => exact ⟨_, h⟩

theorem exists_holds_of_accepts {key : Key} {value : Value} (h : key.Accepts value) :
    ∃ settings : Settings, key.Holds settings value := by
  cases key with
  | java =>
    obtain ⟨truth, rfl⟩ := h
    exact ⟨{ recognizers := { java := truth } }, rfl⟩
  | wrapWidth =>
    obtain ⟨number, hnumber, rfl⟩ := h
    exact ⟨{ display := { wrapWidth := number.toInt.toNat } }, number,
      (Int.toNat_of_nonneg hnumber).symm, rfl⟩
  | separator =>
    obtain ⟨text, rfl⟩ := h
    exact ⟨{ display := { separator := text } }, rfl⟩
  | lineBreak =>
    obtain ⟨text, rfl⟩ := h
    exact ⟨{ display := { lineBreak := text } }, rfl⟩
  | level =>
    obtain ⟨text, rfl⟩ := h
    exact ⟨{ logging := { level := text } }, rfl⟩
  | known =>
    obtain ⟨texts, rfl⟩ := h
    exact ⟨{ languages := { known := texts } }, rfl⟩

/-- Only one value stands for what the setting is. -/
theorem holds_unique {settings : Settings} {key : Key} {value other : Value}
    (h : key.Holds settings value) (h' : key.Holds settings other) : value = other := by
  cases key with
  | wrapWidth =>
    obtain ⟨number, hnumber, rfl⟩ := h
    obtain ⟨number', hnumber', rfl⟩ := h'
    rw [Int64.toInt_inj.1 (hnumber.trans hnumber'.symm)]
  | _ => exact h.trans h'.symm

end Key

/-- The sections of a document, as far as they are there, are tables. -/
def SectionsAreTables (entries : List (String × Value)) : Prop :=
  ∀ (key : Key) (value : Value), (key.sectionName, value) ∈ entries → ∃ below, value = .table below

/-- A document gives the value to the setting. -/
def Gives (entries : List (String × Value)) (key : Key) (value : Value) : Prop :=
  ∃ below, (key.sectionName, .table below) ∈ entries ∧ (key.name, value) ∈ below

/-- The settings are the defaults, apart from those for which a document gives a
value. -/
structure Replaces (entries : List (String × Value)) (settings : Settings) : Prop where
  given : ∀ key value, Gives entries key value → key.Holds settings value
  kept : ∀ key : Key, (∀ value, ¬ Gives entries key value) →
    ∃ value, key.Holds settings value ∧ key.Holds {} value

/-- One document gives the same values as another, but may leave out some that are
defaults. -/
structure OmitsDefaults (spelled shortened : List (String × Value)) : Prop where
  kept : ∀ key value, Gives shortened key value → Gives spelled key value
  omitted : ∀ (key : Key) (value : Value), Gives spelled key value →
    Gives shortened key value ∨ key.Holds {} value

/-! ## Values of a type -/

section Values

variable {value : Value}

theorem truth?_eq_some_iff {truth : Bool} : value.truth? = some truth ↔ value = .boolean truth := by
  cases value <;> simp [Value.truth?]

theorem text?_eq_some_iff {text : String} : value.text? = some text ↔ value = .string text := by
  cases value <;> simp [Value.text?]

theorem natural?_eq_some_iff {width : Nat} :
    value.natural? = some width ↔
      ∃ number : Int64, number.toInt = width ∧ value = .integer number := by
  cases value with
  | integer number =>
    have hread : Value.natural? (.integer number) = some width ↔ number.toInt = width :=
      Int.mem_toNat?
    rw [hread]
    constructor
    · exact fun h => ⟨number, h, rfl⟩
    · rintro ⟨_, h, heq⟩
      rwa [Value.integer.inj heq]
  | _ => simp [Value.natural?]

/-- What is read from the items of a list comes from the items one by one. -/
theorem eq_map_of_mapM_eq_some {α : Type} {read? : Value → Option α} {write : α → Value}
    (hread : ∀ value found, read? value = some found → value = write found) {items : List Value}
    {found : List α} (h : items.mapM read? = some found) : items = found.map write := by
  induction items generalizing found with
  | nil =>
    cases h
    rfl
  | cons item items ih =>
    rw [List.mapM_cons] at h
    obtain ⟨first, hfirst, h⟩ := Option.bind_eq_some_iff.1 h
    obtain ⟨others, hothers, h⟩ := Option.bind_eq_some_iff.1 h
    cases h
    rw [hread item first hfirst, ih hothers]
    rfl

theorem texts?_eq_some_iff {texts : List String} :
    value.texts? = some texts ↔ value = .array (texts.map .string) := by
  constructor
  · intro h
    cases value with
    | array items =>
      rw [Value.texts?] at h
      rw [eq_map_of_mapM_eq_some (fun _ _ => text?_eq_some_iff.1) h]
    | _ => cases h
  · rintro rfl
    exact texts?_array texts

end Values

/-! ## Values that are given -/

/-- The table with a name; a missing one is empty. -/
def tableAt (entries : List (String × Value)) (name : String) : List (String × Value) :=
  match entries.lookup name with
  | some (.table below) => below
  | _ => []

/-- The value that is found for a setting. -/
def given? (entries : List (String × Value)) (key : Key) : Option Value :=
  (tableAt entries key.sectionName).lookup key.name

section Given

variable {entries : List (String × Value)}

/-- No key is there twice, so the values that are given are those that are found. -/
theorem gives_iff (distinct : (Value.table entries).HasDistinctKeys) {key : Key} {value : Value} :
    Gives entries key value ↔ given? entries key = some value := by
  cases distinct with
  | scalar noArray noTable => exact absurd rfl (noTable entries)
  | table nodup inner =>
    have hbelow {below : List (String × Value)} (h : (key.sectionName, .table below) ∈ entries) :
        below.lookup key.name = some value ↔ (key.name, value) ∈ below := by
      cases inner _ h with
      | scalar noArray noTable => exact absurd rfl (noTable below)
      | table nodup _ => exact lookup_eq_some_iff_mem nodup
    rw [given?, tableAt]
    constructor
    · rintro ⟨below, hsection, hvalue⟩
      rw [(lookup_eq_some_iff_mem nodup).2 hsection]
      exact (hbelow hsection).2 hvalue
    · intro h
      split at h
      · rename_i below hsection
        have hmem := (lookup_eq_some_iff_mem nodup).1 hsection
        exact ⟨below, hmem, (hbelow hmem).1 h⟩
      · cases h

end Given

/-! ## Sections -/

section Sections

variable {entries below : List (String × Value)}

/-- A missing section is read like an empty one. -/
theorem orDefault_lookup {α : Type} {default : α} (read? : Value → Option α) {name : String}
    (hempty : read? (.table []) = some default)
    (tables : ∀ value, entries.lookup name = some value → ∃ below, value = .table below) :
    Value.orDefault default read? (entries.lookup name) =
      read? (.table (tableAt entries name)) := by
  rw [tableAt]
  cases hname : entries.lookup name with
  | none => exact hempty.symm
  | some value =>
    obtain ⟨below, rfl⟩ := tables value hname
    rfl

/-- The defaults for the keys of a section are those for the section as a whole. -/
theorem ofToml?_empty :
    RecognizerSettings.ofToml? (.table []) = some {} ∧
      DisplaySettings.ofToml? (.table []) = some {} ∧
      LoggingSettings.ofToml? (.table []) = some {} ∧
      LanguageSettings.ofToml? (.table []) = some {} :=
  ⟨rfl, rfl, rfl, rfl⟩

theorem recognizers_ofToml?_iff {recognizers : RecognizerSettings} :
    RecognizerSettings.ofToml? (.table below) = some recognizers ↔
      Value.orDefault defaultTrue Value.truth? (below.lookup "java") = some recognizers.java := by
  obtain ⟨java⟩ := recognizers
  simp [RecognizerSettings.ofToml?, Value.setting?, Option.bind_eq_some_iff]

theorem display_ofToml?_iff {display : DisplaySettings} :
    DisplaySettings.ofToml? (.table below) = some display ↔
      Value.orDefault defaultWrapWidth Value.natural? (below.lookup "wrap_width") =
        some display.wrapWidth ∧
      Value.orDefault defaultSeparator Value.text? (below.lookup "separator") =
        some display.separator ∧
      Value.orDefault defaultLineBreak Value.text? (below.lookup "line_break") =
        some display.lineBreak := by
  obtain ⟨wrapWidth, separator, lineBreak⟩ := display
  simp [DisplaySettings.ofToml?, Value.setting?, Option.bind_eq_some_iff]

theorem logging_ofToml?_iff {logging : LoggingSettings} :
    LoggingSettings.ofToml? (.table below) = some logging ↔
      Value.orDefault defaultLogLevel Value.text? (below.lookup "level") = some logging.level := by
  obtain ⟨level⟩ := logging
  simp [LoggingSettings.ofToml?, Value.setting?, Option.bind_eq_some_iff]

theorem languages_ofToml?_iff {languages : LanguageSettings} :
    LanguageSettings.ofToml? (.table below) = some languages ↔
      Value.orDefault defaultLanguages Value.texts? (below.lookup "known") =
        some languages.known := by
  obtain ⟨known⟩ := languages
  simp [LanguageSettings.ofToml?, Value.setting?, Option.bind_eq_some_iff]

/-- The four sections are read one by one. -/
theorem ofEntries?_iff_sections (tables : SectionsAreTables entries) {settings : Settings} :
    ofEntries? entries = some settings ↔
      RecognizerSettings.ofToml? (.table (tableAt entries "recognizers")) =
        some settings.recognizers ∧
      DisplaySettings.ofToml? (.table (tableAt entries "display")) = some settings.display ∧
      LoggingSettings.ofToml? (.table (tableAt entries "logging")) = some settings.logging ∧
      LanguageSettings.ofToml? (.table (tableAt entries "languages")) =
        some settings.languages := by
  have htables (key : Key) (value : Value) (h : entries.lookup key.sectionName = some value) :
      ∃ below, value = .table below := by
    obtain ⟨front, back, rfl, -⟩ := List.lookup_eq_some_iff.1 h
    exact tables key value (by simp)
  obtain ⟨norecognizers, nodisplay, nologging, nolanguages⟩ := ofToml?_empty
  have hrecognizers := orDefault_lookup RecognizerSettings.ofToml? norecognizers (htables .java)
  have hdisplay := orDefault_lookup DisplaySettings.ofToml? nodisplay (htables .wrapWidth)
  have hlogging := orDefault_lookup LoggingSettings.ofToml? nologging (htables .level)
  have hlanguages := orDefault_lookup LanguageSettings.ofToml? nolanguages (htables .known)
  simp only [Key.sectionName] at hrecognizers hdisplay hlogging hlanguages
  obtain ⟨recognizers, display, logging, languages⟩ := settings
  simp [ofEntries?, Option.bind_eq_some_iff, hrecognizers, hdisplay, hlogging, hlanguages]

end Sections

/-! ## Defaults and values -/

section Replaces

variable {entries : List (String × Value)} {settings : Settings}

/-- The setting is the value that is found for it, or the default if there is none. -/
def Fits (entries : List (String × Value)) (settings : Settings) (key : Key) : Prop :=
  (∀ value, given? entries key = some value → key.Holds settings value) ∧
    (given? entries key = none → ∃ value, key.Holds settings value ∧ key.Holds {} value)

theorem replaces_iff_fits (distinct : (Value.table entries).HasDistinctKeys) :
    Replaces entries settings ↔ ∀ key, Fits entries settings key := by
  have hnone (key : Key) : (∀ value, ¬ Gives entries key value) ↔ given? entries key = none := by
    simp only [gives_iff distinct]
    exact Option.eq_none_iff_forall_ne_some.symm
  constructor
  · intro h key
    exact ⟨fun value hvalue => h.given key value ((gives_iff distinct).2 hvalue),
      fun hmissing => h.kept key ((hnone key).2 hmissing)⟩
  · intro h
    exact ⟨fun key value hvalue => (h key).1 value ((gives_iff distinct).1 hvalue),
      fun key hmissing => (h key).2 ((hnone key).1 hmissing)⟩

/-- Each default can be written as a value. -/
theorem exists_holds_default (key : Key) : ∃ value, key.Holds {} value := by
  cases key with
  | wrapWidth => exact ⟨_, 120, rfl, rfl⟩
  | _ => exact ⟨_, rfl⟩

/-- What is read for a setting fits, where `setting` takes it out of all settings. -/
theorem orDefault_iff_fits {α : Type} {key : Key} {read? : Value → Option α}
    (setting : Settings → α)
    (hread : ∀ settings value, read? value = some (setting settings) ↔
      key.Holds settings value) :
    Value.orDefault (setting {}) read? (given? entries key) = some (setting settings) ↔
      Fits entries settings key := by
  rw [Fits]
  cases hgiven : given? entries key with
  | none =>
    simp only [Value.orDefault, Option.some.injEq, reduceCtorEq, false_implies, implies_true,
      true_and, true_implies]
    constructor
    · intro heq
      obtain ⟨value, hvalue⟩ := exists_holds_default key
      refine ⟨value, (hread settings value).1 ?_, hvalue⟩
      rw [← heq]
      exact (hread {} value).2 hvalue
    · rintro ⟨value, hvalue, hvalue'⟩
      exact Option.some.inj
        (((hread {} value).2 hvalue').symm.trans ((hread settings value).2 hvalue))
  | some value =>
    simp only [Value.orDefault, Option.some.injEq, reduceCtorEq, false_implies, and_true]
    constructor
    · rintro h _ rfl
      exact (hread settings value).1 h
    · exact fun h => (hread settings value).2 (h value rfl)

/-- The entries of a document give the settings that replace the defaults by what the
document gives, if there are such settings. -/
theorem ofEntries?_eq_some_iff (distinct : (Value.table entries).HasDistinctKeys)
    (tables : SectionsAreTables entries) :
    ofEntries? entries = some settings ↔ Replaces entries settings := by
  have hjava : Value.orDefault defaultTrue Value.truth? (given? entries .java) =
      some settings.recognizers.java ↔ Fits entries settings .java :=
    orDefault_iff_fits (fun settings => settings.recognizers.java)
      fun _ _ => truth?_eq_some_iff
  have hwidth : Value.orDefault defaultWrapWidth Value.natural? (given? entries .wrapWidth) =
      some settings.display.wrapWidth ↔ Fits entries settings .wrapWidth :=
    orDefault_iff_fits (fun settings => settings.display.wrapWidth)
      fun _ _ => natural?_eq_some_iff
  have hseparator : Value.orDefault defaultSeparator Value.text? (given? entries .separator) =
      some settings.display.separator ↔ Fits entries settings .separator :=
    orDefault_iff_fits (fun settings => settings.display.separator)
      fun _ _ => text?_eq_some_iff
  have hbreak : Value.orDefault defaultLineBreak Value.text? (given? entries .lineBreak) =
      some settings.display.lineBreak ↔ Fits entries settings .lineBreak :=
    orDefault_iff_fits (fun settings => settings.display.lineBreak)
      fun _ _ => text?_eq_some_iff
  have hlevel : Value.orDefault defaultLogLevel Value.text? (given? entries .level) =
      some settings.logging.level ↔ Fits entries settings .level :=
    orDefault_iff_fits (fun settings => settings.logging.level)
      fun _ _ => text?_eq_some_iff
  have hknown : Value.orDefault defaultLanguages Value.texts? (given? entries .known) =
      some settings.languages.known ↔ Fits entries settings .known :=
    orDefault_iff_fits (fun settings => settings.languages.known)
      fun _ _ => texts?_eq_some_iff
  rw [ofEntries?_iff_sections tables, recognizers_ofToml?_iff, display_ofToml?_iff,
    logging_ofToml?_iff, languages_ofToml?_iff, replaces_iff_fits distinct]
  constructor
  · rintro ⟨java, ⟨width, separator, lineBreak⟩, level, known⟩ key
    cases key with
    | java => exact hjava.1 java
    | wrapWidth => exact hwidth.1 width
    | separator => exact hseparator.1 separator
    | lineBreak => exact hbreak.1 lineBreak
    | level => exact hlevel.1 level
    | known => exact hknown.1 known
  · intro h
    exact ⟨hjava.2 (h .java),
      ⟨hwidth.2 (h .wrapWidth), hseparator.2 (h .separator), hbreak.2 (h .lineBreak)⟩,
      hlevel.2 (h .level), hknown.2 (h .known)⟩

/-- There are such settings if all values have the right types.  For each setting alone
there are settings that fit, and they are put together. -/
theorem exists_replaces_iff (distinct : (Value.table entries).HasDistinctKeys) :
    (∃ settings, Replaces entries settings) ↔
      ∀ key value, Gives entries key value → key.Accepts value := by
  constructor
  · rintro ⟨settings, h⟩ key value hvalue
    exact Key.accepts_of_holds (h.given key value hvalue)
  · intro h
    have hfits (key : Key) : ∃ settings, Fits entries settings key := by
      cases hgiven : given? entries key with
      | none =>
        obtain ⟨value, hvalue⟩ := exists_holds_default key
        exact ⟨{}, by simp [hgiven], fun _ => ⟨value, hvalue, hvalue⟩⟩
      | some value =>
        obtain ⟨settings, hholds⟩ :=
          Key.exists_holds_of_accepts (h key value ((gives_iff distinct).2 hgiven))
        refine ⟨settings, ?_, by simp [hgiven]⟩
        intro other hother
        rwa [← Option.some.inj (hgiven.symm.trans hother)]
    choose fitting hfitting using hfits
    refine ⟨{
      recognizers := { java := (fitting .java).recognizers.java }
      display := {
        wrapWidth := (fitting .wrapWidth).display.wrapWidth
        separator := (fitting .separator).display.separator
        lineBreak := (fitting .lineBreak).display.lineBreak }
      logging := { level := (fitting .level).logging.level }
      languages := { known := (fitting .known).languages.known } },
      (replaces_iff_fits distinct).2 fun key => ?_⟩
    cases key with
    | java => exact hfitting .java
    | wrapWidth => exact hfitting .wrapWidth
    | separator => exact hfitting .separator
    | lineBreak => exact hfitting .lineBreak
    | level => exact hfitting .level
    | known => exact hfitting .known

/-- The width is zero if a document says so, since the default is not. -/
theorem wrapWidth_eq_zero_iff (h : Replaces entries settings) :
    settings.display.wrapWidth = 0 ↔ Gives entries .wrapWidth (.integer 0) := by
  constructor
  · intro hzero
    by_cases hgiven : ∃ value, Gives entries .wrapWidth value
    · obtain ⟨value, hvalue⟩ := hgiven
      obtain ⟨number, hnumber, rfl⟩ := h.given _ _ hvalue
      rw [hzero] at hnumber
      have hnumber : number = 0 := Int64.toInt_inj.1 hnumber
      rwa [hnumber] at hvalue
    · obtain ⟨value, ⟨number, hnumber, rfl⟩, other, hother, heq⟩ :=
        h.kept .wrapWidth (not_exists.1 hgiven)
      rw [← Value.integer.inj heq, hnumber, hzero] at hother
      cases hother
  · intro hgiven
    obtain ⟨number, hnumber, heq⟩ := h.given _ _ hgiven
    rw [← Value.integer.inj heq] at hnumber
    exact (Int.ofNat.inj hnumber).symm

/-! ## Defaults that are left out -/

section Omitted

variable {shortened : List (String × Value)}

theorem replaces_iff_of_omitsDefaults (distinct : (Value.table entries).HasDistinctKeys)
    (omits : OmitsDefaults entries shortened) :
    Replaces shortened settings ↔ Replaces entries settings := by
  constructor
  · intro h
    refine ⟨fun key value hvalue => ?_, fun key hmissing => ?_⟩
    · rcases omits.omitted key value hvalue with hshortened | hdefault
      · exact h.given key value hshortened
      · by_cases hgiven : ∃ other, Gives shortened key other
        · obtain ⟨other, hother⟩ := hgiven
          have hboth := ((gives_iff distinct).1 hvalue).symm.trans
            ((gives_iff distinct).1 (omits.kept key other hother))
          rw [Option.some.inj hboth]
          exact h.given key other hother
        · obtain ⟨other, hother, hother'⟩ := h.kept key (not_exists.1 hgiven)
          rwa [Key.holds_unique hdefault hother']
    · exact h.kept key fun value hvalue => hmissing value (omits.kept key value hvalue)
  · intro h
    refine ⟨fun key value hvalue => h.given key value (omits.kept key value hvalue),
      fun key hmissing => ?_⟩
    by_cases hgiven : ∃ value, Gives entries key value
    · obtain ⟨value, hvalue⟩ := hgiven
      have hdefault := (omits.omitted key value hvalue).resolve_left (hmissing value)
      exact ⟨value, h.given key value hvalue, hdefault⟩
    · exact h.kept key (not_exists.1 hgiven)

/-- Whether a default is written down or left out makes no difference. -/
theorem ofEntries?_eq_of_omitsDefaults (distinct : (Value.table entries).HasDistinctKeys)
    (distinct' : (Value.table shortened).HasDistinctKeys) (tables : SectionsAreTables entries)
    (tables' : SectionsAreTables shortened) (omits : OmitsDefaults entries shortened) :
    ofEntries? shortened = ofEntries? entries := by
  refine Option.ext fun settings => ?_
  rw [ofEntries?_eq_some_iff distinct tables, ofEntries?_eq_some_iff distinct' tables',
    replaces_iff_of_omitsDefaults distinct omits]

end Omitted

end Replaces

/-! ## Documents -/

/-- A document whose sections are tables is accepted if it is valid, all the values
that it gives to known settings have the right types, and it does not give zero as the
width.  It then gives the settings in which these values replace the defaults.  The
width is positive, and defaults can be left out. -/
theorem ofToml_replaces_defaults (document : String)
    (tables : ∀ entries, read? document = some entries → SectionsAreTables entries) :
    (∀ settings, ofToml document = .ok settings ↔
      ∃ entries, read? document = some entries ∧ Replaces entries settings ∧
        settings.display.wrapWidth ≠ 0) ∧
    ((∃ settings, ofToml document = .ok settings) ↔
      ∃ entries, read? document = some entries ∧
        (∀ key value, Gives entries key value → key.Accepts value) ∧
        ¬ Gives entries .wrapWidth (.integer 0)) ∧
    (∀ settings, ofToml document = .ok settings → 1 ≤ settings.display.wrapWidth) ∧
    (∀ shortened entries entries', read? document = some entries →
      read? shortened = some entries' → SectionsAreTables entries' →
      OmitsDefaults entries entries' → ofToml shortened = ofToml document) := by
  have hgives (settings : Settings) : ofToml document = .ok settings ↔
      ∃ entries, read? document = some entries ∧ Replaces entries settings ∧
        settings.display.wrapWidth ≠ 0 := by
    rw [ofToml, ofTomlAt_eq_ok_iff, Option.bind_eq_bind, Option.bind_eq_some_iff]
    constructor
    · rintro ⟨⟨entries, hread, hentries⟩, hpositive⟩
      exact ⟨entries, hread, (ofEntries?_eq_some_iff (hasDistinctKeys_of_read? hread)
        (tables entries hread)).1 hentries, hpositive⟩
    · rintro ⟨entries, hread, hentries, hpositive⟩
      exact ⟨⟨entries, hread, (ofEntries?_eq_some_iff (hasDistinctKeys_of_read? hread)
        (tables entries hread)).2 hentries⟩, hpositive⟩
  refine ⟨hgives, ?accepted, ?positive, ?shortened⟩
  case accepted =>
    constructor
    · rintro ⟨settings, h⟩
      obtain ⟨entries, hread, hentries, hpositive⟩ := (hgives settings).1 h
      exact ⟨entries, hread,
        (exists_replaces_iff (hasDistinctKeys_of_read? hread)).1 ⟨settings, hentries⟩,
        fun hzero => hpositive ((wrapWidth_eq_zero_iff hentries).2 hzero)⟩
    · rintro ⟨entries, hread, haccepts, hzero⟩
      obtain ⟨settings, hentries⟩ :=
        (exists_replaces_iff (hasDistinctKeys_of_read? hread)).2 haccepts
      exact ⟨settings, (hgives settings).2 ⟨entries, hread, hentries,
        fun hwidth => hzero ((wrapWidth_eq_zero_iff hentries).1 hwidth)⟩⟩
  case positive =>
    intro settings h
    obtain ⟨-, -, -, hpositive⟩ := (hgives settings).1 h
    omega
  case shortened =>
    intro shortened entries entries' hread hread' tables' omits
    have hentries : ofEntries? entries' = ofEntries? entries :=
      ofEntries?_eq_of_omitsDefaults (hasDistinctKeys_of_read? hread)
        (hasDistinctKeys_of_read? hread') (tables entries hread) tables' omits
    simp [ofToml, ofTomlAt, hread, hread', hentries]

/-- A document with a table and a key that are not known, and with a width that is the
default. -/
def weather : String :=
  "[weather]\nsun = true\n\n[display]\nseparator = \"+\"\ncolour = 3\nwrap_width = 120\n"

/-- What of it replaces a default. -/
def weatherless : String :=
  "[display]\nseparator = \"+\"\n"

theorem read?_weather :
    read? weather = some [("weather", .table [("sun", .boolean true)]),
      ("display", .table [("separator", .string "+"), ("colour", .integer 3),
        ("wrap_width", .integer 120)])] := by
  have hspells : List.Forall₂ SpellsSection
      [("weather", [("sun", writeBoolean true)]),
        ("display", [("separator", writeString "+"), ("colour", writeNatural 3),
          ("wrap_width", writeNatural 120)])]
      [("weather", [("sun", .boolean true)]),
        ("display", [("separator", .string "+"), ("colour", .integer (.ofInt 3)),
          ("wrap_width", .integer (.ofInt 120))])] := by
    refine .cons ?_ (.cons ?_ .nil)
    · exact .mk (by decide) (.cons (.mk (by decide) (spells_writeBoolean _ _)) .nil)
    · refine .mk (by decide) (.cons ?_ (.cons ?_ (.cons ?_ .nil)))
      · exact .mk (by decide) (spells_writeString _ _)
      · exact .mk (by decide) (spells_writeNatural _ (by decide))
      · exact .mk (by decide) (spells_writeNatural _ (by decide))
  have hread := read?_writeSections hspells ⟨by simp, by simp⟩
  exact (congrArg read? (by decide +kernel)).trans hread

theorem read?_weatherless :
    read? weatherless = some [("display", .table [("separator", .string "+")])] := by
  have hspells : List.Forall₂ SpellsSection [("display", [("separator", writeString "+")])]
      [("display", [("separator", .string "+")])] :=
    .cons (.mk (by decide) (.cons (.mk (by decide) (spells_writeString _ _)) .nil)) .nil
  have hread := read?_writeSections hspells ⟨by simp, by simp⟩
  exact (congrArg read? (by decide +kernel)).trans hread

/-- The separator is replaced, and the width can be left out. -/
theorem ofToml_replaces_defaults_weather :
    ofToml weather = .ok { display := { separator := "+" } } ∧
      ofToml weatherless = .ok { display := { separator := "+" } } := by
  have distinct := hasDistinctKeys_of_read? read?_weather
  have distinct' := hasDistinctKeys_of_read? read?_weatherless
  obtain ⟨hgives, -, -, hshortened⟩ := ofToml_replaces_defaults weather (by
    intro entries hentries key value h
    cases read?_weather.symm.trans hentries
    simp only [List.mem_cons, Prod.mk.injEq, List.not_mem_nil, or_false] at h
    rcases h with ⟨-, rfl⟩ | ⟨-, rfl⟩ <;> exact ⟨_, rfl⟩)
  have hspelled : ofToml weather = .ok { display := { separator := "+" } } := by
    refine (hgives _).2 ⟨_, read?_weather, (replaces_iff_fits distinct).2 fun key => ?_,
      by decide⟩
    cases key with
    | wrapWidth => exact ⟨fun _ h => ⟨120, rfl, (Option.some.inj h).symm⟩, nofun⟩
    | separator => exact ⟨fun _ h => (Option.some.inj h).symm, nofun⟩
    | _ => exact ⟨nofun, fun _ => ⟨_, rfl, rfl⟩⟩
  have homits := hshortened weatherless _ _ read?_weather read?_weatherless
    (by simp [SectionsAreTables]) ⟨?kept, ?omitted⟩
  case kept =>
    intro key value
    rw [gives_iff distinct, gives_iff distinct']
    cases key with
    | separator => exact id
    | _ => nofun
  case omitted =>
    intro key value
    rw [gives_iff distinct, gives_iff distinct']
    cases key with
    | wrapWidth => exact fun h => .inr ⟨120, rfl, (Option.some.inj h).symm⟩
    | separator => exact .inl
    | _ => nofun
  exact ⟨hspelled, homits.trans hspelled⟩

end RouteScope.Settings
