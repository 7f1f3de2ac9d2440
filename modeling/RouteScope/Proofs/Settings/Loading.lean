import RouteScope.Proofs.Settings.RoundTrip

/-!
# Failures of loading

Settings in a file are looked for, read, decoded and checked, and each of these stages
can be the last one.  `Loads` tells how it ends, and `load` does that.

What fails in decoding or in the check fails as a configuration at the path of the
file, with the reason for which its text is refused outside of a file, and the program
ends with exit code 5.  A file that cannot be read is different: its failure is passed
on as one of input and output, and the exit code is 1.

* `load_eq_iff_loads`: the stages.
* `run_eq_failed_of_load`: no command is carried out without settings.
* `load_fails_in_configuration_iff`: what fails as a configuration, and what does not.
* `load_folder`: a folder at the path.
-/

namespace RouteScope

/-- The failure is one of the configuration that was read from the path. -/
def Failure.IsConfigurationAt (path : String) (failure : Failure) : Prop :=
  ∃ reason, failure = .configuration path reason

theorem Failure.IsConfigurationAt.exitCode_eq {path : String} {failure : Failure}
    (h : failure.IsConfigurationAt path) : failure.exitCode = 5 := by
  obtain ⟨reason, rfl⟩ := h
  rfl

/-- What is at the path can be read, if there is anything. -/
def FileState.IsReadable (state : FileState) : Prop :=
  ∀ reason, state ≠ .unreadable reason

/-- Bytes can be read if they are a text in UTF-8. -/
theorem FileState.isReadable_ofBytes_iff {bytes : ByteArray} :
    (FileState.ofBytes bytes).IsReadable ↔ bytes.IsValidUTF8 := by
  rw [IsReadable, ofBytes, String.fromUTF8?]
  by_cases h : bytes.IsValidUTF8 <;> simp [h]

/-- Without any switches the settings are shown that are found. -/
theorem Command.readArguments_config {inherited? : Option String} (h : inherited? ≠ some "") :
    readArguments inherited? ["config"] = .ok ⟨.text, inherited?, .config none⟩ := by
  have hpath : configPath inherited? [] [] = .ok inherited? := if_neg h
  calc readArguments inherited? ["config"]
    _ = (configPath inherited? [] []).bind fun config? =>
          .ok ⟨.text, config?, .config none⟩ := rfl
    _ = .ok ⟨.text, inherited?, .config none⟩ := by
        rw [hpath]
        rfl

namespace Settings

/-! ## Stages -/

/-- A document holds the settings, which have not been checked yet. -/
def Decodes (document : String) (settings : Settings) : Prop :=
  ∃ entries, Toml.read? document = some entries ∧ ofEntries? entries = some settings

/-- How the loading of a file ends, by the stage that it comes to. -/
inductive Loads (path : String) : FileState → Except Failure Settings → Prop where
  | missing : Loads path .missing (.ok {})
  | unread (reason : String) :
      Loads path (.unreadable reason) (.error (.inputOutput reason))
  | undecoded (document : String) (tree? : Option Tree)
      (h : ∀ settings, ¬ Decodes document settings) :
      Loads path (.text document tree?) (.error (.configuration path
        "Failed to parse config: not a TOML document of settings"))
  | unchecked (document : String) (tree? : Option Tree) (settings : Settings)
      (h : Decodes document settings) (hzero : settings.display.wrapWidth = 0) :
      Loads path (.text document tree?) (.error (.configuration path
        "display.wrap_width must be greater than zero"))
  | loaded (document : String) (tree? : Option Tree) (settings : Settings)
      (h : Decodes document settings) (hpositive : 1 ≤ settings.display.wrapWidth) :
      Loads path (.text document tree?) (.ok settings)

theorem decodes_iff {document : String} {settings : Settings} :
    Decodes document settings ↔ Toml.read? document >>= ofEntries? = some settings :=
  Option.bind_eq_some_iff.symm

/-- A document holds at most one choice of settings. -/
theorem Decodes.unique {document : String} {settings settings' : Settings}
    (h : Decodes document settings) (h' : Decodes document settings') : settings = settings' :=
  Option.some.inj ((decodes_iff.1 h).symm.trans (decodes_iff.1 h'))

section Stages

variable {path : String} {state : FileState} {outcome : Except Failure Settings}

theorem loads_load (path : String) (state : FileState) : Loads path state (load path state) := by
  cases state with
  | missing => exact .missing
  | unreadable reason => exact .unread reason
  | text document tree? =>
    rw [load, ofTomlAt]
    split
    · rename_i hnone
      refine .undecoded document tree? fun settings h => ?_
      rw [decodes_iff.1 h] at hnone
      cases hnone
    · rename_i settings hsome
      split
      · exact .unchecked document tree? settings (decodes_iff.2 hsome) ‹_›
      · exact .loaded document tree? settings (decodes_iff.2 hsome) (by omega)

/-- No file is loaded in two ways. -/
theorem Loads.unique {outcome' : Except Failure Settings} (h : Loads path state outcome)
    (h' : Loads path state outcome') : outcome = outcome' := by
  cases h with
  | missing => cases h'; rfl
  | unread => cases h'; rfl
  | undecoded _ _ hnone =>
    cases h' with
    | undecoded => rfl
    | unchecked _ _ settings hdecodes => exact absurd hdecodes (hnone settings)
    | loaded _ _ settings hdecodes => exact absurd hdecodes (hnone settings)
  | unchecked _ _ settings hdecodes hzero =>
    cases h' with
    | undecoded _ _ hnone => exact absurd hdecodes (hnone settings)
    | unchecked => rfl
    | loaded _ _ _ hdecodes' hpositive =>
      rw [hdecodes'.unique hdecodes, hzero] at hpositive
      cases hpositive
  | loaded _ _ settings hdecodes hpositive =>
    cases h' with
    | undecoded _ _ hnone => exact absurd hdecodes (hnone settings)
    | unchecked _ _ _ hdecodes' hzero =>
      rw [hdecodes.unique hdecodes', hzero] at hpositive
      cases hpositive
    | loaded _ _ _ hdecodes' => rw [hdecodes.unique hdecodes']

theorem load_eq_iff_loads : load path state = outcome ↔ Loads path state outcome := by
  constructor
  · rintro rfl
    exact loads_load path state
  · exact (loads_load path state).unique

end Stages

/-! ## Failures -/

section Failures

variable {path : String} {state : FileState} {failure : Failure}

/-- A text is refused for the same reason wherever it is. -/
theorem ofTomlAt_eq_error_iff (path other : String) {document reason : String} :
    ofTomlAt path document = .error (.configuration path reason) ↔
      ofTomlAt other document = .error (.configuration other reason) := by
  rw [ofTomlAt, ofTomlAt]
  split
  · simp
  · split <;> simp

/-- What can be read fails as a configuration, or not at all. -/
theorem isConfigurationAt_of_load (hread : state.IsReadable)
    (h : load path state = .error failure) : failure.IsConfigurationAt path := by
  cases load_eq_iff_loads.1 h with
  | unread reason => exact absurd rfl (hread reason)
  | undecoded => exact ⟨_, rfl⟩
  | unchecked => exact ⟨_, rfl⟩

/-- What cannot be read fails as input, for the reason that the system gives. -/
theorem load_of_not_isReadable (path : String) (hread : ¬ state.IsReadable) :
    ∃ reason, state = .unreadable reason ∧
      load path state = .error (.inputOutput reason) := by
  simp only [FileState.IsReadable, ne_eq, not_forall, not_not] at hread
  obtain ⟨reason, rfl⟩ := hread
  exact ⟨reason, rfl, rfl⟩

/-- No command is carried out if the settings cannot be loaded. -/
theorem run_eq_failed_of_load {around : Command.Surroundings} {arguments : List String}
    {invocation : Command.Invocation}
    (hinvocation : Command.readArguments around.inherited? arguments = .ok invocation)
    (hpath : (invocation.config?.orElse fun _ => around.usual?) = some path)
    (h : load path (around.stateOf path) = .error failure) :
    around.run arguments = .failed failure := by
  have hsettings : around.settings invocation = .error failure := by
    rw [Command.Surroundings.settings, hpath]
    exact h
  have hanswer : around.answer invocation = .error failure := by
    rw [Command.Surroundings.answer, hsettings]
    rfl
  rw [Command.Surroundings.run, hinvocation]
  simp only [hanswer]

end Failures

/-- A missing file gives the defaults, and a text the settings that it holds, with a
positive width, or else a failure of the configuration at its path, for the reason for
which the text is refused outside of a file.  All failures are of that kind if the
file can be read, and only then.  They end the program with code 5, and a file that
cannot be read ends it with code 1. -/
theorem load_fails_in_configuration_iff (path : String) (state : FileState) :
    (state = .missing → load path state = .ok {}) ∧
    (∀ document tree?, state = .text document tree? →
      (∀ settings, load path state = .ok settings ↔
        Decodes document settings ∧ 1 ≤ settings.display.wrapWidth) ∧
      ∀ reason, load path state = .error (.configuration path reason) ↔
        ofToml document = .error (.configuration "<inline>" reason)) ∧
    (∀ reason, state = .unreadable reason → load path state = .error (.inputOutput reason)) ∧
    ((∀ failure, load path state = .error failure → failure.IsConfigurationAt path) ↔
      state.IsReadable) ∧
    (∀ bytes, state = .ofBytes bytes → (state.IsReadable ↔ bytes.IsValidUTF8)) ∧
    ∀ (around : Command.Surroundings) (arguments : List String)
      (invocation : Command.Invocation) (failure : Failure),
      Command.readArguments around.inherited? arguments = .ok invocation →
      (invocation.config?.orElse fun _ => around.usual?) = some path →
      around.stateOf path = state → load path state = .error failure →
      around.run arguments = .failed failure ∧
        (state.IsReadable → (around.run arguments).exitCode = 5) ∧
        (¬ state.IsReadable → (around.run arguments).exitCode = 1) := by
  refine ⟨?missing, ?text, ?unread, ?failures, ?bytes, ?run⟩
  case missing =>
    rintro rfl
    rfl
  case text =>
    rintro document tree? rfl
    refine ⟨fun settings => ?_, fun reason => ofTomlAt_eq_error_iff path "<inline>"⟩
    rw [load_eq_iff_loads]
    constructor
    · rintro (_ | _ | _ | _ | ⟨_, _, _, h, hpositive⟩)
      exact ⟨h, hpositive⟩
    · rintro ⟨h, hpositive⟩
      exact .loaded document tree? settings h hpositive
  case unread =>
    rintro reason rfl
    rfl
  case failures =>
    constructor
    · rintro h reason rfl
      obtain ⟨_, heq⟩ := h (.inputOutput reason) rfl
      cases heq
    · exact fun hread failure h => isConfigurationAt_of_load hread h
  case bytes =>
    rintro bytes rfl
    exact FileState.isReadable_ofBytes_iff
  case run =>
    rintro around arguments invocation failure hinvocation hpath rfl h
    have hrun := run_eq_failed_of_load hinvocation hpath h
    refine ⟨hrun, fun hread => ?_, fun hread => ?_⟩
    · rw [hrun]
      exact (isConfigurationAt_of_load hread h).exitCode_eq
    · obtain ⟨reason, -, hload⟩ := load_of_not_isReadable path hread
      cases h.symm.trans hload
      rw [hrun]
      rfl

/-- A width of zero in a file ends the program with code 5. -/
theorem load_fails_in_configuration_iff_zero :
    load "lens.toml" (.text "[display]\nwrap_width = 0\n" none) =
        .error (.configuration "lens.toml" "display.wrap_width must be greater than zero") ∧
      (Command.Surroundings.run
        ⟨fun _ => .text "[display]\nwrap_width = 0\n" none, none, some "lens.toml"⟩
        ["config"]).exitCode = 5 := by
  have hdecodes : Decodes "[display]\nwrap_width = 0\n" { display := { wrapWidth := 0 } } := by
    rw [decodes_iff]
    decide +kernel
  have hload : load "lens.toml" (.text "[display]\nwrap_width = 0\n" none) =
      .error (.configuration "lens.toml" "display.wrap_width must be greater than zero") :=
    load_eq_iff_loads.2 (.unchecked _ none _ hdecodes rfl)
  obtain ⟨-, -, -, -, -, hrun⟩ := load_fails_in_configuration_iff "lens.toml"
    (.text "[display]\nwrap_width = 0\n" none)
  obtain ⟨-, hcode, -⟩ := hrun
    ⟨fun _ => .text "[display]\nwrap_width = 0\n" none, none, some "lens.toml"⟩ ["config"]
    ⟨.text, none, .config none⟩ _ (Command.readArguments_config nofun) rfl rfl hload
  exact ⟨hload, hcode nofun⟩

/-- A folder at the path fails as input, and the program ends with code 1. -/
theorem load_folder :
    ¬ (∀ failure, load "d" .folder = .error failure → failure.IsConfigurationAt "d") ∧
      (Command.Surroundings.run ⟨fun _ => .folder, some "d", none⟩ ["config"]).exitCode = 1 := by
  constructor
  · intro h
    obtain ⟨_, heq⟩ := h (.inputOutput "Is a directory (os error 21)") rfl
    cases heq
  · have hrun : Command.Surroundings.run ⟨fun _ => .folder, some "d", none⟩ ["config"] =
        .failed (.inputOutput "Is a directory (os error 21)") :=
      run_eq_failed_of_load (Command.readArguments_config (by decide)) rfl rfl
    rw [hrun]
    rfl

end Settings

end RouteScope
