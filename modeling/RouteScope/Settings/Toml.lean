import RouteScope.Failure
import RouteScope.Settings.Basic
import RouteScope.Toml.Reader
import RouteScope.Toml.Writer

/-!
# Settings as TOML

Settings are kept in a TOML document with a table for each section.  A setting
that is missing has its default value, a key that is not known is passed over,
and a value of the wrong type spoils the document.

A section may also be a list of its settings in their fixed order, of which the
last ones may be missing.  A point in time is a section without any settings.
-/

namespace RouteScope

open Toml (Value)

/-! ## Values -/

def Toml.Value.text? : Value → Option String
  | string text => some text
  | _ => none

def Toml.Value.truth? : Value → Option Bool
  | boolean value => some value
  | _ => none

def Toml.Value.natural? : Value → Option Nat
  | integer value => value.toInt.toNat?
  | _ => none

def Toml.Value.texts? : Value → Option (List String)
  | array items => items.mapM text?
  | _ => none

/-- What `read?` makes of a value, or the default if there is no value. -/
def Toml.Value.orDefault {α : Type} (default : α) (read? : Value → Option α) :
    Option Value → Option α
  | some value => read? value
  | none => some default

/-- The setting of a section that has the key, or the place in a list.  The
outer option tells whether the value is a section at all. -/
def Toml.Value.setting? (place : Nat) (key : String) : Value → Option (Option Value)
  | table entries => some (entries.lookup key)
  | array items => some items[place]?
  | moment _ => some none
  | _ => none

/-! ## Reading -/

def RecognizerSettings.ofToml? (value : Value) : Option RecognizerSettings := do
  let java ← (← value.setting? 0 "java") |> Value.orDefault defaultTrue Value.truth?
  return { java }

def DisplaySettings.ofToml? (value : Value) : Option DisplaySettings := do
  let wrapWidth ←
    (← value.setting? 0 "wrap_width") |> Value.orDefault defaultWrapWidth Value.natural?
  let separator ←
    (← value.setting? 1 "separator") |> Value.orDefault defaultSeparator Value.text?
  let lineBreak ←
    (← value.setting? 2 "line_break") |> Value.orDefault defaultLineBreak Value.text?
  return { wrapWidth, separator, lineBreak }

def LoggingSettings.ofToml? (value : Value) : Option LoggingSettings := do
  let level ← (← value.setting? 0 "level") |> Value.orDefault defaultLogLevel Value.text?
  return { level }

def LanguageSettings.ofToml? (value : Value) : Option LanguageSettings := do
  let known ← (← value.setting? 0 "known") |> Value.orDefault defaultLanguages Value.texts?
  return { known }

namespace Settings

/-- The settings of a document with the given entries. -/
def ofEntries? (entries : List (String × Value)) : Option Settings := do
  let recognizers ←
    entries.lookup "recognizers" |> Value.orDefault {} RecognizerSettings.ofToml?
  let display ← entries.lookup "display" |> Value.orDefault {} DisplaySettings.ofToml?
  let logging ← entries.lookup "logging" |> Value.orDefault {} LoggingSettings.ofToml?
  let languages ← entries.lookup "languages" |> Value.orDefault {} LanguageSettings.ofToml?
  return { recognizers, display, logging, languages }

/-- The settings of the document at a path.  Lines without any width are
refused. -/
def ofTomlAt (path document : String) : Except Failure Settings :=
  match Toml.read? document >>= ofEntries? with
  | none =>
      .error (.configuration path "Failed to parse config: not a TOML document of settings")
  | some settings =>
      if settings.display.wrapWidth = 0 then
        .error (.configuration path "display.wrap_width must be greater than zero")
      else
        .ok settings

/-- The settings of a document that is in no file. -/
def ofToml (document : String) : Except Failure Settings :=
  ofTomlAt "<inline>" document

/-! ## Writing -/

/-- All sections with all their settings. -/
def tomlChars (settings : Settings) : List Char :=
  Toml.writeSections [
    Toml.writeSection "recognizers" [
      ("java", Toml.writeBoolean settings.recognizers.java)],
    Toml.writeSection "display" [
      ("wrap_width", Toml.writeNatural settings.display.wrapWidth),
      ("separator", Toml.writeString settings.display.separator),
      ("line_break", Toml.writeString settings.display.lineBreak)],
    Toml.writeSection "logging" [
      ("level", Toml.writeString settings.logging.level)],
    Toml.writeSection "languages" [
      ("known", Toml.writeStrings settings.languages.known)]]

/-- The document that holds all settings.  There is none if the width does not
fit into a signed number of 64 bits. -/
def toToml (settings : Settings) : Except Failure String :=
  if settings.display.wrapWidth ≤ Int64.maxValue.toInt then
    .ok (String.ofList settings.tomlChars)
  else
    .error (.unwritable "Failed to serialize config")

end Settings

end RouteScope
