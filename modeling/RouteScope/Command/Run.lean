import RouteScope.Command.Arguments
import RouteScope.Endpoint.Uri
import RouteScope.Endpoint.Wrap
import RouteScope.FileKind
import RouteScope.Json.Printer
import RouteScope.Language
import RouteScope.Report.Json
import RouteScope.Report.Scan
import RouteScope.Report.Text
import RouteScope.Settings.Json
import RouteScope.Settings.Load

/-!
# Running a command

A command line is answered in three steps: it is read, the settings are loaded,
and the command does its work with them.  What the program finds around it is
given as a value, so the answer is a function of the arguments and of that.
-/

namespace RouteScope.Command

/-- What a program finds around it: what is at each path, the path of the settings in a
variable of the environment, and the path where they are looked for if no other is
given. -/
structure Surroundings where
  stateOf : String → FileState
  inherited? : Option String
  usual? : Option String

/-- How a run ends: with nothing to be done, with a failure or with an answer. -/
inductive Outcome where
  | stopped (stop : Stop)
  | failed (failure : Failure)
  | answered (text : String)

/-! ## Answers -/

/-- A value for programs, with a line break at its end. -/
def jsonText (value : Json) : String :=
  value.pretty ++ "\n"

/-- One of two answers; the one for people may be missing. -/
def answer (format : Format) (text? : Option String) (members : List (String × Json)) :
    String :=
  match format with
  | .text => (text?.map (· ++ "\n")).getD ""
  | .json => jsonText (.record members)

/-- A text wrapped with the settings, as far as the command gives no others. -/
def wrapAnswer (settings : DisplaySettings) (format : Format) (text : String)
    (width? : Option Nat) (separator? : Option String) : String :=
  let width := width?.getD settings.wrapWidth
  let separator := separator?.getD settings.separator
  let wrapped := Endpoint.wrap separator settings.lineBreak width text
  answer format (some wrapped)
    [("width", .natural width), ("lines", .texts (Text.split settings.lineBreak wrapped))]

/-- Refuses paths of files in which no routes can be looked for. -/
def requireGrammar (path : String) : Except Failure Unit := do
  let kind ← FileKind.ofPath (.ofText path)
  unless kind.hasGrammar do
    throw (.unsupportedFile kind.name)

/-- The syntax tree of the file at a path, given what is found there. -/
def sourceTree (path : String) : FileState → Except Failure Tree
  | .missing => throw (.fileNotFound path)
  | .unreadable reason => do
      requireGrammar path
      throw (.inputOutput reason)
  | .text _ tree? => do
      requireGrammar path
      match tree? with
      | some tree => return tree
      | none => throw (.unparsable "parser produced no tree")

/-- The report on the file at a path, given what is found there. -/
def scanReport (settings : Settings) (path : String) (state : FileState) :
    Except Failure Report := do
  let tree ← sourceTree path state
  match Report.ofTree? settings path tree with
  | some report => return report
  | none => throw (.unparsable "a string literal is broken")

/-- The setting with a key, or all settings. -/
def configAnswer (settings : Settings) (format : Format) :
    Option String → Except Failure String
  | none =>
      match format with
      | .text => settings.toToml
      | .json => .ok (jsonText settings.toJson)
  | some key =>
      match settings.get? key with
      | none => .error (.configuration "<command line>" s!"unknown configuration key: {key}")
      | some value =>
          .ok (answer format (some value) [("key", .text key), ("value", .text value)])

/-- What a request is answered with. -/
def perform (stateOf : String → FileState) (settings : Settings) (format : Format) :
    Request → Except Failure String
  | .component uri =>
      let component? := Endpoint.component? uri
      .ok (answer format component?
        [("uri", .text uri), ("component", .optional (component?.map .text))])
  | .queryMarker uri =>
      let hasQuery := Endpoint.hasQuery uri
      .ok (answer format (some (toString hasQuery))
        [("uri", .text uri), ("has_query", .bool hasQuery)])
  | .language name =>
      let canonical := Language.canonical name
      .ok (answer format (some canonical)
        [("name", .text name), ("canonical", .text canonical)])
  | .wrap text width? separator? =>
      .ok (wrapAnswer settings.display format text width? separator?)
  | .scan path => do
      let report ← scanReport settings path (stateOf path)
      match format with
      | .text => return report.toText
      | .json => return jsonText report.toJson
  | .config key? => configAnswer settings format key?

/-! ## Runs -/

/-- The path behind a folder and a slash. -/
def below (folder path : String) : String :=
  if folder.toList.getLast? == some '/' then folder ++ path else s!"{folder}/{path}"

/-- The path where the settings of a user are kept.  The folder for settings
counts only if its path is absolute, and otherwise it is in the user's home. -/
def usualPath? (settingsFolder? home? : Option String) : Option String :=
  let absolute? := settingsFolder?.filter fun folder => folder.toList.head? == some '/'
  let inHome? := (home?.filter (!·.isEmpty)).map (below · ".config")
  (absolute?.orElse fun _ => inHome?).map (below · "camel-lens/config.toml")

/-- The paths of the files that an invocation may read. -/
def Invocation.paths (usual? : Option String) (invocation : Invocation) : List String :=
  let settings? := invocation.config?.orElse fun _ => usual?
  match invocation.request with
  | .scan path => settings?.toList ++ [path]
  | _ => settings?.toList

namespace Surroundings

/-- The settings that hold for an invocation. -/
def settings (around : Surroundings) (invocation : Invocation) : Except Failure Settings :=
  match invocation.config?.orElse fun _ => around.usual? with
  | some path => Settings.load path (around.stateOf path)
  | none => .ok {}

def answer (around : Surroundings) (invocation : Invocation) : Except Failure String := do
  let settings ← around.settings invocation
  perform around.stateOf settings invocation.format invocation.request

/-- Runs a command line. -/
def run (around : Surroundings) (arguments : List String) : Outcome :=
  match readArguments around.inherited? arguments with
  | .error stop => .stopped stop
  | .ok invocation =>
      match around.answer invocation with
      | .error failure => .failed failure
      | .ok text => .answered text

end Surroundings

/-! ## What a program shows -/

def usage : String :=
  String.join ([
    "Finds Camel routes, endpoints and expressions in source files",
    "",
    "Usage: camel-lens [OPTIONS] <COMMAND>",
    "",
    "Commands:",
    "  component     Print the component name of an endpoint URI",
    "  query-marker  Tell whether an endpoint URI has query parameters",
    "  language      Print the canonical name of an expression language",
    "  wrap          Wrap a long endpoint URI at its parameter separators",
    "  scan          Scan a Java file for routes, endpoints and expressions",
    "  config        Show the effective configuration, or one value of it",
    "",
    "Options:",
    "  -f, --format <FORMAT>  Output format, text or json",
    "      --config <CONFIG>  Configuration file",
    "  -v, --verbose          Show debug logging",
    "  -h, --help             Print help",
    "  -V, --version          Print version"].map (· ++ "\n"))

/-- The version of the program or of one of its commands. -/
def versionLine (verb? : Option Verb) : String :=
  let name := match verb? with
    | some verb => "camel-lens-" ++ verb.name
    | none => "camel-lens"
  name ++ " 0.1.0\n"

namespace Outcome

def exitCode : Outcome → Nat
  | stopped .refused => 2
  | stopped _ => 0
  | failed failure => failure.exitCode
  | answered _ => 0

def output : Outcome → String
  | stopped .help => usage
  | stopped (.version verb?) => versionLine verb?
  | answered text => text
  | _ => ""

/-- The line on a failure that is written to the standard error. -/
def errorLine? : Outcome → Option String
  | failed failure => some s!"Error: {failure.message}"
  | _ => none

end Outcome

end RouteScope.Command
