import RouteScope.Command.Switch

/-!
# Reading the command line

Arguments are read from left to right: switches, the command, and behind the
command its operand and further switches.  A switch may be given once in front
of the command and once behind it; the one behind counts.

Several letters may share one hyphen.  The value of a switch follows in the
same argument, with or without an equals sign behind a letter and with one
behind a name, or it is the next argument, which then must not look like a
switch.  Behind `--` every argument is an operand.

Whoever asks for help or for the version gets it, unless there is a mistake
further to the left.
-/

namespace RouteScope.Command

/-! ## What is read -/

/-- What is to be done; a wrapped text may come with settings of its own. -/
inductive Request where
  | component (uri : String)
  | queryMarker (uri : String)
  | language (name : String)
  | wrap (text : String) (width? : Option Nat) (separator? : Option String)
  | scan (path : String)
  | config (key? : Option String)
deriving DecidableEq, Repr

/-- A command line that makes sense: the format of its answer, the path of the settings
if it is given, and what is to be done. -/
structure Invocation where
  format : Format
  config? : Option String
  request : Request
deriving DecidableEq, Repr

/-- Why a command line asks for nothing that has to be done: it asks for help or for a
version, or it makes no sense. -/
inductive Stop where
  | help
  | version (verb? : Option Verb)
  | refused
deriving DecidableEq, Repr

/-! ## Single arguments -/

/-- Whether the argument is one or more switches. -/
def isSwitch (argument : String) : Bool :=
  match argument.toList with
  | ['-'] => false
  | ['-', '-'] => false
  | '-' :: _ => true
  | _ => false

/-- How an argument with switches ends: all of it is read, a switch waits for the next
argument as its value, or there is something that is no switch. -/
inductive Ending where
  | complete
  | awaiting (switch : Switch)
  | unknown
deriving DecidableEq, Repr

/-- The switches that an argument gives, and how it ends. -/
abbrev Reading := List (Switch × String) × Ending

/-- Reads letters behind one hyphen.  What stands behind the letter of a switch
with a value is the value. -/
def readLetters (known : List Switch) : List Char → Reading
  | [] => ([], .complete)
  | letter :: rest =>
      match known.find? (·.short? == some letter) with
      | none => ([], .unknown)
      | some switch =>
          if switch.takesValue then
            match rest with
            | [] => ([], .awaiting switch)
            | '=' :: value => ([(switch, String.ofList value)], .complete)
            | value => ([(switch, String.ofList value)], .complete)
          else
            let (switches, ending) := readLetters known rest
            ((switch, "") :: switches, ending)

/-- Reads a name behind two hyphens, with a value behind an equals sign. -/
def readName (known : List Switch) (text : List Char) : Reading :=
  let (name, rest) := text.span (· != '=')
  match known.find? (·.long.toList == name), rest with
  | none, _ => ([], .unknown)
  | some switch, [] =>
      if switch.takesValue then ([], .awaiting switch) else ([(switch, "")], .complete)
  | some switch, _ :: value =>
      if switch.takesValue then
        ([(switch, String.ofList value)], .complete)
      else
        ([], .unknown)

/-- Reads an argument that is one or more switches. -/
def readSwitch (known : List Switch) (argument : String) : Reading :=
  match argument.toList with
  | '-' :: '-' :: name => readName known name
  | letters => readLetters known (letters.drop 1)

/-! ## Switches -/

/-- The switches that have been given, with their values. -/
abbrev Given := List (Switch × String)

namespace Given

def value? (given : Given) (switch : Switch) : Option String :=
  given.lookup switch

/-- Takes a switch behind a command or in front of all commands.  No switch is
taken twice. -/
def add (verb? : Option Verb) (given : Given) :
    Switch × String → Except Stop Given
  | (switch, value) =>
      if (given.value? switch).isSome || !switch.accepts value then
        .error .refused
      else
        match switch with
        | .help => .error .help
        | .version => .error (.version verb?)
        | _ => .ok ((switch, value) :: given)

def addAll (verb? : Option Verb) (given : Given) (switches : List (Switch × String)) :
    Except Stop Given :=
  switches.foldlM (add verb?) given

end Given

/-- Switches that have been read up to an argument that is none, and the arguments that
are left.  A switch whose value was an argument of its own has yet to be taken when it
comes last. -/
structure Progress where
  given : Given
  last? : Option (Switch × String)
  rest : List String

/-- Takes the switch that has yet to be taken. -/
def Progress.settle (verb? : Option Verb) (progress : Progress) : Except Stop Given :=
  progress.given.addAll verb? progress.last?.toList

/-- Reads switches up to the first argument that is none. -/
def readSwitches (verb? : Option Verb) (given : Given) (last? : Option (Switch × String)) :
    List String → Except Stop Progress
  | [] => return ⟨given, last?, []⟩
  | argument :: rest =>
      if isSwitch argument then do
        let given ← given.addAll verb? last?.toList
        let (switches, ending) := readSwitch (switchesOf verb?) argument
        let given ← given.addAll verb? switches
        match ending, rest with
        | .complete, rest => readSwitches verb? given none rest
        | .awaiting switch, value :: rest =>
            if isSwitch value || value == "--" then
              throw .refused
            else
              readSwitches verb? given (some (switch, value)) rest
        | _, _ => throw .refused
      else
        return ⟨given, last?, argument :: rest⟩

/-! ## Commands -/

/-- An operand of a command, which must be a path for some of them. -/
def operand (verb : Verb) (argument : String) : Except Stop String :=
  if verb = .scan ∧ argument.isEmpty then .error .refused else .ok argument

/-- Reads what stands behind a command: switches, and an operand if there is
one. -/
def readBehind (verb : Verb) (arguments : List String) :
    Except Stop (Given × Option String) := do
  let progress ← readSwitches (some verb) [] none arguments
  let given ← progress.settle (some verb)
  match progress.rest with
  | [] => return (given, none)
  | ["--"] => return (given, none)
  | ["--", argument] => return (given, some (← operand verb argument))
  | "--" :: _ => throw .refused
  | argument :: rest =>
      let operand ← operand verb argument
      let progress ← readSwitches (some verb) given none rest
      let given ← progress.settle (some verb)
      match progress.rest with
      | [] => return (given, some operand)
      | ["--"] => return (given, some operand)
      | _ => throw .refused

/-- What a command with switches and an operand is to do.  There is one command
that needs no operand. -/
def request (verb : Verb) (given : Given) : Option String → Except Stop Request
  | some operand =>
      match verb with
      | .component => .ok (.component operand)
      | .queryMarker => .ok (.queryMarker operand)
      | .language => .ok (.language operand)
      | .wrap =>
          .ok (.wrap operand ((given.value? .width).bind Command.width?)
            (given.value? .separator))
      | .scan => .ok (.scan operand)
      | .config => .ok (.config (some operand))
  | none => if verb = .config then .ok (.config none) else .error .refused

/-- The path of the settings.  A variable stands in for the switch, and it must
not be empty wherever the switch could have been given and was not. -/
def configPath (inherited? : Option String) (before behind : Given) :
    Except Stop (Option String) :=
  match behind.value? .config, before.value? .config with
  | some path, some _ => .ok (some path)
  | behind, before =>
      if inherited? = some "" then
        .error .refused
      else
        .ok ((behind.orElse fun _ => before).orElse fun _ => inherited?)

/-- Asks for help, in general or on one command. -/
def readHelp : List String → Stop
  | [] => .help
  | [name] => if name = "help" ∨ (Verb.ofName? name).isSome then .help else .refused
  | _ => .refused

/-- Reads a command line.  The value of the last switch in front of a command is
looked at when everything behind the command has been read. -/
def readArguments (inherited? : Option String) (arguments : List String) :
    Except Stop Invocation := do
  let progress ← readSwitches none [] none arguments
  match progress.rest with
  | "help" :: names => throw (readHelp names)
  | name :: rest =>
      match Verb.ofName? name with
      | none => throw .refused
      | some verb =>
          let (behind, operand?) ← readBehind verb rest
          let before ← progress.settle none
          let config? ← configPath inherited? before behind
          let request ← request verb behind operand?
          let format := (behind.value? .format).orElse fun _ => before.value? .format
          return {
            format := (format.bind Format.ofName?).getD .text
            config?
            request }
  | [] => throw .refused

end RouteScope.Command
