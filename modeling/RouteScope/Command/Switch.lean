/-!
# Commands and switches

The words of the command line: the commands that may be given, the formats of
an answer, and the switches that change how a command works.
-/

namespace RouteScope.Command

inductive Verb where
  | component
  | queryMarker
  | language
  | wrap
  | scan
  | config
deriving DecidableEq, Repr

namespace Verb

def name : Verb → String
  | component => "component"
  | queryMarker => "query-marker"
  | language => "language"
  | wrap => "wrap"
  | scan => "scan"
  | config => "config"

/-- The command with a name.  One command has a short name as well. -/
def ofName? : String → Option Verb
  | "component" => some component
  | "query-marker" => some queryMarker
  | "language" => some language
  | "wrap" => some wrap
  | "scan" => some scan
  | "s" => some scan
  | "config" => some config
  | _ => none

theorem ofName?_name (verb : Verb) : ofName? verb.name = some verb := by
  cases verb <;> rfl

end Verb

/-- The formats of an answer, for people and for programs. -/
inductive Format where
  | text
  | json
deriving DecidableEq, Repr

def Format.ofName? : String → Option Format
  | "text" => some text
  | "json" => some json
  | _ => none

/-- A width: digits, with or without a plus in front, that stand for a number of
at most 64 bits. -/
def width? (text : String) : Option Nat :=
  let digits := match text.toList with
    | '+' :: digits => digits
    | digits => digits
  if digits.all Char.isDigit then
    (String.ofList digits).toNat?.filter (· < UInt64.size)
  else
    none

/-- The switches.  The answer does not depend on `verbose`. -/
inductive Switch where
  | format
  | config
  | verbose
  | help
  | version
  | width
  | separator
deriving DecidableEq, Repr

namespace Switch

def long : Switch → String
  | format => "format"
  | config => "config"
  | verbose => "verbose"
  | help => "help"
  | version => "version"
  | width => "width"
  | separator => "separator"

def short? : Switch → Option Char
  | format => some 'f'
  | config => none
  | verbose => some 'v'
  | help => some 'h'
  | version => some 'V'
  | width => some 'w'
  | separator => some 's'

def takesValue : Switch → Bool
  | format | config | width | separator => true
  | verbose | help | version => false

def accepts : Switch → String → Bool
  | format, value => (Format.ofName? value).isSome
  | config, value => !value.isEmpty
  | width, value => (width? value).isSome
  | _, _ => true

/-- The switches that go with every command and may also stand in front of it. -/
def shared : List Switch := [format, config, verbose, help, version]

end Switch

/-- The switches that are known behind a command, or in front of all commands. -/
def switchesOf : Option Verb → List Switch
  | some .wrap => .width :: .separator :: Switch.shared
  | _ => Switch.shared

end RouteScope.Command
