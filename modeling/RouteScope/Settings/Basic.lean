/-!
# Settings

What a user can configure, in four sections, and the values that hold when
nothing is configured.  Defaults are given in two places: the ones below are for
a setting that is missing in a section, and each section has a default for when
it is missing as a whole.
-/

namespace RouteScope

/-! ## Defaults of single settings -/

def defaultTrue : Bool := true

def defaultWrapWidth : Nat := 120

def defaultSeparator : String := "&"

def defaultLineBreak : String := "\n"

def defaultLogLevel : String := "warn"

def defaultLanguages : List String :=
  ["simple", "constant", "header", "exchangeProperty", "jsonpath", "xpath", "xquery",
    "tokenize", "javaScript", "groovy", "spel", "ognl", "mvel", "method", "bean", "ref",
    "jq"]

/-! ## Sections -/

/-- Which recognizers take part: the one for routes that are written in Java. -/
structure RecognizerSettings where
  java : Bool := true
deriving DecidableEq, Repr

/-- How long endpoint URIs are shown: the width up to which a line is filled, the
text in front of which it may be broken, and the text between two lines. -/
structure DisplaySettings where
  wrapWidth : Nat := defaultWrapWidth
  separator : String := defaultSeparator
  lineBreak : String := defaultLineBreak
deriving DecidableEq, Repr

/-- The least severe level that is logged. -/
structure LoggingSettings where
  level : String := defaultLogLevel
deriving DecidableEq, Repr

/-- The names of the expression languages that are looked for; the first one that
fits a literal counts. -/
structure LanguageSettings where
  known : List String := defaultLanguages
deriving DecidableEq, Repr

structure Settings where
  recognizers : RecognizerSettings := {}
  display : DisplaySettings := {}
  logging : LoggingSettings := {}
  languages : LanguageSettings := {}
deriving DecidableEq, Repr

namespace Settings

/-- The text of the setting with a key such as `display.separator`, if there is
such a setting. -/
def get? (settings : Settings) (key : String) : Option String :=
  match key with
  | "recognizers.java" => some (toString settings.recognizers.java)
  | "display.wrap_width" => some (toString settings.display.wrapWidth)
  | "display.separator" => some settings.display.separator
  | "display.line_break" => some settings.display.lineBreak
  | "logging.level" => some settings.logging.level
  | "languages.known" => some (", ".intercalate settings.languages.known)
  | _ => none

end Settings

end RouteScope
