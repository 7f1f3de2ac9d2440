import RouteScope.Report.Basic
import RouteScope.Text.Split

/-!
# Reports as text

A report for people: a heading for each kind of finding that occurs, and a line
for each finding with the line number in a column of four places.  A URI that
is wrapped at line feeds goes on below the place where it began.
-/

namespace RouteScope

/-- The text in a column that is filled up with blanks on the left. -/
def alignRight (width : Nat) (text : String) : String :=
  "".pushn ' ' (width - text.length) ++ text

/-- The text in a column that is filled up with blanks on the right. -/
def alignLeft (width : Nat) (text : String) : String :=
  text.pushn ' ' (width - text.length)

namespace Report

def lineColumn (line : Nat) : String :=
  "  " ++ alignRight 4 (toString line) ++ "  "

def routeStartLine (start : RouteStart) : String :=
  lineColumn start.line ++ start.method

def endpointRemarks (endpoint : EndpointUse) : String :=
  let remarks := (if endpoint.stringFormat then ["format"] else []) ++
    (if endpoint.validate then [] else ["no-validate"])
  if remarks.isEmpty then "" else " [" ++ ", ".intercalate remarks ++ "]"

def endpointLine (endpoint : EndpointUse) : String :=
  let margin := "".pushn ' ' 14
  lineColumn endpoint.line ++ alignLeft 8 endpoint.role.name ++ "  " ++
    ("\n" ++ margin).intercalate (Text.split "\n" endpoint.display) ++
    endpointRemarks endpoint

def expressionLine (expression : ExpressionUse) : String :=
  lineColumn expression.line ++ expression.language ++ " " ++
    (if expression.predicate then "predicate" else "expression") ++ ": " ++
    expression.text

def beanLine (bean : BeanUse) : String :=
  lineColumn bean.line ++ bean.className ++
    match bean.declaredAt? with
    | some line => s!" (line {line})"
    | none => ""

/-- Lines below a heading; nothing if there are no lines. -/
def findingLines (heading : String) (lines : List String) : List String :=
  if lines.isEmpty then [] else (heading ++ ":") :: lines

/-- A line of names behind a title; nothing if there are no names. -/
def nameLine (title : String) (names : List String) : List String :=
  if names.isEmpty then [] else [title ++ ": " ++ ", ".intercalate names]

def textLines (report : Report) : List String :=
  ["file: " ++ report.file] ++
    findingLines "route starts" (report.routeStarts.map routeStartLine) ++
    findingLines "endpoints" (report.endpoints.map endpointLine) ++
    findingLines "expressions" (report.expressions.map expressionLine) ++
    findingLines "beans" (report.beans.map beanLine) ++
    nameLine "expression classes" report.expressionClasses ++
    nameLine "route builders" report.routeBuilders ++
    nameLine "handler methods" report.handlerMethods ++
    (if report.skippedLiterals = 0 then []
      else [s!"skipped literals: {report.skippedLiterals}"])

/-- The report as text, each line ended by a line feed. -/
def toText (report : Report) : String :=
  String.join (report.textLines.map (· ++ "\n"))

end Report

end RouteScope
