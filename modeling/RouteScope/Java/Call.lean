import RouteScope.Java.Literal
import RouteScope.Language
import RouteScope.Text.Split

/-!
# Calls and literals

The parts of a route are calls such as `from("timer:tick")`, and what they mean
hangs on the name of the called method.  An editor may point at a part of a
construct, so a fragment of a literal stands for the literal, and the name of
a called method for the call.
-/

namespace RouteScope.Java

/-- The string literal that a node stands for: the literal itself, or the one
that the node is a fragment of. -/
def literalAt? (node : Node) : Option Node :=
  if isLiteral node then
    some node
  else if node.kind == "string_fragment" then
    node.parentOfKind? "string_literal"
  else
    none

/-- The call that a node is an argument of. -/
def callTaking? (argument : Node) : Option Node :=
  (argument.parentOfKind? "argument_list").bind (·.parentOfKind? "method_invocation")

/-- The call that a node stands for: the call itself, or the one that the node
names. -/
def callAt? (node : Node) : Option Node :=
  if node.kind == "method_invocation" then
    some node
  else if node.kind == "identifier" then
    (node.parentOfKind? "method_invocation").filter fun call =>
      (call.field? "name").any (·.isSame node)
  else
    none

/-- The call that takes the literal at a node as an argument. -/
def callTakingLiteralAt? (node : Node) : Option Node :=
  (literalAt? node).bind callTaking?

def methodName? (call : Node) : Option String :=
  (call.field? "name").map (·.text)

/-- Whether the call is one of a method with one of the names. -/
def isCallOf (methods : List String) (call : Node) : Bool :=
  (methodName? call).any methods.contains

def arguments (call : Node) : List Node :=
  match call.field? "arguments" with
  | some list => list.namedChildren
  | none => []

/-- Whether the node stands for a literal that is an argument of a call of a
method with one of the names. -/
def isArgumentOf (methods : List String) (node : Node) : Bool :=
  (callTakingLiteralAt? node).any (isCallOf methods)

/-- Whether a call such as `language("groovy", "…")` names the language in its
first argument, and the literal is another argument of it. -/
def namesLanguage (language : String) (literal call : Node) : Bool :=
  isCallOf ["language"] call &&
    match arguments call with
    | first :: _ :: _ =>
        !first.isSame literal && (literalValue? first).any (Language.same language)
    | _ => false

/-- The call that the literal at a node is an expression of, for a language.
Either the method has the name of the language or the call names the language
in its first argument. -/
def languageCall? (language : String) (node : Node) : Option Node := do
  let literal ← literalAt? node
  let call ← callTaking? literal
  let name ← methodName? call
  guard (Language.same language name || namesLanguage language literal call)
  return call

/-- The simple name of the class in a bean reference such as
`bean(Orders.class, "process")`, at the call or at a literal argument of it. -/
def beanName? (node : Node) : Option String := do
  let call ← callAt? node <|> callTakingLiteralAt? node
  guard (isCallOf ["bean"] call)
  let literal ← (arguments call).find? (·.kind == "class_literal")
  let type ← literal.namedChildren.head?
  return Text.afterLast '.' type.text

end RouteScope.Java
