import RouteScope.Text.Bytes
import RouteScope.Tree.Node

/-!
# String literals

The value of a string literal is what stands between its quotes, taken as it is
written.  A text block has three quotes on either side and any other literal
has one.  Broken source may hold literals that lack their closing quote.  As
many bytes are cut off from the end of those too, and the value exists only if
that cut does not fall inside a character.
-/

namespace RouteScope.Java

/-- The number of quotes on either side of a literal. -/
def quoteWidth (text : List Char) : Nat :=
  if ['"', '"', '"'].isPrefixOf text then 3 else 1

/-- What stands between the quotes of a literal; nothing if the literal is too
short to have quotes on both sides. -/
def unquote? (text : String) : Option String :=
  let width := quoteWidth text.toList
  let length := Text.byteLength text.toList
  if length < 2 * width then
    some ""
  else
    (Text.byteRange? text.toList width (length - width)).map String.ofList

/-- Whether the node is a string literal. -/
def isLiteral (node : Node) : Bool :=
  node.kind == "string_literal"

/-- The value of a string literal; other nodes have none. -/
def literalValue? (node : Node) : Option String :=
  if isLiteral node then unquote? node.text else none

/-- Whether the node is a string literal without a value. -/
def isBrokenLiteral (node : Node) : Bool :=
  isLiteral node && (unquote? node.text).isNone

end RouteScope.Java
