import RouteScope.Failure
import RouteScope.Text.Bytes
import RouteScope.Text.Case

/-!
# Kinds of route files

Routes are written in Java or in XML, and the extension of a file's name tells
which.  There are two ways to ask: `FileKind.ofPath` says which kind a path
has, and `isRouteFile` only whether its extension is one of those known.

A path is a row of bytes, and need not be a text.  An extension that is no text
is treated as if there were none.
-/

namespace RouteScope

/-- A path as the operating system has it. -/
structure Path where
  bytes : List UInt8
deriving DecidableEq, Repr

namespace Path

/-- The path that is written as the text. -/
def ofText (text : String) : Path :=
  ⟨Text.bytes text⟩

def slash : UInt8 := 47

def dot : UInt8 := 46

/-- The last component of a path, unless the path ends in `..` or names no
component.  Empty components and `.` are passed over. -/
def fileName? (path : Path) : Option (List UInt8) :=
  match (path.bytes.splitOn slash).reverse.dropWhile (fun part => part == [] || part == [dot]) with
  | [] => none
  | name :: _ => if name == [dot, dot] then none else some name

/-- The extension of a path: what follows the last dot of its file name, if
something precedes that dot. -/
def extension? (path : Path) : Option (List UInt8) := do
  let name ← path.fileName?
  let front := (name.reverse.dropWhile (· != dot)).drop 1
  if front.isEmpty then none else some (name.reverse.takeWhile (· != dot)).reverse

/-- The extension of a path, if it is a text. -/
def extensionText? (path : Path) : Option String :=
  path.extension?.bind Text.ofBytes?

end Path

/-- The kinds of source files that can hold route definitions: Java classes that
build routes, and XML documents that declare them. -/
inductive FileKind where
  | java
  | xml
deriving DecidableEq, Repr

namespace FileKind

/-- The name of the kind, which is also its extension. -/
def name : FileKind → String
  | java => "java"
  | xml => "xml"

/-- Whether there is a grammar for the kind.  Routes in XML are recognised as
such and not read yet. -/
def hasGrammar : FileKind → Bool
  | java => true
  | xml => false

/-- The kind that goes with an extension, whatever the case of its letters. -/
def ofExtension (extension : String) : Except Failure FileKind :=
  match String.ofList (Text.lower extension) with
  | "java" => .ok java
  | "xml" => .ok xml
  | _ => .error (.unsupportedFile extension)

def ofPath (path : Path) : Except Failure FileKind :=
  match path.extensionText? with
  | some extension => ofExtension extension
  | none => .error (.unsupportedFile "none")

end FileKind

/-- The extensions of files that can hold routes. -/
def routeExtensions : List String := ["java", "xml"]

/-- Whether the path has one of the extensions of files that can hold routes. -/
def isRouteFile (path : Path) : Bool :=
  path.extensionText?.any fun extension =>
    routeExtensions.any (Text.sameLetters extension)

end RouteScope
