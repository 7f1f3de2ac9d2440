import RouteScope.Tree.Basic

/-!
# Files as they are found

A path leads to nothing, to something that cannot be read as text, or to a
text.  A text may have been parsed before, and then its syntax tree comes with
it.

Whether there is something at a path is asked before reading, and the answer is
no as well if nothing can be found out about it: if the metadata of the file
cannot be had, be it for lack of permission on the way there.  Such a path counts
as one that leads to nothing.
-/

namespace RouteScope

/-- What is found at a path: nothing, as far as can be found out; something that
exists and cannot be read; or a text, with its syntax tree if a parser has made
one. -/
inductive FileState where
  | missing
  | unreadable (reason : String)
  | text (content : String) (tree? : Option Tree)

namespace FileState

/-- A folder exists and has no text. -/
def folder : FileState :=
  unreadable "Is a directory (os error 21)"

/-- A file with the given bytes.  Only bytes in UTF-8 are a text. -/
def ofBytes (bytes : ByteArray) : FileState :=
  match String.fromUTF8? bytes with
  | some content => text content none
  | none => unreadable "stream did not contain valid UTF-8"

end FileState

end RouteScope
