import RouteScope.FileState
import RouteScope.Text.Split

/-!
# Folders in memory

A folder that is held in memory answers what is found at a path.  A path is
followed part by part: each part is looked for in a folder that exists, `..`
goes one folder up, and an empty part or `.` stays where it is.  So a path with
a slash at its end leads to a folder only.

Nothing is known about what lies outside, except that there are folders on the
way up.
-/

namespace RouteScope

/-- A folder with everything inside it: the files, and those folders that are to exist
even if they are empty.  Each is named by the parts of its path. -/
structure Folder where
  entries : List (List String × Option FileState)

namespace Folder

/-- Where a path leads: to the folder or something inside it, or to a folder on the way
up. -/
inductive Position where
  | inside (parts : List String)
  | outside
deriving DecidableEq, Repr

def parts (path : String) : List String :=
  (Text.split "/" path).filter fun part => part != "" && part != "."

/-- A folder with entries at the given paths; an entry without a state is a
folder. -/
def ofEntries (entries : List (String × Option FileState)) : Folder :=
  ⟨entries.map fun (path, state?) => (parts path, state?)⟩

/-- Whether there is a folder at the position.  A folder exists when anything
lies in it. -/
def isFolder (folder : Folder) : Position → Bool
  | .outside => true
  | .inside [] => true
  | .inside here =>
      folder.entries.any fun (there, state?) =>
        here.isPrefixOf there && (here != there || state?.isNone)

/-- Follows a part of a path from a position. -/
def step (folder : Folder) (position : Position) (part : String) : Option Position :=
  if !folder.isFolder position then
    none
  else if part == "" || part == "." then
    some position
  else
    match position with
    | .outside => if part == ".." then some .outside else none
    | .inside here =>
        if part == ".." then
          some (if here.isEmpty then .outside else .inside here.dropLast)
        else
          some (.inside (here ++ [part]))

def position? (folder : Folder) (path : String) : Option Position :=
  let start := if path.toList.head? == some '/' then .outside else .inside []
  (Text.split "/" path).foldlM folder.step start

def stateAt (folder : Folder) (position : Position) : FileState :=
  if folder.isFolder position then
    .folder
  else
    match position with
    | .outside => .missing
    | .inside here => (folder.entries.lookup here).join.getD .missing

/-- What is found at a path.  The empty path leads nowhere. -/
def find (folder : Folder) (path : String) : FileState :=
  if path.isEmpty then
    .missing
  else
    ((folder.position? path).map folder.stateAt).getD .missing

end Folder

end RouteScope
