import RouteScope.Command.Run
import RouteScope.Json.Reader
import RouteScope.Tree.Json

/-!
# The program

The program collects what is around it, runs the command line and shows the
outcome.  The syntax tree of a source file is taken from a file beside it,
which has `.tree.json` behind the name and holds the flat tree that a parser
has written.
-/

namespace RouteScope.Command

/-- Whether something is found at a path.  A path that cannot be followed to its
end leads to nothing, for whatever reason. -/
def leadsSomewhere (path : String) : IO Bool := do
  try
    let _ ← IO.FS.realPath path
    return true
  catch _ =>
    return false

/-- What is found at a path. -/
def readState (path : String) : IO FileState := do
  unless ← leadsSomewhere path do
    return .missing
  try
    return .ofBytes (← IO.FS.readBinFile path)
  catch error =>
    match error with
    | .inappropriateType _ 21 _ => return .folder
    | error => return .unreadable (toString error)

/-- What is found at a path, with the syntax tree that lies beside it. -/
def readSource (path : String) : IO FileState := do
  match ← readState path with
  | .text content _ =>
      let tree? ← match ← readState (path ++ ".tree.json") with
        | .text json _ => pure ((Json.read? json).bind (Tree.ofJson? content))
        | _ => pure none
      return .text content tree?
  | state => return state

/-- What an invocation finds at the paths that it may read. -/
def readPaths (paths : List String) : IO (String → FileState) := do
  let states ← paths.mapM fun path => return (path, ← readSource path)
  return fun path => (states.lookup path).getD .missing

end RouteScope.Command

open RouteScope.Command

/-- Runs the command line. -/
def main (arguments : List String) : IO UInt32 := do
  let inherited? ← IO.getEnv "CAMEL_LENS_CONFIG"
  let usual? := usualPath? (← IO.getEnv "XDG_CONFIG_HOME") (← IO.getEnv "HOME")
  let paths := match readArguments inherited? arguments with
    | .ok invocation => invocation.paths usual?
    | .error _ => []
  let around : Surroundings := { stateOf := ← readPaths paths, inherited?, usual? }
  let outcome := around.run arguments
  (← IO.getStdout).putStr outcome.output
  if let some line := outcome.errorLine? then
    (← IO.getStderr).putStrLn line
  return outcome.exitCode.toUInt32
