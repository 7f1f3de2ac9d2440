import RouteScope.FileState
import RouteScope.Settings.Toml

/-!
# Loading settings

Settings come from a file.  Where there is none the defaults hold.
-/

namespace RouteScope.Settings

/-- The settings in the file at a path, given what is found there. -/
def load (path : String) : FileState → Except Failure Settings
  | .missing => .ok {}
  | .unreadable reason => .error (.inputOutput reason)
  | .text document _ => ofTomlAt path document

end RouteScope.Settings
