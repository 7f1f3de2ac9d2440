import RouteScope.Json.Basic
import RouteScope.Settings.Basic

/-!
# Settings as JSON

All settings for programs, under the same keys as everywhere.
-/

namespace RouteScope.Settings

open Json

/-- All sections with all their settings. -/
def toJson (settings : Settings) : Json :=
  record [
    ("recognizers", record [("java", bool settings.recognizers.java)]),
    ("display", record [
      ("wrap_width", natural settings.display.wrapWidth),
      ("separator", text settings.display.separator),
      ("line_break", text settings.display.lineBreak)]),
    ("logging", record [("level", text settings.logging.level)]),
    ("languages", record [("known", texts settings.languages.known)])]

end RouteScope.Settings
