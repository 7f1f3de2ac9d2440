import RouteScope.Command.Run
import RouteScope.Proofs.Endpoint.Filling
import RouteScope.Proofs.Text.Border

/-!
# Wrapped lines in an answer

The command that wraps a text joins the lines with the line break.  That is its
answer for people.  For programs it lists lines, and gets them by cutting the
joined text at the line break again.  `listed_lines_are_wrapped_lines` says what
it gets, for a line break without borders: the lines that were joined, each cut
where it holds the line break itself.

A line break with a border may be found across the end of a line, where no line
was joined to the next one.
-/

namespace RouteScope.Command

open Endpoint (wrapLines)

/-- The lines of a text that is wrapped with the settings, as far as the command
gives no others. -/
def wrappedLines (settings : DisplaySettings) (text : String) (width? : Option Nat)
    (separator? : Option String) : List String :=
  wrapLines (separator?.getD settings.separator) (width?.getD settings.wrapWidth) text

/-- Cutting at a line break that the text does not hold changes no line, since every
line is a part of the text. -/
theorem flatMap_split_wrapLines {lineBreak separator text : String} {limit : Nat}
    (hne : lineBreak ≠ "") (absent : ¬ lineBreak.toList <:+: text.toList) :
    (wrapLines separator limit text).flatMap (Text.split lineBreak) =
      wrapLines separator limit text := by
  have hwhole : ∀ line ∈ wrapLines separator limit text, Text.split lineBreak line = [line] := by
    intro line hline
    refine Text.split_eq_singleton hne fun occurs => absent (occurs.trans ?_)
    obtain ⟨front, back, hlines⟩ := List.append_of_mem hline
    have htext := Endpoint.join_wrapLines separator limit text
    rw [hlines, String.join_append, String.join_cons] at htext
    rw [← htext]
    exact ⟨(String.join front).toList, (String.join back).toList, by simp⟩
  rw [List.flatMap_congr hwhole]
  simp

/-- For people the lines are joined with the line break, and for programs they are
listed, each cut where it holds the line break itself.  Together the lines are the
text, all but the first begin with the separator, and they are listed as they are if
the text does not hold the line break. -/
theorem listed_lines_are_wrapped_lines (stateOf : String → FileState) (settings : Settings)
    (text : String) (width? : Option Nat) (separator? : Option String)
    (hne : settings.display.lineBreak ≠ "")
    (unbordered : Text.Unbordered settings.display.lineBreak.toList) :
    let lines := wrappedLines settings.display text width? separator?
    perform stateOf settings .text (.wrap text width? separator?) =
      .ok (settings.display.lineBreak.intercalate lines ++ "\n") ∧
    perform stateOf settings .json (.wrap text width? separator?) =
      .ok (jsonText (.record
        [("width", .natural (width?.getD settings.display.wrapWidth)),
          ("lines", .texts (lines.flatMap (Text.split settings.display.lineBreak)))])) ∧
    (¬ settings.display.lineBreak.toList <:+: text.toList →
      lines.flatMap (Text.split settings.display.lineBreak) = lines) ∧
    String.join lines = text ∧
    ∀ line ∈ lines.tail,
      (separator?.getD settings.display.separator).toList <+: line.toList := by
  intro lines
  have hlines : lines ≠ [] := Endpoint.wrapLines_ne_nil _ _ _
  refine ⟨rfl, ?_, flatMap_split_wrapLines hne, Endpoint.join_wrapLines .., fun line hline =>
    Endpoint.prefix_of_mem_tail_wrapLines hline⟩
  rw [← Text.split_intercalate hne unbordered hlines]
  rfl

/-- Settings with a line break of two characters. -/
def narrowSettings : Settings :=
  { display := { wrapWidth := 8, lineBreak := "\r\n" } }

/-- A line break in the text is listed as the end of a line too. -/
theorem listed_lines_are_wrapped_lines_broken :
    narrowSettings.display.lineBreak ≠ "" ∧
    Text.Unbordered narrowSettings.display.lineBreak.toList ∧
    perform (fun _ => .missing) narrowSettings .json (.wrap "aaaa&b\r\nb&cccc" none none) =
      .ok (jsonText (.record
        [("width", .natural 8), ("lines", .texts ["aaaa&b", "b", "&cccc"])])) := by
  have hne : narrowSettings.display.lineBreak ≠ "" := by decide
  have unbordered : Text.Unbordered narrowSettings.display.lineBreak.toList := by decide
  obtain ⟨-, hlisted, -⟩ := listed_lines_are_wrapped_lines (fun _ => .missing) narrowSettings
    "aaaa&b\r\nb&cccc" none none hne unbordered
  have hlines : (wrappedLines narrowSettings.display "aaaa&b\r\nb&cccc" none none).flatMap
      (Text.split narrowSettings.display.lineBreak) = ["aaaa&b", "b", "&cccc"] := by
    decide
  rw [hlines] at hlisted
  exact ⟨hne, unbordered, hlisted⟩

end RouteScope.Command
