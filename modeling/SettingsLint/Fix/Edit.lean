import SettingsLint.Text.Span

/-! # Text edits

An edit replaces the text at a span. A list of edits is applied from the last to the
first, so that the spans of the others stay valid as long as the edits stand in order.
-/

namespace SettingsLint

/-- Replace the text at `span`. An empty span inserts. -/
structure TextEdit where
  span : Span
  newText : String
  deriving DecidableEq, Repr

namespace TextEdit

def insertion (offset : Nat) (text : String) : TextEdit := ⟨Span.point offset, text⟩

/-- The text after the edit. An edit whose span is no valid range of the text does
nothing. -/
def apply (edit : TextEdit) (text : List Char) : List Char :=
  match Text.takeBytes? edit.span.start text, edit.span.slice? text,
      Text.dropBytes? edit.span.stop text with
  | some before, some _, some after => before ++ edit.newText.toList ++ after
  | _, _, _ => text

/-- The text after all edits, the last one first. -/
def applyAll (edits : List TextEdit) (text : List Char) : List Char :=
  edits.foldr apply text

end TextEdit

end SettingsLint
