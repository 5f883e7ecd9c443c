import SettingsLint.Text.Bytes

/-! # Lines and columns

People find a place in a text by its line and its column, both counted from one on.
Lines end with a line feed, and columns are counted in characters.
-/

namespace SettingsLint

/-- A place in a text, by line and column. -/
structure Position where
  line : Nat
  column : Nat
  deriving DecidableEq, Repr

/-- The place of a byte offset in a text. An offset that is past the end or inside a
character stands for the end of the text. -/
def Position.ofOffset (text : List Char) (offset : Nat) : Position :=
  let before := (Text.takeBytes? offset text).getD text
  ⟨before.count '\n' + 1, (before.reverse.takeWhile (· ≠ '\n')).length + 1⟩

end SettingsLint
