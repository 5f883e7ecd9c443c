/-! # Lines

A text is cut into lines. A line ends with a line feed, with a carriage return, or
with the two in this order, and holds its end; only the last line may have none.
-/

namespace SettingsLint.Text

/-- Puts a character in front of the first of some lines. -/
def prepend (c : Char) : List (List Char) → List (List Char)
  | [] => [[c]]
  | line :: rest => (c :: line) :: rest

/-- The lines of a text, with their ends. -/
def lines : List Char → List (List Char)
  | [] => []
  | '\r' :: '\n' :: rest => ['\r', '\n'] :: lines rest
  | c :: rest =>
    if c = '\n' ∨ c = '\r' then [c] :: lines rest else prepend c (lines rest)

/-- Has the line an end? -/
def isTerminated (line : List Char) : Bool :=
  line.getLast? = some '\n' || line.getLast? = some '\r'

end SettingsLint.Text
