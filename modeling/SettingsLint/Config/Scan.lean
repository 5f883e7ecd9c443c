/-! # Reading text piece by piece

A configuration is read from the front of its text. A reader gives what it read with
the text after it, or refuses the text; a refusal leaves the text for another reader
to try. Repetition goes on only while every round consumes some text, so every reader
is total.
-/

namespace SettingsLint

/-- A reader of the text in front. -/
abbrev Scan := StateT (List Char) Option

namespace Scan

/-- Refuses every text. -/
def refuse : Scan α := fun _ => none

/-- Reads one character that satisfies `p`. -/
def one (p : Char → Bool) : Scan Char
  | [] => none
  | c :: rest => if p c then some (c, rest) else none

def word (w : String) : Scan Unit := fun text =>
  if w.toList.isPrefixOf text then some ((), text.drop w.length) else none

/-- Reads as many characters that satisfy `p` as there are. -/
def run (p : Char → Bool) : Scan (List Char) := fun text =>
  some (text.takeWhile p, text.dropWhile p)

/-- Reads exactly `n` characters that satisfy `p`. -/
def exactly (p : Char → Bool) : Nat → Scan (List Char)
  | 0 => return []
  | n + 1 => do return (← one p) :: (← exactly p n)

def finish : Scan Unit := fun text => if text.isEmpty then some ((), []) else none

def optional (item : Scan α) : Scan (Option α) := fun text =>
  match item text with
  | some (a, rest) => some (some a, rest)
  | none => some (none, text)

/-- The items in front of a text, and the text after them. -/
def items (item : Scan α) (text : List Char) : List α × List Char :=
  match item text with
  | none => ([], text)
  | some (a, rest) =>
    if rest.length < text.length then
      let (as, last) := items item rest
      (a :: as, last)
    else ([], text)
termination_by text.length

def many (item : Scan α) : Scan (List α) := fun text => some (items item text)

/-- Reads one item or more with a separator between any two. -/
def separated (separator : String) (item : Scan α) : Scan (List α) := do
  let first ← item
  let others ← many (do word separator; item)
  return first :: others

/-- Reads an item only if the value satisfies `p`. -/
def suchThat (item : Scan α) (p : α → Bool) : Scan α := do
  let a ← item
  if p a then return a else refuse

end Scan

end SettingsLint
