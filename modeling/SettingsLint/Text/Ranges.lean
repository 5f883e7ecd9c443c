/-! # Ranges of code points

A character class outside ASCII is a table of inclusive ranges of code points.
Asking whether a character is in the class is asking whether some range holds it.
The tables are written down as runs: how many code points are outside of the class
and how many are in it, by turns.
-/

namespace SettingsLint.Text

/-- Inclusive ranges `(first, last)` of code points. -/
abbrev Ranges := Array (Nat × Nat)

/-- The ranges of the runs from the code point `start` on. -/
def Ranges.fromRuns (start : Nat) : List Nat → List (Nat × Nat)
  | outside :: inside :: runs =>
    (start + outside, start + outside + inside - 1) :: fromRuns (start + outside + inside) runs
  | _ => []

/-- The ranges of a class whose runs start right after ASCII. -/
def Ranges.ofRuns (runs : List Nat) : Ranges := (fromRuns 0x80 runs).toArray

/-- Is the character in one of the ranges? ASCII characters never are: the tables
hold the part of a class outside ASCII. -/
def Ranges.holds (ranges : Ranges) (c : Char) : Bool :=
  0x80 ≤ c.toNat && ranges.any (fun (first, last) => first ≤ c.toNat && c.toNat ≤ last)

end SettingsLint.Text
