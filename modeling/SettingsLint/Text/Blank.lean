import SettingsLint.Text.Ranges

/-! # Blank characters

The Unicode property `White_Space`. In ASCII these are the space and the five
controls from tab to carriage return; the table holds the rest.
-/

namespace SettingsLint.Text

/-- The ranges of `White_Space` outside ASCII. -/
def blankRanges : Ranges := #[
  (0x85, 0x85), (0xa0, 0xa0), (0x1680, 0x1680), (0x2000, 0x200a), (0x2028, 0x2029),
  (0x202f, 0x202f), (0x205f, 0x205f), (0x3000, 0x3000)]

def isBlank (c : Char) : Bool :=
  c = ' ' || (0x9 ≤ c.toNat && c.toNat ≤ 0xd) || blankRanges.holds c

/-- The text without the blank characters at its two ends. -/
def trimBlank (cs : List Char) : List Char :=
  ((cs.dropWhile isBlank).reverse.dropWhile isBlank).reverse

end SettingsLint.Text
