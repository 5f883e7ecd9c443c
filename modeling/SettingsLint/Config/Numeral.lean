import SettingsLint.Config.Scan
import SettingsLint.Number.Binary

/-! # Numerals

Whole numbers are written in the bases ten, sixteen, eight and two and fit into 64
bits; numbers with a fraction or an exponent are read as the nearest binary number. An
underscore may stand between any two digits.
-/

namespace SettingsLint.Config.Numeral

/-- Reads digits, of which an underscore may separate any two. The first one satisfies
`first`. -/
def digits (first other : Char → Bool) : Scan (List Char) := do
  let c ← Scan.one first
  let cs ← Scan.many (Scan.one other <|> (do Scan.word "_"; Scan.one other))
  return c :: cs

/-- Reads the digits of a number in the base ten. Only the number zero starts with the
digit zero. -/
def decimal : Scan (List Char) :=
  digits (fun c => c.isDigit && c ≠ '0') Char.isDigit <|>
    List.singleton <$> Scan.one (· = '0')

/-- Reads digits in the base ten, with any number of zeros in front. -/
def zeroPadded : Scan (List Char) := digits Char.isDigit Char.isDigit

def sign : Scan Bool := do
  let c ← Scan.optional (Scan.one fun c => c = '+' || c = '-')
  return c = some '-'

/-- Reads a whole number in another base than ten, after the letter for the base. -/
def based (mark : String) (base : Nat) (isDigit : Char → Bool) : Scan Int := do
  Scan.word mark
  return digitsValue base (← digits isDigit isDigit)

/-- Reads a whole number in the base ten. -/
def signed : Scan Int := do
  let negative ← sign
  let value : Int := digitsValue 10 (← decimal)
  return if negative then -value else value

def minInteger : Int := -9223372036854775808

def maxInteger : Int := 9223372036854775807

def integer : Scan Int :=
  (based "0x" 16 (fun c => c.isDigit || ('a' ≤ c && c ≤ 'f') || ('A' ≤ c && c ≤ 'F')) <|>
    based "0o" 8 (fun c => '0' ≤ c && c ≤ '7') <|>
    based "0b" 2 (fun c => c = '0' || c = '1') <|>
    signed).suchThat fun n => minInteger ≤ n && n ≤ maxInteger

def exponent : Scan Int := do
  let _ ← Scan.one fun c => c = 'e' || c = 'E'
  let negative ← sign
  let value : Int := digitsValue 10 (← zeroPadded)
  return if negative then -value else value

def fraction : Scan (List Char) := do
  Scan.word "."
  zeroPadded

/-- Reads a decimal with a fraction, an exponent or both. -/
def fractional : Scan Decimal := do
  let negative ← sign
  let whole ← decimal
  let places ← Scan.optional fraction
  let scale ← if places.isSome then Scan.optional exponent else some <$> exponent
  let places := places.getD []
  return ⟨negative, digitsValue 10 (whole ++ places), scale.getD 0 - places.length⟩

/-- Reads infinity, or what is no number. -/
def special : Scan Binary := do
  let negative ← sign
  let value ← (do Scan.word "inf"; return Binary.infinite false) <|>
    (do Scan.word "nan"; return .notANumber)
  return if negative then value.negate else value

/-- Reads a binary number. A decimal too large for one is refused; below the smallest
one it is negative infinity. -/
def binary : Scan Binary :=
  (Binary.ofDecimal <$> fractional).suchThat (· ≠ .infinite false) <|> special

end SettingsLint.Config.Numeral
