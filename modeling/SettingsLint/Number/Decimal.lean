/-! # Decimals

A decimal is a whole number of units of some power of ten. Written out by position it
has a point only if there are digits after it, and it never has an exponent.
-/

namespace SettingsLint

/-- The number `coefficient * 10 ^ exponent`, with a sign that zero has, too. -/
structure Decimal where
  /-- Does a minus stand in front? -/
  negative : Bool
  /-- How many units there are. -/
  coefficient : Nat
  /-- The unit, as a power of ten. -/
  exponent : Int
  deriving DecidableEq, Repr

/-- The digits of a number, the most significant first. -/
def decimalDigits (n : Nat) : List Char := Nat.toDigits 10 n

/-- The number that a list of digits writes in the base. A letter stands for the digit
ten and those after it. -/
def digitsValue (base : Nat) (digits : List Char) : Nat :=
  digits.foldl (fun n c => n * base + digitValue c) 0
where
  /-- The value of one digit. -/
  digitValue (c : Char) : Nat :=
    if c.isDigit then c.toNat - '0'.toNat
    else if c.isUpper then c.toNat - 'A'.toNat + 10
    else c.toNat - 'a'.toNat + 10

namespace Decimal

/-- The digits by position, with a point in front of the last `places` of them. -/
def withPoint (digits : List Char) (places : Nat) : List Char :=
  if places < digits.length then
    digits.take (digits.length - places) ++ '.' :: digits.drop (digits.length - places)
  else '0' :: '.' :: List.replicate (places - digits.length) '0' ++ digits

def text (d : Decimal) : String :=
  let digits := decimalDigits d.coefficient
  let unsigned :=
    if d.coefficient = 0 then ['0']
    else if 0 ≤ d.exponent then digits ++ List.replicate d.exponent.toNat '0'
    else withPoint digits (-d.exponent).toNat
  String.ofList (if d.negative then '-' :: unsigned else unsigned)

end Decimal

end SettingsLint
