import SettingsLint.Number.Decimal

/-! # Binary numbers

Numbers with a fraction are held in 64 bits: a mantissa of at most 53 bits and a power
of two. A decimal is read as the nearest such number, and of two that are equally near
as the one with the even mantissa.
-/

namespace SettingsLint

/-- A number that fits into 64 bits in the binary format for fractions. -/
inductive Binary where
  /-- The number `mantissa * 2 ^ exponent`, with a sign that zero has, too. -/
  | finite (negative : Bool) (mantissa : Nat) (exponent : Int)
  /-- A number beyond the largest one. -/
  | infinite (negative : Bool)
  /-- No number at all. -/
  | notANumber
  deriving DecidableEq, Repr

/-- The quotient as the nearest whole number; a half goes to the even neighbour. -/
def roundDiv (num den : Nat) : Nat :=
  let quotient := num / den
  let twice := 2 * (num % den)
  if twice < den then quotient
  else if den < twice then quotient + 1
  else if quotient % 2 = 0 then quotient
  else quotient + 1

namespace Binary

def precision : Nat := 53

/-- The number that a mantissa stays below. -/
def mantissaLimit : Nat := Nat.pow 2 precision

/-- The smallest mantissa that uses all bits. -/
def fullMantissa : Nat := Nat.pow 2 (precision - 1)

def minExponent : Int := -1074

def maxExponent : Int := 971

def negate : Binary → Binary
  | .finite negative mantissa exponent => .finite (!negative) mantissa exponent
  | .infinite negative => .infinite (!negative)
  | .notANumber => .notANumber

/-- The number nearest to a positive quotient. -/
def ofRatio (negative : Bool) (num den : Nat) : Binary :=
  -- The quotient is between `2 ^ 52` and `2 ^ 54` units of `2 ^ lead`.
  let lead : Int := (num.log2 : Int) - den.log2 - precision
  let scaledNum (e : Int) := num * Nat.pow 2 (-e).toNat
  let scaledDen (e : Int) := den * Nat.pow 2 e.toNat
  let fits := scaledNum lead < mantissaLimit * scaledDen lead
  let exponent := max (if fits then lead else lead + 1) minExponent
  let mantissa := roundDiv (scaledNum exponent) (scaledDen exponent)
  let (mantissa, exponent) :=
    if mantissa = mantissaLimit then (fullMantissa, exponent + 1)
    else (mantissa, exponent)
  if maxExponent < exponent then .infinite negative
  else .finite negative mantissa exponent

/-- The number nearest to a decimal. Decimals of 310 digits and more in front of the
point are beyond every number, and those with 330 zeros after it are nearest to zero,
so their powers of ten are never worked out. -/
def ofDecimal (d : Decimal) : Binary :=
  let magnitude := ((decimalDigits d.coefficient).length : Int) + d.exponent
  if d.coefficient = 0 ∨ magnitude < -330 then .finite d.negative 0 minExponent
  else if 310 < magnitude then .infinite d.negative
  else
    ofRatio d.negative (d.coefficient * Nat.pow 10 d.exponent.toNat)
      (Nat.pow 10 (-d.exponent).toNat)

end Binary

end SettingsLint
