import SettingsLint.Number.Binary

/-! # The shortest decimal of a binary number

The text of a binary number is the decimal with the fewest digits that reads back as
that number, and of those the nearest one; of two that are equally near, the larger.

Decimals read back as the number if they lie between the midpoints to the numbers
below and above it, the midpoints included if its mantissa is even. The powers of ten
are tried from the largest on as units: if a multiple of a unit lies in that interval,
so does one of the two multiples next to the number.
-/

namespace SettingsLint

namespace Binary

/-- The multiple of `10 ^ unit` that reads back as `mantissa * 2 ^ exponent`, if there
is one. All numbers here are scaled to quarters of the distance to the number above,
and then to a common denominator. -/
def multiple? (mantissa : Nat) (exponent unit : Int) : Option Nat :=
  let quarter := exponent - 2
  let scale := Nat.pow 2 quarter.toNat * Nat.pow 10 (-unit).toNat
  let step := Nat.pow 2 (-quarter).toNat * Nat.pow 10 unit.toNat
  let value := 4 * mantissa * scale
  -- The number below a power of two is at half the distance.
  let gapBelow := if mantissa = fullMantissa ∧ minExponent < exponent then 1 else 2
  let low := (4 * mantissa - gapBelow) * scale
  let high := (4 * mantissa + 2) * scale
  let readsBack (n : Nat) :=
    if mantissa % 2 = 0 then decide (low ≤ n * step ∧ n * step ≤ high)
    else decide (low < n * step ∧ n * step < high)
  let below := value / step
  match readsBack below, readsBack (below + 1) with
  | true, true => if 2 * (value % step) < step then some below else some (below + 1)
  | true, false => some below
  | false, true => some (below + 1)
  | false, false => none

/-- The largest power of ten that is tried as a unit. No number reaches it. -/
def maxUnit : Int := 309

/-- How many units are tried: the last one is below the distance of any two numbers. -/
def unitCount : Nat := 652

/-- The shortest decimal that reads back as `mantissa * 2 ^ exponent`. -/
def shortest (negative : Bool) (mantissa : Nat) (exponent : Int) : Decimal :=
  let units := (List.range unitCount).map fun (i : Nat) => maxUnit - i
  let found := units.findSome? fun unit =>
    (multiple? mantissa exponent unit).map fun n => Decimal.mk negative n unit
  found.getD ⟨negative, 0, 0⟩

def text : Binary → String
  | .finite negative mantissa exponent => (shortest negative mantissa exponent).text
  | .infinite false => "inf"
  | .infinite true => "-inf"
  | .notANumber => "NaN"

end Binary

end SettingsLint
