/-! Finite binary64 numbers by exact integer arithmetic.

    The least positive binary64 number is `2 ^ -1074` and every finite one is a whole number of these
    units, of at most 2098 binary digits, all but the leading 53 of them zero. So a number is a sign
    and a count of units, comparing is comparing integers, and rounding a quotient to the nearest
    number, a tie to the even neighbour, is one division with remainder. -/

namespace Statechart

/-- How many units of `2 ^ -1074` make one. -/
def unitsPerOne : Nat := Nat.pow 2 1074

/-- The binary digits of a count of units that lie below the 53 leading ones. -/
def spareBits (units : Nat) : Nat := units.log2 - 52

/-- A finite binary64 number: `units · 2 ^ -1074`, negated if `negative`. -/
structure Double where
  negative : Bool
  units : Nat
  representable : units.log2 < 2098 ∧ units % Nat.pow 2 (spareBits units) = 0
  deriving DecidableEq

namespace Double

/-- A number from its sign and its count of units, if it is one. -/
def ofUnits? (negative : Bool) (units : Nat) : Option Double :=
  if h : units.log2 < 2098 ∧ units % Nat.pow 2 (spareBits units) = 0 then some ⟨negative, units, h⟩ else none

/-- Zero, of either sign. -/
def zero (negative : Bool) : Double := ⟨negative, 0, by decide⟩

/-- The count of units nearest to the quotient `num / den` of units that has no more than 53
    leading digits; a tie goes to the even neighbour. -/
def roundUnits (num den : Nat) : Nat :=
  let grid := Nat.pow 2 (spareBits (num / den))
  let q := num / (den * grid)
  let twice := 2 * (num % (den * grid))
  if twice < den * grid || (twice == den * grid && q % 2 == 0) then q * grid else (q + 1) * grid

/-- The number nearest to `num / den`, or `none` if that is beyond the largest one. -/
def ofRatio? (negative : Bool) (num den : Nat) : Option Double :=
  ofUnits? negative (roundUnits (num * unitsPerOne) den)

/-- The number nearest to `digits · 10 ^ exponent`, or `none` if that is beyond the largest one. The
    first two branches answer for exponents far out of range without computing their power. -/
def ofDecimal? (negative : Bool) (digits : Nat) (exponent : Int) : Option Double :=
  let length := (Nat.toDigits 10 digits).length
  if digits = 0 ∨ length + exponent < -400 then some (zero negative)
  else if 400 < length + exponent then none
  else if 0 ≤ exponent then ofRatio? negative (digits * Nat.pow 10 exponent.toNat) 1
  else ofRatio? negative digits (Nat.pow 10 (-exponent).toNat)

/-- The number nearest to an integer, or `none` if that is beyond the largest one. -/
def ofInt? (n : Int) : Option Double := ofRatio? (decide (n < 0)) n.natAbs 1

/-- The units of the number nearest to the product of two. -/
def mulUnits (a b : Nat) : Nat := roundUnits (a * b) unitsPerOne

/-- The units of the number nearest to the quotient of two. -/
def divUnits (a b : Nat) : Nat := roundUnits (a * unitsPerOne) b

/-- The units of the number nearest to an integer. -/
def intUnits (n : Nat) : Nat := roundUnits (n * unitsPerOne) 1

/-- The value as an integer count of units, with its sign. -/
def value (d : Double) : Int := if d.negative then -(d.units : Int) else d.units

/-- Numerical equality, under which the two zeros are equal. -/
def same (a b : Double) : Bool := a.value == b.value

/-- Whether the difference of two numbers, rounded to the nearest number, is less than `2 ^ -52` in
    absolute value. -/
def close (a b : Double) : Bool :=
  roundUnits (a.value - b.value).natAbs 1 < Nat.pow 2 1022

theorem same_iff {a b : Double} : a.same b = true ↔ a.value = b.value := by simp [same]

/-- The two zeros differ as numbers of the format and are equal as values. -/
example : (zero true).same (zero false) = true := by decide

end Double
end Statechart
