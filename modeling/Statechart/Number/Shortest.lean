import Statechart.Number.Double

/-! The fewest decimal digits that read back as a given binary64 number.

    The reals that round to a number form an interval around it, its ends included when the number's
    last binary digit is zero. For one digit, two digits and so on the two neighbours of the number on
    that decimal grid are tried; the first grid with a neighbour in the interval gives the digits, the
    nearer neighbour if both lie in it, the even one if both are equally near. Seventeen digits always
    suffice. -/

namespace Statechart

/-- A positive decimal number `digits · 10 ^ exponent`. -/
structure Decimal where
  digits : Nat
  exponent : Int
  deriving DecidableEq

namespace Decimal

/-- The power of ten of the leading digit. -/
def leading (d : Decimal) : Int := d.exponent + (Nat.toDigits 10 d.digits).length - 1

/-- The digits without zeros behind them, `fuel` bounding how many are dropped. -/
def dropZeros : (fuel digits : Nat) → (exponent : Int) → Decimal
  | 0, n, e => ⟨n, e⟩
  | fuel + 1, n, e =>
    if n % 10 = 0 ∧ n ≠ 0 then dropZeros fuel (n / 10) (e + 1) else ⟨n, e⟩

end Decimal

namespace Double

/-- Ten to the power of an integer, as a fraction. -/
def tenTo (e : Int) : Nat × Nat := if 0 ≤ e then (Nat.pow 10 e.toNat, 1) else (1, Nat.pow 10 (-e).toNat)

/-- The least integer `e` with `units · 2 ^ -1074 < 10 ^ (e + 1)`, counted up from `e`. -/
def findLeading : (fuel units : Nat) → Int → Int
  | 0, _, e => e
  | fuel + 1, units, e =>
    let (p, q) := tenTo (e + 1)
    if units * q < p * unitsPerOne then e else findLeading fuel units (e + 1)

/-- A lower estimate of the power of ten of the leading digit, from the count of binary digits. -/
def leadingEstimate (units : Nat) : Int := ((units.log2 : Int) - 1074) * 30103 / 100000 - 1

/-- Whether the real `num / den`, counted in quarters of a unit, rounds to the given count of units. -/
def roundsTo (units num den : Nat) : Bool :=
  let gap := Nat.pow 2 (spareBits units)
  let below := if units = Nat.pow 2 units.log2 ∧ 1 < gap then gap else 2 * gap
  let low := (4 * units - below) * den
  let high := (4 * units + 2 * gap) * den
  if (units / gap) % 2 = 0 then low ≤ num && num ≤ high else low < num && num < high

/-- The neighbour on the grid `10 ^ e` that the interval holds, the nearer one if it holds both. -/
def neighbour? (units : Nat) (e : Int) : Option Nat :=
  let (p, q) := tenTo e
  let den := p * unitsPerOne
  let low := units * q / den
  let rest := units * q % den
  let reads (n : Nat) : Bool := roundsTo units (4 * n * p * unitsPerOne) q
  let lowIn := reads low && low != 0
  let highIn := reads (low + 1)
  if lowIn && highIn then
    some (if 2 * rest < den || (2 * rest == den && low % 2 == 0) then low else low + 1)
  else if lowIn then some low
  else if highIn then some (low + 1)
  else none

/-- The first grid, from coarse to fine, on which a neighbour reads back. -/
def firstGrid (units : Nat) : (fuel : Nat) → Int → Decimal
  | 0, e => ⟨0, e⟩
  | fuel + 1, e =>
    match neighbour? units e with
    | some n => Decimal.dropZeros 20 n e
    | none => firstGrid units fuel (e - 1)

/-- The shortest decimal number that reads back as the absolute value of a number other than zero. -/
def shortest (d : Double) : Decimal :=
  firstGrid d.units 18 (findLeading 4 d.units (leadingEstimate d.units))

end Double
end Statechart
