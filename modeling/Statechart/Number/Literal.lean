import Statechart.Number.Basic
import Statechart.Text.Letter

/-! Number literals: a sign, an integer part, a fraction and a power of ten.

    A literal has two values. The nearest one is the binary64 number closest to what it writes. The
    scaled one is reached by steps, each of which rounds: the leading digits are gathered as long as
    they make a number below `2 ^ 64`, later ones are given up, and the gathered number is multiplied
    or divided by a power of ten. The two agree on short literals and can be neighbours on long ones
    and on large powers. -/

namespace Statechart

/-- A number literal by its characters; the power of ten, if there is one, starts with its `e`. -/
structure Literal where
  negative : Bool
  whole : List Char
  fraction : List Char
  power : List Char
  deriving DecidableEq

namespace Double

/-- The greatest power of ten that is a binary64 number. -/
def maxPower : Nat := 308

/-- A number over `10 ^ n`, the power taken off in pieces that are numbers themselves; what has become
    zero stays zero. -/
def shrink (units n : Nat) : Nat :=
  if n ≤ maxPower then divUnits units (intUnits (Nat.pow 10 n))
  else if units = 0 then 0
  else shrink (divUnits units (intUnits (Nat.pow 10 maxPower))) (n - maxPower)
termination_by n
decreasing_by
  simp only [maxPower] at *
  omega

/-- An integer times a power of ten, by rounding the integer, the power and the result, or `none` if
    that is beyond the largest number. -/
def scale? (negative : Bool) (digits : Nat) (exponent : Int) : Option Double :=
  if digits = 0 then some (zero negative)
  else if exponent < 0 then ofUnits? negative (shrink (intUnits digits) (-exponent).toNat)
  else if exponent ≤ maxPower then
    ofUnits? negative (mulUnits (intUnits digits) (intUnits (Nat.pow 10 exponent.toNat)))
  else none

end Double

namespace Literal

/-- The characters of a literal. -/
def text (l : Literal) : String :=
  String.ofList ((if l.negative then ['-'] else []) ++ l.whole ++
    (if l.fraction.isEmpty then [] else '.' :: l.fraction) ++ l.power)

/-- Whether a literal is an integer part alone. -/
def isInteger (l : Literal) : Bool := l.fraction.isEmpty && l.power.isEmpty

/-- The integer part with its sign. -/
def int (l : Literal) : Int :=
  if l.negative then -(Text.decimalOf l.whole : Int) else Text.decimalOf l.whole

/-- The power of ten. -/
def exponent (l : Literal) : Int :=
  match l.power with
  | _ :: '-' :: ds => -(Text.decimalOf ds : Int)
  | _ :: '+' :: ds => Text.decimalOf ds
  | _ :: ds => Text.decimalOf ds
  | [] => 0

/-- A number followed by digits as long as it stays below `2 ^ 64`, with how many it took. -/
def gather (n taken : Nat) : List Char → Nat × Nat
  | [] => (n, taken)
  | c :: cs =>
    if Text.pushDigit n c < 18446744073709551616 then gather (Text.pushDigit n c) (taken + 1) cs
    else (n, taken)

/-- The nearest binary64 number, or `none` if that is beyond the largest one. -/
def nearest? (l : Literal) : Option Double :=
  Double.ofDecimal? l.negative (Text.decimalOf (l.whole ++ l.fraction))
    (l.exponent - l.fraction.length)

/-- The number of a literal in data, or `none` if it is beyond the largest one. An integer of 64 bits is
    exact, but for `-0`, which is the negative zero; all else is scaled. Digits of the fraction are
    gathered even if digits of the integer part were given up. -/
def number? (l : Literal) : Option Number :=
  let (n, taken) := gather 0 0 l.whole
  let dropped := l.whole.length - taken
  if l.isInteger ∧ dropped = 0 ∧ ¬(l.negative ∧ n = 0) then Number.ofInt? l.int
  else
    let (digits, places) := gather n 0 l.fraction
    (Double.scale? l.negative digits (l.exponent + dropped - places)).map .double

end Literal
end Statechart
