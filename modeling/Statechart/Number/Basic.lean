import Statechart.Number.Shortest

/-! Numbers of data: integers of 64 bits kept exactly, and binary64 numbers.

    An integer from `-2 ^ 63` to `2 ^ 64 - 1` is kept as it is; any other number is a binary64 number.
    `text` writes a number by the fewest digits to which it is the nearest one. -/

namespace Statechart

/-- An exact 64-bit integer, signed or unsigned, or a binary64 number. -/
inductive Number where
  | whole (n : Int) (lo_le : -9223372036854775808 ≤ n) (lt_hi : n < 18446744073709551616)
  | double (d : Double)
  deriving DecidableEq

namespace Number

/-- The number of an integer of 64 bits. -/
def ofWord? (n : Int) : Option Number :=
  if h : -9223372036854775808 ≤ n ∧ n < 18446744073709551616 then some (.whole n h.1 h.2) else none

/-- The number of an integer: exact within 64 bits, else the nearest binary64 number, if any. -/
def ofInt? (n : Int) : Option Number :=
  match ofWord? n with
  | some m => some m
  | none => (Double.ofInt? n).map .double

/-- A count as a number; what is beyond 64 bits is cut off at the largest integer. -/
def ofNat (n : Nat) : Number :=
  .whole (min n 18446744073709551615) (by omega) (by omega)

/-- A signed 64-bit integer as a number; what is beyond is cut off at the ends. -/
def ofInt (n : Int) : Number :=
  .whole (max (-9223372036854775808) (min n 18446744073709551615)) (by omega) (by omega)

/-- The nearest binary64 number. -/
def toDouble : Number → Double
  | .whole n _ _ => (Double.ofInt? n).getD (.zero false)
  | .double d => d

/-- The integer of a number that is kept as one. -/
def int? : Number → Option Int
  | .whole n _ _ => some n
  | .double _ => none

/-- Equality of data: integers as integers, binary64 numbers by value, and never across the two. -/
def same : Number → Number → Bool
  | .whole m _ _, .whole n _ _ => m == n
  | .double a, .double b => a.same b
  | _, _ => false

/-- The digits of a decimal number with a point behind the leading one if more follow. -/
def scientificDigits : List Char → List Char
  | [] => []
  | [c] => [c]
  | c :: cs => c :: '.' :: cs

/-- A power of ten with its sign. -/
def exponentText (e : Int) : String :=
  (if e < 0 then "-" else "+") ++ toString e.natAbs

/-- A positive decimal number: positional from `10 ^ -5` to below `10 ^ 16`, with at least one digit on
    both sides of the point, else in scientific notation with a signed exponent. -/
def decimalText (d : Decimal) : String :=
  let ds := Nat.toDigits 10 d.digits
  let e := d.leading
  if e < -5 ∨ 16 ≤ e then
    String.ofList (scientificDigits ds) ++ "e" ++ exponentText e
  else if e < 0 then
    "0." ++ String.ofList (List.replicate (-e - 1).toNat '0' ++ ds)
  else
    let before := ds.take (e.toNat + 1)
    let after := ds.drop (e.toNat + 1)
    String.ofList (before ++ List.replicate (e.toNat + 1 - before.length) '0') ++ "." ++
      (if after.isEmpty then "0" else String.ofList after)

/-- A binary64 number by its shortest digits. -/
def doubleText (d : Double) : String :=
  (if d.negative then "-" else "") ++ (if d.units = 0 then "0.0" else decimalText d.shortest)

/-- The text of a number. -/
def text : Number → String
  | .whole n _ _ => toString n
  | .double d => doubleText d

end Number
end Statechart
