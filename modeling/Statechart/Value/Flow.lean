import Statechart.Value.Parser
import Statechart.Value.Printer
import Statechart.Value.Yaml

/-! YAML in flow style with quoted texts, which is the part of YAML that is written as JSON is.

    Nothing else of YAML is read: no block style, no text without quotes, no comment. What is read
    differs from JSON in its number literals, which are scalars without quotes, and in that a pair of
    escaped surrogates is no character. -/

namespace Statechart
namespace Value

/-- How many levels of arrays and objects a text in flow style may have. -/
def maxFlowDepth : Nat := 128

/-- Whether an integer takes no more than 128 bits, signed or unsigned. -/
def within128 (n : Int) : Bool := -(Nat.pow 2 127 : Int) ≤ n && n < (Nat.pow 2 128 : Int)

/-- A literal that decides what it is: an integer of 64 bits is exact, a larger one of 128 bits is
    refused, any other number is the nearest binary64 number, and beyond the largest one the literal is
    a text. -/
def decidedNumber (l : Literal) : Option Value :=
  if l.isInteger && within128 l.int then (Number.ofWord? l.int).map .number
  else
    match l.nearest? with
    | some d => some (.number (.double d))
    | none => some (.string l.text)

/-- A literal that is its characters. -/
def spelledNumber (l : Literal) : Option Value := some (.string l.text)

/-- A literal that is a number if it is an integer of 64 bits, and else its characters. -/
def integerNumber (l : Literal) : Option Value :=
  match if l.isInteger then Number.ofWord? l.int else none with
  | some n => some (.number n)
  | none => some (.string l.text)

/-- The value that a text in flow style writes, under a rule for number literals. -/
def parseFlow? (number? : Literal → Option Value) (s : String) : Option Value :=
  parseWith? ⟨number?, false⟩ maxFlowDepth s

end Value

/-- YAML in flow style. -/
def Yaml.flow : Yaml where
  document? := Value.parseFlow? Value.decidedNumber
  texts? := Value.parseFlow? Value.spelledNumber
  integers? := Value.parseFlow? Value.integerNumber
  write := Value.text

end Statechart
