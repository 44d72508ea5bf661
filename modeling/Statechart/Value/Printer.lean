import Statechart.Text.Quoted
import Statechart.Value.Basic

/-! The written form of values, as JSON text.

    `text` leaves no blanks; `pretty` puts every item and field on a line of its own, indented by two
    spaces a level. Inside strings only the quote, the backslash and the controls below the blank are
    escaped. -/

namespace Statechart.Value

/-- Two hexadecimal digits of a number below 256, lower case. -/
def hexByte (n : Nat) : String := String.ofList [Nat.digitChar (n / 16), Nat.digitChar (n % 16)]

/-- One character inside a JSON string. -/
def escapeChar (c : Char) : String :=
  if c = '"' then "\\\""
  else if c = '\\' then "\\\\"
  else if c.toNat < 32 then
    if c.toNat = 8 then "\\b"
    else if c.toNat = 9 then "\\t"
    else if c.toNat = 10 then "\\n"
    else if c.toNat = 12 then "\\f"
    else if c.toNat = 13 then "\\r"
    else "\\u00" ++ hexByte c.toNat
  else c.toString

/-- A JSON string literal. -/
def stringText (s : String) : String :=
  "\"" ++ String.join (s.toList.map escapeChar) ++ "\""

mutual

/-- The compact JSON text of a value. -/
def text : Value → String
  | .null => "null"
  | .bool b => if b then "true" else "false"
  | .number n => n.text
  | .string s => stringText s
  | .array items => "[" ++ ",".intercalate (itemTexts items) ++ "]"
  | .object fields => "\x7b" ++ ",".intercalate (fieldTexts fields) ++ "\x7d"

/-- The compact texts of the items of an array. -/
def itemTexts : List Value → List String
  | [] => []
  | v :: vs => v.text :: itemTexts vs

/-- The compact texts of the fields of an object. -/
def fieldTexts : List (String × Value) → List String
  | [] => []
  | (k, v) :: fs => (stringText k ++ ":" ++ v.text) :: fieldTexts fs

end

/-- A line break and the indentation of a level. -/
def newline (level : Nat) : String := "\n" ++ String.ofList (List.replicate (2 * level) ' ')

mutual

/-- The JSON text of a value in lines, the value standing at a level of indentation. -/
def prettyAt (level : Nat) : Value → String
  | .array (v :: vs) =>
    "[" ++ ",".intercalate (prettyItems (level + 1) (v :: vs)) ++ newline level ++ "]"
  | .object (f :: fs) =>
    "\x7b" ++ ",".intercalate (prettyFields (level + 1) (f :: fs)) ++ newline level ++ "\x7d"
  | v => v.text

/-- The items of an array in lines. -/
def prettyItems (level : Nat) : List Value → List String
  | [] => []
  | v :: vs => (newline level ++ prettyAt level v) :: prettyItems level vs

/-- The fields of an object in lines. -/
def prettyFields (level : Nat) : List (String × Value) → List String
  | [] => []
  | (k, v) :: fs => (newline level ++ stringText k ++ ": " ++ prettyAt level v) :: prettyFields level fs

end

/-- The JSON text of a value in lines. -/
def pretty (v : Value) : String := prettyAt 0 v

end Statechart.Value
