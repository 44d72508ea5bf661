import Statechart.Number.Literal
import Statechart.Value.Basic

/-! Reading JSON text.

    The reader is strict: one value, blanks around it and nothing else. Of two fields with one name the
    later wins; unpaired surrogate escapes are refused, and so are arrays and objects nested 128 deep
    or deeper. What a number literal stands for, and whether a character may be escaped as a pair of
    surrogates, is up to the dialect that the reader is given; in data a literal is its number, one
    beyond the largest binary64 number is refused, and pairs are read. Every reader of a part of a value
    gives the part and the rest of the text. -/

namespace Statechart.Value

/-- The blanks of JSON. -/
def isJsonBlank (c : Char) : Bool := c = ' ' || c = '\n' || c = '\t' || c = '\r'

/-- The text after the blanks in front of it. -/
def skipBlanks (cs : List Char) : List Char := cs.dropWhile isJsonBlank

/-- The value of a hexadecimal digit. -/
def hexDigit? (c : Char) : Option Nat :=
  if '0' ≤ c ∧ c ≤ '9' then some (c.toNat - 48)
  else if 'a' ≤ c ∧ c ≤ 'f' then some (c.toNat - 87)
  else if 'A' ≤ c ∧ c ≤ 'F' then some (c.toNat - 55)
  else none

/-- Four hexadecimal digits. -/
def readHex4 : List Char → Option (Nat × List Char)
  | a :: b :: c :: d :: cs => do
    let a ← hexDigit? a
    let b ← hexDigit? b
    let c ← hexDigit? c
    let d ← hexDigit? d
    some (((a * 16 + b) * 16 + c) * 16 + d, cs)
  | _ => none

/-- The character of a `\u` escape whose four digits follow; a high surrogate takes the low one behind
    it along if pairs are read, and a surrogate alone is refused. -/
def readUnicode (pairs : Bool) (cs : List Char) : Option (Char × List Char) := do
  let (high, cs) ← readHex4 cs
  if 0xD800 ≤ high ∧ high < 0xDC00 then
    match pairs, cs with
    | true, '\\' :: 'u' :: cs =>
      let (low, cs) ← readHex4 cs
      if 0xDC00 ≤ low ∧ low < 0xE000 then
        some (Char.ofNat (0x10000 + (high - 0xD800) * 0x400 + (low - 0xDC00)), cs)
      else none
    | _, _ => none
  else if 0xDC00 ≤ high ∧ high < 0xE000 then none
  else some (Char.ofNat high, cs)

/-- The character that an escape other than `\u` stands for. -/
def shortEscape? : Char → Option Char
  | '"' => some '"'
  | '\\' => some '\\'
  | '/' => some '/'
  | 'b' => some (Char.ofNat 8)
  | 'f' => some (Char.ofNat 12)
  | 'n' => some '\n'
  | 'r' => some '\r'
  | 't' => some '\t'
  | _ => none

/-- The rest of a string literal behind its opening quote; `out` holds the characters read, last one
    first. -/
def readString (pairs : Bool) :
    (fuel : Nat) → (out : List Char) → List Char → Option (String × List Char)
  | 0, _, _ => none
  | _ + 1, _, [] => none
  | _ + 1, out, '"' :: cs => some (String.ofList out.reverse, cs)
  | fuel + 1, out, '\\' :: 'u' :: cs => do
    let (c, cs) ← readUnicode pairs cs
    readString pairs fuel (c :: out) cs
  | fuel + 1, out, '\\' :: c :: cs => do
    let c ← shortEscape? c
    readString pairs fuel (c :: out) cs
  | _ + 1, _, ['\\'] => none
  | fuel + 1, out, c :: cs => if c.toNat < 32 then none else readString pairs fuel (c :: out) cs

/-- The digits of a fraction behind the integer part, if there is one. -/
def readFraction : List Char → Option (List Char × List Char)
  | '.' :: cs =>
    match cs.span Text.isDigit with
    | ([], _) => none
    | r => some r
  | cs => some ([], cs)

/-- The power of ten of a number literal, if there is one. -/
def readPower : List Char → Option (List Char × List Char)
  | c :: cs =>
    if c = 'e' ∨ c = 'E' then
      let (sign, cs) :=
        match cs with
        | '-' :: cs => (['-'], cs)
        | '+' :: cs => (['+'], cs)
        | cs => ([], cs)
      match cs.span Text.isDigit with
      | ([], _) => none
      | (ds, cs) => some (c :: sign ++ ds, cs)
    else some ([], c :: cs)
  | [] => some ([], [])

/-- A number literal. -/
def readLiteral (cs : List Char) : Option (Literal × List Char) := do
  let (negative, cs) :=
    match cs with
    | '-' :: cs => (true, cs)
    | cs => (false, cs)
  let (whole, cs) := cs.span Text.isDigit
  if whole.isEmpty ∨ (whole.head? = some '0' ∧ 1 < whole.length) then none
  else
    let (fraction, cs) ← readFraction cs
    let (power, cs) ← readPower cs
    some (⟨negative, whole, fraction, power⟩, cs)

/-- What texts of a kind have of their own: what stands for a number literal in the value of a text, if
    the literal is accepted, and whether a character may be escaped as a pair of surrogates. -/
structure Dialect where
  number? : Literal → Option Value
  pairs : Bool

/-- The dialect of data: a literal is its number, and pairs are read. -/
def Dialect.data : Dialect := ⟨fun l => l.number?.map .number, true⟩

/-- The text after a word that it must start with. -/
def expect (word : String) (cs : List Char) : Option (List Char) :=
  if word.toList.isPrefixOf cs then some (cs.drop word.length) else none

mutual

/-- A value, `depth` counting how many more levels may open. Every call takes one unit of fuel. -/
def readValue (d : Dialect) : (fuel depth : Nat) → List Char → Option (Value × List Char)
  | 0, _, _ => none
  | fuel + 1, depth, cs =>
    match skipBlanks cs with
    | 'n' :: cs => (expect "ull" cs).map (.null, ·)
    | 't' :: cs => (expect "rue" cs).map (.bool true, ·)
    | 'f' :: cs => (expect "alse" cs).map (.bool false, ·)
    | '"' :: cs => (readString d.pairs fuel [] cs).map fun (s, cs) => (.string s, cs)
    | '[' :: cs =>
      if depth = 0 then none
      else
        match skipBlanks cs with
        | ']' :: cs => some (.array [], cs)
        | cs => readItems d fuel (depth - 1) [] cs
    | '\x7b' :: cs =>
      if depth = 0 then none
      else
        match skipBlanks cs with
        | '\x7d' :: cs => some (.object [], cs)
        | cs => readFields d fuel (depth - 1) [] cs
    | cs => do
      let (l, cs) ← readLiteral cs
      let v ← d.number? l
      some (v, cs)

/-- The items of an array that holds at least one more; `out` holds those read, last one first. -/
def readItems (d : Dialect) :
    (fuel depth : Nat) → (out : List Value) → List Char → Option (Value × List Char)
  | 0, _, _, _ => none
  | fuel + 1, depth, out, cs =>
    match readValue d fuel depth cs with
    | none => none
    | some (v, cs) =>
      match skipBlanks cs with
      | ',' :: cs => readItems d fuel depth (v :: out) cs
      | ']' :: cs => some (.array (v :: out).reverse, cs)
      | _ => none

/-- The fields of an object that holds at least one more; `out` holds those read. -/
def readFields (d : Dialect) :
    (fuel depth : Nat) → (out : Object) → List Char → Option (Value × List Char)
  | 0, _, _, _ => none
  | fuel + 1, depth, out, cs =>
    match skipBlanks cs with
    | '"' :: cs =>
      match readString d.pairs fuel [] cs with
      | none => none
      | some (name, cs) =>
        match skipBlanks cs with
        | ':' :: cs =>
          match readValue d fuel depth cs with
          | none => none
          | some (v, cs) =>
            match skipBlanks cs with
            | ',' :: cs => readFields d fuel depth (Dict.insert name v out) cs
            | '\x7d' :: cs => some (.object (Dict.insert name v out), cs)
            | _ => none
        | _ => none
    | _ => none

end

/-- The value that a text writes in a dialect, with at most `depth` levels of arrays and objects. The
    fuel is more than the text can use, since every two calls take at least one character. -/
def parseWith? (d : Dialect) (depth : Nat) (s : String) : Option Value :=
  let cs := s.toList
  match readValue d (2 * cs.length + 2) depth cs with
  | some (v, rest) => if (skipBlanks rest).isEmpty then some v else none
  | none => none

/-- How many levels of arrays and objects a text may have. -/
def maxDepth : Nat := 127

/-- The value that a text of data writes, with at most `depth` levels of arrays and objects. -/
def parseNested? (depth : Nat) (s : String) : Option Value := parseWith? .data depth s

/-- The value that a text of data writes. -/
def parse? (s : String) : Option Value := parseNested? maxDepth s

end Statechart.Value
