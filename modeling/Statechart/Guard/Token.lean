import Statechart.Guard.Expr
import Statechart.Text.Quoted
import Statechart.Text.Letter

/-! The tokens of an expression and how a text is cut into them.

    Numbers are a run of digits with at most one point in it, after a minus sign directly in front of a
    digit; names are letters, numerals, underscores and dots; texts stand between quotes of either kind,
    a backslash keeping the character behind it. -/

namespace Statechart.Guard

/-- The operators. -/
inductive Operator where
  | comparison (c : Comparison)
  | and
  | or
  | not
  deriving DecidableEq

/-- A token. -/
inductive Token where
  | name (s : String)
  | text (s : String)
  | number (n : Number)
  | operator (o : Operator)
  | open
  | close
  deriving DecidableEq

/-- Why a text is no expression; positions count characters from zero. -/
inductive Fault where
  | empty
  | unexpectedCharacter (position : Nat)
  | unterminatedText
  | invalidNumber (literal : String)
  | malformedPath (name : String)
  | unexpectedToken (t : Token)
  | unexpectedEnd
  | missingClose
  | exhausted
  deriving DecidableEq

/-- The spelling of a comparison. -/
def Comparison.symbol : Comparison → String
  | .eq => "=="
  | .ne => "!="
  | .gt => ">"
  | .ge => ">="
  | .lt => "<"
  | .le => "<="

/-- The spelling of an operator. -/
def Operator.symbol : Operator → String
  | .comparison c => c.symbol
  | .and => "&&"
  | .or => "||"
  | .not => "!"

/-- A token as diagnostics show it. -/
def Token.shown : Token → String
  | .name s => "Ident(" ++ Text.quote s ++ ")"
  | .text s => "Str(" ++ Text.quote s ++ ")"
  | .number n => "Num(Number(" ++ n.text ++ "))"
  | .operator o => "Op(" ++ Text.quote o.symbol ++ ")"
  | .open => "LParen"
  | .close => "RParen"

/-- The wording of a fault. -/
def Fault.message : Fault → String
  | .empty => "empty expression"
  | .unexpectedCharacter p => "unexpected character at position " ++ toString p
  | .unterminatedText => "unterminated string"
  | .invalidNumber l => "invalid number '" ++ l ++ "'"
  | .malformedPath s => "malformed variable path '" ++ s ++ "'"
  | .unexpectedToken t => "unexpected token " ++ t.shown
  | .unexpectedEnd => "unexpected end of expression"
  | .missingClose => "expected ')'"
  | .exhausted => "expression nested too deeply"

/-- The characters of a text up to its closing quote, and how many characters that takes. -/
def scanText (quote : Char) : List Char → Option (List Char × Nat)
  | [] => none
  | ['\\'] => none
  | '\\' :: c :: cs => (scanText quote cs).map fun (t, n) => (c :: t, n + 2)
  | c :: cs =>
    if c = quote then some ([], 1) else (scanText quote cs).map fun (t, n) => (c :: t, n + 1)

/-- The longest run of digits in front, with one point in it unless one came before. -/
def scanDigits (pointSeen : Bool) : List Char → List Char
  | [] => []
  | c :: cs =>
    if Text.isDigit c then c :: scanDigits pointSeen cs
    else if c = '.' ∧ !pointSeen then c :: scanDigits true cs
    else []

/-- The number of a literal: without a point a signed 64-bit integer, with one the nearest binary64
    number. -/
def literalNumber? (negative : Bool) (body : List Char) : Option Number :=
  let digits := Text.decimalOf (body.filter Text.isDigit)
  if body.contains '.' then
    let places := (body.dropWhile (· != '.')).length - 1
    (Double.ofDecimal? negative digits (-(places : Int))).map .double
  else
    let n : Int := if negative then -(digits : Int) else digits
    if n < 9223372036854775808 ∧ -9223372036854775808 ≤ n then Number.ofInt? n else none

/-- A number token whose sign has been read, of length `extra` beyond the first character. -/
def numberToken (negative : Bool) (body : List Char) (extra : Nat) : Except Fault (Token × Nat) :=
  match literalNumber? negative body with
  | some n => .ok (.number n, extra)
  | none => .error (.invalidNumber (String.ofList (if negative then '-' :: body else body)))

/-- A character that a name may go on with. -/
def isNameChar (c : Char) : Bool := Text.isLetter c || Text.isNumeral c || c = '_' || c = '.'

/-- Whether two dots stand side by side. -/
def hasDoubleDot : List Char → Bool
  | '.' :: '.' :: _ => true
  | _ :: cs => hasDoubleDot cs
  | [] => false

/-- A name token. -/
def nameToken (name : List Char) : Except Fault (Token × Nat) :=
  if name.getLast? = some '.' ∨ hasDoubleDot name then .error (.malformedPath (String.ofList name))
  else .ok (.name (String.ofList name), name.length - 1)

/-- The operator that a character begins, and how many more characters it takes. -/
def operator? (c : Char) (rest : List Char) : Option (Operator × Nat) :=
  match c, rest with
  | '=', '=' :: _ => some (.comparison .eq, 1)
  | '!', '=' :: _ => some (.comparison .ne, 1)
  | '>', '=' :: _ => some (.comparison .ge, 1)
  | '<', '=' :: _ => some (.comparison .le, 1)
  | '&', '&' :: _ => some (.and, 1)
  | '|', '|' :: _ => some (.or, 1)
  | '>', _ => some (.comparison .gt, 0)
  | '<', _ => some (.comparison .lt, 0)
  | '!', _ => some (.not, 0)
  | _, _ => none

/-- The apostrophe, the second kind of quote. -/
def apostrophe : Char := Char.ofNat 39

/-- The token that a character begins, and how many characters it takes beyond that one. -/
def lexeme (position : Nat) (c : Char) (rest : List Char) : Except Fault (Token × Nat) :=
  if c = '(' then .ok (.open, 0)
  else if c = ')' then .ok (.close, 0)
  else if c = '"' ∨ c = apostrophe then
    match scanText c rest with
    | some (t, n) => .ok (.text (String.ofList t), n)
    | none => .error .unterminatedText
  else if c = '-' ∧ (rest.head?.map Text.isDigit).getD false then
    let body := scanDigits false rest
    numberToken true body body.length
  else if Text.isDigit c then
    let body := scanDigits false (c :: rest)
    numberToken false body (body.length - 1)
  else if Text.isLetter c ∨ c = '_' then nameToken (c :: rest.takeWhile isNameChar)
  else
    match operator? c rest with
    | some (o, n) => .ok (.operator o, n)
    | none => .error (.unexpectedCharacter position)

/-- The tokens of a text after its first `skip` characters, which belong to a token already read. -/
def tokensFrom : (skip position : Nat) → List Char → Except Fault (List Token)
  | _, _, [] => .ok []
  | skip + 1, position, _ :: cs => tokensFrom skip (position + 1) cs
  | 0, position, c :: cs =>
    if Text.isBlank c then tokensFrom 0 (position + 1) cs
    else
      match lexeme position c cs with
      | .error f => .error f
      | .ok (t, n) =>
        match tokensFrom n (position + 1) cs with
        | .error f => .error f
        | .ok ts => .ok (t :: ts)

/-- The tokens of a text. -/
def tokens (cs : List Char) : Except Fault (List Token) := tokensFrom 0 0 cs

/-- Skipping characters is dropping them and counting them. -/
theorem tokensFrom_skip (n position : Nat) (cs : List Char) :
    n ≤ cs.length → tokensFrom n position cs = tokensFrom 0 (position + n) (cs.drop n) := by
  induction n generalizing position cs with
  | zero => simp
  | succ n ih =>
    intro h
    cases cs with
    | nil => simp at h
    | cons c cs =>
      rw [tokensFrom, ih (position + 1) cs (by simpa using h)]
      simp [Nat.add_assoc, Nat.add_comm 1 n]

end Statechart.Guard
