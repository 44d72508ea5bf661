import Statechart.Guard.Token

/-! Reading expressions.

    The grammar, from loose to tight: alternatives joined by `||`, conjuncts joined by `&&`, both to the
    left; negation; one comparison between two primaries; primaries, which are literals, names and
    expressions in parentheses. Every function reads one phrase at the front of a list of tokens and
    gives the tokens behind it. -/

namespace Statechart.Guard

/-- The expression that a name stands for: a literal word, the whole scope, or a variable path. -/
def Expr.ofName (s : String) : Expr :=
  if s = "true" then .literal (.bool true)
  else if s = "false" then .literal (.bool false)
  else if s = "null" then .literal .null
  else if s = "ctx" then .path []
  else .path (pathSegments s)

mutual

/-- Alternatives. Every call takes one unit of fuel. -/
def parseOr : (fuel : Nat) → List Token → Except Fault (Expr × List Token)
  | 0, _ => .error .exhausted
  | fuel + 1, ts =>
    match parseAnd fuel ts with
    | .error f => .error f
    | .ok (e, ts) => parseOrTail fuel e ts

/-- Further alternatives behind the expression `l`. -/
def parseOrTail : (fuel : Nat) → (l : Expr) → List Token → Except Fault (Expr × List Token)
  | 0, _, _ => .error .exhausted
  | fuel + 1, l, .operator .or :: ts =>
    match parseAnd fuel ts with
    | .error f => .error f
    | .ok (r, ts) => parseOrTail fuel (.or l r) ts
  | _ + 1, l, ts => .ok (l, ts)

/-- Conjuncts. -/
def parseAnd : (fuel : Nat) → List Token → Except Fault (Expr × List Token)
  | 0, _ => .error .exhausted
  | fuel + 1, ts =>
    match parseUnary fuel ts with
    | .error f => .error f
    | .ok (e, ts) => parseAndTail fuel e ts

/-- Further conjuncts behind the expression `l`. -/
def parseAndTail : (fuel : Nat) → (l : Expr) → List Token → Except Fault (Expr × List Token)
  | 0, _, _ => .error .exhausted
  | fuel + 1, l, .operator .and :: ts =>
    match parseUnary fuel ts with
    | .error f => .error f
    | .ok (r, ts) => parseAndTail fuel (.and l r) ts
  | _ + 1, l, ts => .ok (l, ts)

/-- A negation or a comparison. -/
def parseUnary : (fuel : Nat) → List Token → Except Fault (Expr × List Token)
  | 0, _ => .error .exhausted
  | fuel + 1, .operator .not :: ts =>
    match parseUnary fuel ts with
    | .error f => .error f
    | .ok (e, ts) => .ok (.not e, ts)
  | fuel + 1, ts => parseComparison fuel ts

/-- A primary, or two with a comparison between them. -/
def parseComparison : (fuel : Nat) → List Token → Except Fault (Expr × List Token)
  | 0, _ => .error .exhausted
  | fuel + 1, ts =>
    match parsePrimary fuel ts with
    | .error f => .error f
    | .ok (l, .operator (.comparison op) :: ts) =>
      match parsePrimary fuel ts with
      | .error f => .error f
      | .ok (r, ts) => .ok (.compare op l r, ts)
    | .ok (l, ts) => .ok (l, ts)

/-- A literal, a name or an expression in parentheses. -/
def parsePrimary : (fuel : Nat) → List Token → Except Fault (Expr × List Token)
  | 0, _ => .error .exhausted
  | _ + 1, [] => .error .unexpectedEnd
  | fuel + 1, .open :: ts =>
    match parseOr fuel ts with
    | .error f => .error f
    | .ok (e, .close :: ts) => .ok (e, ts)
    | .ok _ => .error .missingClose
  | _ + 1, .text s :: ts => .ok (.literal (.string s), ts)
  | _ + 1, .number n :: ts => .ok (.literal (.number n), ts)
  | _ + 1, .name s :: ts => .ok (Expr.ofName s, ts)
  | _ + 1, t :: _ => .error (.unexpectedToken t)

end

/-- The expression that a list of tokens writes. Between two tokens taken there are at most six calls,
    so the fuel suffices. -/
def parseTokens (ts : List Token) : Except Fault Expr :=
  match parseOr (8 * ts.length + 8) ts with
  | .error f => .error f
  | .ok (e, []) => .ok e
  | .ok (_, t :: _) => .error (.unexpectedToken t)

/-- The expression that a text writes; blanks at its ends do not count. -/
def parse (source : String) : Except Fault Expr :=
  match Text.trimList source.toList with
  | [] => .error .empty
  | cs =>
    match tokens cs with
    | .error f => .error f
    | .ok ts => parseTokens ts

end Statechart.Guard
