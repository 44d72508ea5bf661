import Statechart.Guard.Parser
import Statechart.Value.Parser

/-! Evaluation of conditions and data expressions given as texts.

    A data expression that begins with a bracket or a brace is read as a JSON literal, any other as an
    expression. The standard evaluator reads a text anew each time; a cached one keeps the expressions
    it has read by their texts and answers the same. -/

namespace Statechart

/-- Why an expression has no value: it is no expression, or no JSON literal. -/
inductive EvalError where
  | parse (source : String) (fault : Guard.Fault)
  | literal (source : String)
  deriving DecidableEq

/-- The wording of an evaluation error. Of a literal it says that it is refused and not what is wrong
    with it: one reason stands for all. -/
def EvalError.message : EvalError → String
  | .parse source fault => "cannot parse '" ++ Text.trim source ++ "': " ++ fault.message
  | .literal source => "cannot evaluate '" ++ source ++ "': invalid JSON"

/-- What gives conditions their truth and data expressions their values in a scope. -/
structure Evaluator where
  condition : (source : String) → (scope : Value) → Except EvalError Bool
  value : (source : String) → (scope : Value) → Except EvalError Value

namespace Evaluator

/-- The expression that a text writes. -/
def compile (source : String) : Except EvalError Guard.Expr :=
  match Guard.parse source with
  | .ok e => .ok e
  | .error f => .error (.parse source f)

/-- The text of a data expression that is a JSON literal. -/
def jsonLiteral? (source : String) : Option String :=
  match Text.trimList source.toList with
  | '[' :: cs => some (String.ofList ('[' :: cs))
  | '\x7b' :: cs => some (String.ofList ('\x7b' :: cs))
  | _ => none

/-- The value of a JSON literal. -/
def readLiteral (source literal : String) : Except EvalError Value :=
  match Value.parse? literal with
  | some v => .ok v
  | none => .error (.literal source)

/-- Evaluation by reading every text anew. -/
def standard : Evaluator where
  condition source scope := (compile source).map (Guard.Expr.holds scope)
  value source scope :=
    match jsonLiteral? source with
    | some literal => readLiteral source literal
    | none => (compile source).map (Guard.Expr.eval scope)

end Evaluator

/-- The expressions that an evaluator has read, by their texts. -/
abbrev ExprCache := Dict String Guard.Expr

namespace ExprCache

/-- How many expressions are kept. -/
def cached (cache : ExprCache) : Nat := List.length cache

/-- The expression of a text, from the cache or read and then kept; a text that is no expression is
    not kept. -/
def compile (source : String) (cache : ExprCache) : Except EvalError Guard.Expr × ExprCache :=
  match Dict.get? source cache with
  | some e => (.ok e, cache)
  | none =>
    match Evaluator.compile source with
    | .ok e => (.ok e, Dict.insert source e cache)
    | .error err => (.error err, cache)

/-- The truth of a condition. -/
def condition (source : String) (scope : Value) (cache : ExprCache) :
    Except EvalError Bool × ExprCache :=
  let (e, cache) := compile source cache
  (e.map (Guard.Expr.holds scope), cache)

/-- The value of a data expression. -/
def value (source : String) (scope : Value) (cache : ExprCache) :
    Except EvalError Value × ExprCache :=
  match Evaluator.jsonLiteral? source with
  | some literal => (Evaluator.readLiteral source literal, cache)
  | none =>
    let (e, cache) := compile source cache
    (e.map (Guard.Expr.eval scope), cache)

end ExprCache
end Statechart
