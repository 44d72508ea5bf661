import Statechart.Text.Segment
import Statechart.Value.Basic

/-! Expressions of conditions and data: literals, variable paths, comparisons and logic.

    A path names a variable and, behind it, fields of nested objects. A missing variable counts as
    `null`, numbers compare by their nearest binary64 numbers, texts by code points, and an ordering
    between anything else is false. -/

namespace Statechart.Guard

/-- The comparison operators. -/
inductive Comparison where
  | eq
  | ne
  | gt
  | ge
  | lt
  | le
  deriving DecidableEq, Repr

/-- The literals that can be written in an expression. -/
inductive Literal where
  | null
  | bool (b : Bool)
  | number (n : Number)
  | string (s : String)
  deriving DecidableEq

/-- An expression. -/
inductive Expr where
  | literal (l : Literal)
  | path (segments : List String)
  | not (e : Expr)
  | and (l r : Expr)
  | or (l r : Expr)
  | compare (op : Comparison) (l r : Expr)
  deriving DecidableEq

/-- The segments of a variable path: the blanks at its ends and one leading `ctx.` do not count, nor
    do empty segments. -/
def pathSegments (path : String) : List String :=
  let cs := Text.trimList path.toList
  let cs := (Text.dropPrefix? "ctx.".toList cs).getD cs
  ((Text.pieces '.' cs).filter fun p => !p.isEmpty).map String.ofList

/-- The value of a literal. -/
def Literal.value : Literal → Value
  | .null => .null
  | .bool b => .bool b
  | .number n => .number n
  | .string s => .string s

/-- Whether a value counts as true: everything but `null`, `false`, the zeros and what is empty. -/
def truthy : Value → Bool
  | .null => false
  | .bool b => b
  | .number n => n.toDouble.value != 0
  | .string s => s != ""
  | .array items => !items.isEmpty
  | .object fields => !fields.isEmpty

/-- The order of two values, if they have one. -/
def order? : Value → Value → Option Ordering
  | .number a, .number b => some (compare a.toDouble.value b.toDouble.value)
  | .string a, .string b =>
    some (if a < b then .lt else if b < a then .gt else .eq)
  | _, _ => none

/-- Equality of values in an expression: two numbers are equal when they are close, anything else when
    it is the same data. -/
def equal : Value → Value → Bool
  | .number a, .number b => a.toDouble.close b.toDouble
  | a, b => a.same b

/-- Whether a comparison holds between two values. -/
def Comparison.holds (op : Comparison) (a b : Value) : Bool :=
  match op with
  | .eq => equal a b
  | .ne => !equal a b
  | .gt => order? a b == some .gt
  | .ge => order? a b == some .gt || order? a b == some .eq
  | .lt => order? a b == some .lt
  | .le => order? a b == some .lt || order? a b == some .eq

namespace Expr

/-- The value of an expression in a scope, which is an object of variables. -/
def eval (scope : Value) : Expr → Value
  | .literal l => l.value
  | .path segments => (scope.follow? segments).getD .null
  | .not e => .bool !truthy (eval scope e)
  | .and l r => .bool (truthy (eval scope l) && truthy (eval scope r))
  | .or l r => .bool (truthy (eval scope l) || truthy (eval scope r))
  | .compare op l r => .bool (op.holds (eval scope l) (eval scope r))

/-- Whether an expression holds as a condition. -/
def holds (scope : Value) (e : Expr) : Bool := truthy (e.eval scope)

end Expr
end Statechart.Guard
