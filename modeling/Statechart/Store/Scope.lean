import Statechart.Error
import Statechart.Guard.Expr
import Statechart.Store.Basic

/-! Variables as the content of a state sees them.

    A name is looked up from its owner outward, in the scopes of the states that have been entered and
    at last in the scope of the chart; the nearest scope that declares the first segment of the name
    decides. The view of an owner is all of this in one object, for expressions, with the four system
    variables on top, which no assignment can reach. -/

namespace Statechart

/-- Why a variable cannot be read or written. -/
inductive VariableError where
  | undefined (location : String)
  | notAnObject (location : String)
  deriving DecidableEq

namespace VariableError

/-- The code of a variable error. -/
def code : VariableError → ErrorCode
  | .undefined _ => .undefinedVariable
  | .notAnObject _ => .expressionError

/-- The wording of a variable error. -/
def message : VariableError → String
  | .undefined location => "undefined variable '" ++ location ++ "'"
  | .notAnObject location => "'" ++ location ++ "' does not address an object"

end VariableError

/-- Writes a value where a chain of field names leads; a field that is missing on the way is added as
    `null`. The flag is false if the chain runs into something that is no object, and then the fields
    added before stay. -/
def Value.writeAt (new : Value) : List String → Value → Value × Bool
  | [], _ => (new, true)
  | name :: path, .object fields =>
    let inner := writeAt new path ((Dict.get? name fields).getD .null)
    (.object (Dict.insert name inner.1 fields), inner.2)
  | _ :: _, v => (v, false)

/-- What was written is found again. -/
theorem Value.follow?_writeAt {new : Value} :
    ∀ {path : List String} {v : Value}, (new.writeAt path v).2 = true →
      (new.writeAt path v).1.follow? path = some new
  | [], _, _ => rfl
  | name :: path, v, h => by
    cases v <;> simp_all [Value.writeAt, Value.field?]
    exact follow?_writeAt h

/-- Where a variable is kept: in the chart's scope or in the scope of a state. -/
inductive ScopeName where
  | chart
  | state (n : NodeId)
  deriving DecidableEq

namespace Store

/-- An owner and the states above it, innermost first. -/
def chain (c : Chart) (owner : Option NodeId) : List NodeId :=
  match owner with
  | none => []
  | some n => n :: (c.node n).ancestors

/-- The variables of a scope. -/
def varsOf (s : Store) : ScopeName → Object
  | .chart => s.globals
  | .state n => (Dict.get? n s.contexts).getD []

/-- Replaces the variables of a scope. -/
def setVars (vars : Object) (s : Store) : ScopeName → Store
  | .chart => { s with globals := vars }
  | .state n => { s with contexts := Dict.insert n vars s.contexts }

/-- The nearest scope that declares a variable. -/
def holder? (c : Chart) (owner : Option NodeId) (name : String) (s : Store) : Option ScopeName :=
  match (chain c owner).find? fun n => Dict.has name (s.varsOf (.state n)) with
  | some n => some (.state n)
  | none => if Dict.has name s.globals then some .chart else none

/-- The names of the system variables with their values. -/
def systemVariables (c : Chart) (s : Store) : List (String × Value) :=
  [("_event", (s.event.map EventVariable.toValue).getD .null), ("_sessionid", .string s.sessionId),
   ("_name", .string c.name), ("_all_states", .ofStrings s.published)]

/-- Every variable that an owner sees, inner ones hiding outer ones. -/
def visible (c : Chart) (owner : Option NodeId) (s : Store) : Object :=
  (chain c owner).reverse.foldl (fun vars n => Dict.insertAll vars (s.varsOf (.state n))) s.globals

/-- What expressions of an owner are evaluated against. -/
def scopeView (c : Chart) (owner : Option NodeId) (s : Store) : Value :=
  .object (Dict.insertAll (s.visible c owner) (s.systemVariables c))

/-- The value of a variable that an owner sees. -/
def lookup (c : Chart) (owner : Option NodeId) (name : String) (s : Store) : Option Value :=
  match Guard.pathSegments name with
  | [] => none
  | root :: path =>
    match s.holder? c owner root with
    | none => none
    | some scope => (Dict.get? root (s.varsOf scope)).bind (Value.follow? path)

/-- Writes a variable in the nearest scope that declares its root. -/
def assign (c : Chart) (owner : Option NodeId) (location : String) (new : Value) (s : Store) :
    Store × Option VariableError :=
  match Guard.pathSegments location with
  | [] => (s, some (.undefined location))
  | root :: path =>
    match s.holder? c owner root with
    | none => (s, some (.undefined location))
    | some scope =>
      let vars := s.varsOf scope
      let written := new.writeAt path ((Dict.get? root vars).getD .null)
      (s.setVars (Dict.insert root written.1 vars) scope,
        if written.2 then none else some (.notAnObject location))

@[simp] theorem vars_setVars_self (vars : Object) (s : Store) (scope : ScopeName) :
    (s.setVars vars scope).varsOf scope = vars := by
  cases scope <;> simp [setVars, varsOf]

/-- Writing one scope leaves the others alone. -/
theorem vars_setVars_of_ne {a b : ScopeName} (h : a ≠ b) (vars : Object) (s : Store) :
    (s.setVars vars b).varsOf a = s.varsOf a := by
  cases a with
  | chart => cases b with
    | chart => exact absurd rfl h
    | state m => rfl
  | state n => cases b with
    | chart => rfl
    | state m =>
      have hnm : n ≠ m := fun e => h (e ▸ rfl)
      simp [setVars, varsOf, Dict.get?_insert_of_ne hnm]

end Store
end Statechart
