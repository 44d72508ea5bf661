import Statechart.Session.Basic

/-! Executable content.

    Actions of a list run one after the other. One that fails is reported and raises an event, and the
    others still run; so running content always succeeds. -/

namespace Statechart

/-- Why an action fails. -/
inductive ActionError where
  | eval (e : EvalError)
  | variable (e : VariableError)
  deriving DecidableEq

namespace ActionError

/-- The code of an action error. -/
def code : ActionError → ErrorCode
  | .eval _ => .expressionError
  | .variable e => e.code

/-- The wording of an action error. -/
def message : ActionError → String
  | .eval e => e.message
  | .variable e => e.message

end ActionError

/-- The target of messages that a machine sends to itself. -/
def internalTarget : String := "#_internal"

namespace Session

/-- The value of a data expression. -/
def evaluate (c : Chart) (owner : Option NodeId) (expr : String) (s : Session) :
    Except ActionError Value :=
  match s.evaluator.value expr (s.scope c owner) with
  | .ok v => .ok v
  | .error e => .error (.eval e)

/-- The value of an argument of a message. -/
def argument (c : Chart) (owner : Option NodeId) (p : Param) (s : Session) :
    Except ActionError Value :=
  match p.expr with
  | some expr => s.evaluate c owner expr
  | none =>
    match s.store.lookup c owner p.name with
    | some v => .ok v
    | none => .error (.variable (.undefined p.name))

/-- The arguments of a message, the last one of a name winning. -/
def arguments (c : Chart) (owner : Option NodeId) (s : Session) :
    List Param → Object → Except ActionError Object
  | [], values => .ok values
  | p :: ps, values =>
    match s.argument c owner p with
    | .ok v => s.arguments c owner ps (Dict.insert p.name v values)
    | .error e => .error e

/-- Runs one action. -/
def perform (c : Chart) (owner : Option NodeId) (a : Action) (s : Session) :
    Session × Option ActionError :=
  match a with
  | .log label none => (s.note (.logged label .null), none)
  | .log label (some expr) =>
    match s.evaluate c owner expr with
    | .ok v => (s.note (.logged label v), none)
    | .error e => (s, some e)
  | .raise event => (s.raise (.signal event), none)
  | .assign location expr =>
    match s.evaluate c owner expr with
    | .ok v =>
      let (store, failure) := s.store.assign c owner location v
      ({ s with store }, failure.map .variable)
    | .error e => (s, some e)
  | .send id target kind event delay params =>
    match s.arguments c owner params [] with
    | .ok values =>
      if target = some internalTarget then
        (s.raise { Event.signal event with payload := .object values }, none)
      else (s.note (.sent ⟨id, target, kind, event, values, delay⟩), none)
    | .error e => (s, some e)
  | .cancel sendId => (s.note (.withdrawn sendId), none)

/-- Runs one action and reports its failure. -/
def act (c : Chart) (owner : Option NodeId) (s : Session) (a : Action) : Session :=
  match s.perform c owner a with
  | (s, none) => s
  | (s, some e) => s.fail e.code e.message (owner.map c.path)

/-- Runs content. -/
def run (c : Chart) (owner : Option NodeId) (actions : List Action) (s : Session) : Session :=
  actions.foldl (act c owner) s

theorem run_append (c : Chart) (owner : Option NodeId) (as bs : List Action) (s : Session) :
    s.run c owner (as ++ bs) = (s.run c owner as).run c owner bs := by
  simp [run]

end Session
end Statechart
