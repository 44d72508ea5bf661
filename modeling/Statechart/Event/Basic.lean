import Statechart.Value.Reader

/-! Events: a name, a kind and a payload.

    A machine takes events from two queues, one of its own and one that others fill. Both are first in,
    first out. An event of kind `cancel` stops the machine; the other kinds only say where an event
    comes from. -/

namespace Statechart

/-- Where an event comes from, or that it stops the machine. -/
inductive EventKind where
  | signal
  | error
  | change
  | cancel
  deriving DecidableEq, Repr

/-- An event. -/
structure Event where
  name : String
  kind : EventKind
  payload : Value

namespace EventKind

/-- The words for the kinds. -/
def words : List (String × EventKind) :=
  [("signal", .signal), ("error", .error), ("change", .change), ("cancel", .cancel)]

/-- The word for a kind. -/
def word : EventKind → String
  | .signal => "signal"
  | .error => "error"
  | .change => "change"
  | .cancel => "cancel"

end EventKind

namespace Event

/-- An event that someone sends, without payload. -/
def signal (name : String) : Event := ⟨name, .signal, .null⟩

/-- An event that reports a failure. -/
def failure (name : String) : Event := ⟨name, .error, .null⟩

/-- An event that reports a change of the configuration. -/
def change (name : String) : Event := ⟨name, .change, .null⟩

/-- The event that stops the machine. -/
def stop : Event := ⟨"cancel", .cancel, .null⟩

/-- Whether an event stops the machine. -/
def isCancel (e : Event) : Bool := e.kind = .cancel

/-- Queued when content or a condition fails. -/
def executionFailed : Event := failure "error.execution"

/-- Queued when an event cannot be forwarded to a process. -/
def communicationFailed : Event := failure "error.communication"

/-- Reads an event; kind and payload may be missing. -/
def read? (v : Value) : Option Event := do
  let fields ← Value.readRecord ["name", "kind", "payload"] v
  let name ← Value.required fields "name" Value.readText
  let kind ← Value.defaulted fields "kind" .signal (Value.readWord EventKind.words)
  let payload ← Value.defaulted fields "payload" .null some
  some ⟨name, kind, payload⟩

/-- An event as a value. -/
def toValue (e : Event) : Value :=
  .object [("kind", .string e.kind.word), ("name", .string e.name), ("payload", e.payload)]

/-- Reading an event's value gives the event back. -/
theorem read?_toValue (e : Event) : read? e.toValue = some e := by
  obtain ⟨name, kind, payload⟩ := e
  cases kind <;> rfl

end Event

/-- Events waiting, the next one first. -/
abbrev EventQueue := List Event

namespace EventQueue

/-- Adds an event behind the others. -/
def push (e : Event) (q : EventQueue) : EventQueue := q ++ [e]

/-- The next event and the others. -/
def pop : EventQueue → Option Event × EventQueue
  | [] => (none, [])
  | e :: q => (some e, q)

/-- What was pushed into an empty queue comes out first. -/
theorem pop_push_nil (e : Event) : pop (push e []) = (some e, []) := rfl

/-- Pushing does not change what comes next. -/
theorem pop_push_cons (e d : Event) (q : EventQueue) :
    pop (push e (d :: q)) = (some d, push e q) := rfl

end EventQueue
end Statechart
