import Statechart.Evaluator
import Statechart.Listeners
import Statechart.Process
import Statechart.Store.Scope
import Statechart.Supply

/-! Sessions: everything that a running machine owns.

    A session has a chart, a store, a queue of events that it raised itself, processes, and those it
    works with: invokers, listeners and an evaluator. Names for new sessions and processes and the time
    come from a supply, so a session is a value and its future a function of it. -/

namespace Statechart

/-- Everything that a running machine owns. The pending states are those whose processes are still to
    be started; the outbox holds what processes delivered and no one has taken. -/
structure Session where
  chart : Option Chart
  store : Store
  queue : EventQueue
  running : Bool
  initialized : Bool
  pending : NodeSet
  live : Dict InvokeId Process
  invokers : Dict String Invoker
  listeners : Listeners
  evaluator : Evaluator
  sink : Sink
  outbox : List (Sink × Event)
  journal : Journal
  supply : Supply

namespace Session

/-- A session that was never started. -/
def fresh (chart : Option Chart) (supply : Supply) : Session :=
  { chart, store := .empty, queue := [], running := false, initialized := false, pending := []
    live := [], invokers := [], listeners := [], evaluator := .standard, sink := .own, outbox := []
    journal := #[], supply }

/-- Writes something into the journal. -/
def note (e : Entry) (s : Session) : Session := { s with journal := s.journal.push e }

/-- Adds an event to the session's own queue. -/
def raise (e : Event) (s : Session) : Session := { s with queue := s.queue.push e }

/-- Reports that something is wrong. -/
def report (code : ErrorCode) (detail : String) (place : Option String) (s : Session) : Session :=
  s.note (.fault code detail place)

/-- Reports that content or a condition failed, and raises the event for it. -/
def fail (code : ErrorCode) (detail : String) (place : Option String) (s : Session) : Session :=
  (s.report code detail place).raise .executionFailed

/-- Tells the listeners of an observable, and then those of the chart. -/
def notify (observable : Nat) (notice : Notice) (s : Session) : Session :=
  { s with journal := s.journal ++ (s.listeners.tell observable notice ++
      s.listeners.tell Listeners.chart notice) }

/-- Changes the store. -/
def mapStore (f : Store → Store) (s : Session) : Session := { s with store := f s.store }

/-- Lets content see an event. -/
def present (e : EventVariable) (s : Session) : Session :=
  s.mapStore fun store => { store with event := some e }

/-- Puts what a process delivers into the outbox. -/
def deliver (sink : Sink) (events : List Event) (s : Session) : Session :=
  { s with
    outbox := s.outbox ++ events.map (sink, ·)
    journal := s.journal ++ events.map (Entry.delivered sink) }

/-- Calls a process and takes what it delivers. -/
def call (p : Process) (call : Call) (s : Session) : Session × Option InvokerError :=
  let s := s.note (.called p.id call)
  let reply := p.invoker.answer s.journal p.id call
  (s.deliver p.sink reply.delivered, reply.failure)

/-- What expressions of an owner are evaluated against. -/
def scope (c : Chart) (owner : Option NodeId) (s : Session) : Value := s.store.scopeView c owner

/-- The names of the processes that run, in the order of their declaration. -/
def liveNames (s : Session) : List String := s.live.map fun (_, p) => p.id

/-- The name of a process if it runs. -/
def liveName? (i : InvokeId) (s : Session) : Option String :=
  (Dict.get? i s.live).map Process.id

end Session
end Statechart
