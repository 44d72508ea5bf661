import Statechart.Chart.Basic
import Statechart.Error
import Statechart.Event.Basic

/-! What a machine does that others can see, in the order in which it happens.

    A machine changes nothing outside itself. What it tells its listeners, reports, sends, logs and asks
    of its processes is written down in its journal, which only grows. -/

namespace Statechart

/-- Who is told about entries, exits and transitions: someone by name, or the log. -/
inductive Listener where
  | named (name : String)
  | log
  deriving DecidableEq

/-- What a listener is told. A transition without targets is taken to its own source. -/
inductive Notice where
  | entered (state : Node)
  | exited (state : Node)
  | taken (source target : Node) (transition : Transition) (event : Option String)

/-- A message to someone outside. -/
structure SendRequest where
  id : Option String
  target : Option String
  kind : Option String
  event : String
  params : Object
  delay : Nat

/-- What a machine asks of a process. -/
inductive Call where
  | start (source : String) (params : Object)
  | forward (event : Event)
  | stop

/-- Where a process delivers its events: to the machine that started it, or outside. -/
inductive Sink where
  | own
  | outside
  deriving DecidableEq

/-- One thing that a machine did. -/
inductive Entry where
  | noticed (listener : Listener) (notice : Notice)
  | fault (code : ErrorCode) (detail : String) (place : Option String)
  | sent (request : SendRequest)
  | withdrawn (sendId : String)
  | logged (label : Option String) (value : Value)
  | called (process : String) (call : Call)
  | delivered (sink : Sink) (event : Event)

/-- What an entry of the journal tells a listener. -/
def Entry.heard? (l : Listener) : Entry → Option Notice
  | .noticed k notice => if k = l then some notice else none
  | _ => none

/-- Everything that a machine did, the first thing first. -/
abbrev Journal := Array Entry

end Statechart
