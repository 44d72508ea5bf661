import Statechart.Session.Microstep

/-! From one stable configuration to the next.

    A machine at rest takes an event from outside, and then goes on by itself: with transitions that
    need no event, else with the next event of its own queue, until there is nothing left; then the
    processes of newly entered states start, and what they raised is worked off too. Charts can go on
    for ever, so the number of rounds is bounded by fuel, and running out of it gives nothing. -/

namespace Statechart.Session

/-- Lets content see the active states of this moment. -/
def publish (c : Chart) (s : Session) : Session := s.mapStore (Store.publish c)

/-- A step of a machine that goes on by itself: the event taken from its queue, if any, and the
    transitions to take. An event that stops the machine stops it. -/
def nextInternal (c : Chart) (s : Session) : Option Event × List TransitionId × Session :=
  match s.select c none with
  | ([], s) =>
    match s.queue.pop with
    | (none, _) => (none, [], s)
    | (some e, queue) =>
      let s := { s with queue }
      if e.isCancel then (none, [], { s with running := false })
      else
        let (ts, s) := (s.present (.ofEvent e true)).select c (some e.name)
        (some e, ts, s)
  | (ts, s) => (none, ts, s)

/-- Goes on until nothing is left to do. -/
def macroStep (c : Chart) : Nat → Session → Option Session
  | 0, _ => none
  | fuel + 1, s =>
    if s.running then
      match s.nextInternal c with
      | (_, [], s) =>
        let s := if s.running then s.startPending c else s
        if s.running && !s.queue.isEmpty then macroStep c fuel s else some s
      | (event, ts, s) =>
        match s.microStep c event ts with
        | none => none
        | some s => macroStep c fuel (s.publish c)
    else some s

/-- Takes transitions and goes on until nothing is left to do. The processes that are not started by
    then never will be. -/
def takeAndSettle (c : Chart) (fuel : Nat) (event : Option Event) (ts : List TransitionId)
    (s : Session) : Option Session := do
  let s ← { s with pending := [] }.microStep c event ts
  let s ← (s.publish c).macroStep c fuel
  some { s with pending := [] }

/-- Leaves a state of a machine that has stopped; a final state at the top stays. -/
def abandon (c : Chart) (s : Session) (i : NodeId) : Session :=
  let n := c.node i
  let s := n.onExit.foldl (fun s b => s.run c (some i) b.actions) s
  let s := s.cancelProcesses n.invokes
  let s := s.notify n.observable (.exited n)
  if n.isTopLevelFinal then s else s.mapStore (Store.deactivate [i])

/-- Leaves every active state once the machine has stopped. -/
def finalStep (c : Chart) (s : Session) : Session :=
  if s.running then s
  else ((c.sortReverse (s.store.active c)).foldl (abandon c) s).publish c

/-- Forgets everything and takes the chart's variables; processes end. -/
def restart (c : Chart) (s : Session) : Session :=
  let s := { s with running := false }.cancelAll
  let (id, supply) := s.supply.nextSession
  { s with
    queue := []
    store := .start c id supply.now
    initialized := true
    running := true
    supply }

/-- Starts the machine anew. -/
def firstStep (c : Chart) (fuel : Nat) (s : Session) : Option Session :=
  (takeAndSettle c fuel none [c.initial] (s.restart c)).map (finalStep c)

/-- Works off an event from outside that does not stop the machine. -/
def respond (c : Chart) (fuel : Nat) (e : Event) (s : Session) : Option Session :=
  let s := (s.present (.ofEvent e false)).tellProcesses c e
  match s.select c (some e.name) with
  | ([], s) => some s
  | (ts, s) => takeAndSettle c fuel (some e) ts s

/-- Works off an event from outside; a stopped machine takes none. -/
def nextStep (c : Chart) (fuel : Nat) (e : Event) (s : Session) : Option Session :=
  if s.running then
    if e.isCancel then some ({ s with running := false }.finalStep c)
    else (respond c fuel e s).map (finalStep c)
  else some s

/-- Does something with the session's own chart; without a chart it is refused. -/
def onChart (f : Chart → Session → Option Session) (s : Session) :
    Option (Session × Option MachineError) :=
  match s.chart with
  | none => some (s, some .noChart)
  | some c => (f c s).map (·, none)

/-- `restart` on the session's own chart. -/
def restartOwn (s : Session) : Option (Session × Option MachineError) :=
  s.onChart fun c s => some (s.restart c)

/-- `firstStep` on the session's own chart. -/
def firstOwn (fuel : Nat) (s : Session) : Option (Session × Option MachineError) :=
  s.onChart fun c s => s.firstStep c fuel

/-- `nextStep` on the session's own chart; a stopped machine does not even ask for one. -/
def nextOwn (fuel : Nat) (e : Event) (s : Session) : Option (Session × Option MachineError) :=
  if s.running then s.onChart fun c s => s.nextStep c fuel e else some (s, none)

/-- `finalStep` on the session's own chart; a running machine does not even ask for one. -/
def finalOwn (s : Session) : Option (Session × Option MachineError) :=
  if s.running then some (s, none) else s.onChart fun c s => some (s.finalStep c)

end Statechart.Session
