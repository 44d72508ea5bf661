import Statechart.Host.Error
import Statechart.Machine.Basic

/-! Workers: machines behind a bounded queue of requests.

    A worker takes one request after the other, events as well as questions. What the processes of its
    machine deliver joins the same queue, as far as there is room, and is dropped beyond that. A
    question that is asked waits behind the events before it and takes one place of the queue; where the
    queue is full, it waits outside until the worker has worked off everything, and the first place that
    becomes free is kept for it. After a shutdown, and once no one can ask any more, a worker stops. -/

namespace Statechart

/-- What a machine looks like from outside. -/
structure Status where
  instanceId : String
  sessionId : String
  running : Bool
  active : List String
  configuration : List String
  deriving DecidableEq

/-- A machine with the events that wait in its queue. -/
structure Worker where
  id : String
  machine : Machine
  capacity : Nat
  waiting : EventQueue
  stopped : Bool

namespace Worker

/-- What the worker's machine looks like. -/
def status (w : Worker) : Status :=
  { instanceId := w.id
    sessionId := w.machine.session.store.sessionId
    running := w.machine.running
    active := w.machine.leafNames
    configuration := w.machine.activeNames }

/-- Whether the queue has no place left. -/
def full (w : Worker) : Bool := w.capacity ≤ w.waiting.length

/-- Takes over what processes delivered, as far as there is room beside the reserved places. -/
def collect (reserved : Nat) (w : Worker) : Worker :=
  let (events, machine) := w.machine.takeEmitted
  { w with machine, waiting := w.waiting ++ events.take (w.capacity - reserved - w.waiting.length) }

/-- Starts a machine and puts it behind a queue, which has room for one event at least. -/
def spawn (id : String) (m : Machine) (capacity fuel : Nat) : Option (Except MachineError Worker) :=
  match (m.setSink .outside).go fuel with
  | none => none
  | some (_, some e) => some (.error e)
  | some (machine, none) => some (.ok (collect 0 ⟨id, machine, max 1 capacity, [], false⟩))

/-- Works off as many waiting events as `count` says. -/
def workOff (reserved fuel : Nat) : (count : Nat) → Worker → Option Worker
  | 0, w => some w
  | count + 1, w =>
    match w.waiting with
    | [] => some w
    | e :: waiting =>
      match w.machine.trigger e fuel with
      | none => none
      | some (machine, _) => workOff reserved fuel count (collect reserved { w with machine, waiting })

/-- Works off everything that waits, and what comes to wait meanwhile. -/
def drain (reserved : Nat) : (fuel : Nat) → Worker → Option Worker
  | 0, _ => none
  | fuel + 1, w =>
    if w.waiting.isEmpty then some w
    else
      match w.workOff reserved fuel 1 with
      | none => none
      | some w => drain reserved fuel w

/-- Adds an event; where the queue is full, the worker first works it off. -/
def send (e : Event) (fuel : Nat) (w : Worker) : Option (Except HostError Unit × Worker) :=
  if w.stopped then some (.error (.instanceStopped w.id), w)
  else
    (if w.full then w.drain 1 fuel else some w).map fun w =>
      (.ok (), { w with waiting := w.waiting.push e })

/-- Asks a question, which waits for the events before it; the worker then goes on with the others. -/
def ask {α : Type} (answer : Worker → Option (Except HostError α × Worker)) (fuel : Nat)
    (w : Worker) : Option (Except HostError α × Worker) :=
  if w.stopped then some (.error (.instanceStopped w.id), w)
  else do
    let w ← if w.full then w.drain 1 fuel else w.workOff 1 fuel w.waiting.length
    let (r, w) ← answer w
    let w ← w.drain 0 fuel
    some (r, w)

/-- Stops the machine. -/
def halt (fuel : Nat) (w : Worker) : Option Worker :=
  if w.machine.running then
    (w.machine.trigger .stop fuel).map fun (machine, _) =>
      { w with machine := machine.takeEmitted.2, waiting := [], stopped := true }
  else some { w with waiting := [], stopped := true }

/-- Asks for the status. -/
def askStatus (fuel : Nat) (w : Worker) : Option (Except HostError Status × Worker) :=
  w.ask (fun w => some (.ok w.status, w)) fuel

/-- Asks for a snapshot. -/
def askSnapshot (fuel : Nat) (w : Worker) : Option (Except HostError Snapshot × Worker) :=
  w.ask (fun w => some (w.machine.snapshot.mapError .machine, w)) fuel

/-- Asks the worker to stop, with its last status as the answer. -/
def shutdown (fuel : Nat) (w : Worker) : Option (Except HostError Status × Worker) :=
  w.ask (fun w => (w.halt fuel).map fun w => (.ok w.status, w)) fuel

/-- Lets go of the worker: it works off what waits, with no room for more, and stops. -/
def release (fuel : Nat) (w : Worker) : Option Worker :=
  if w.stopped then some w else (w.drain w.capacity fuel).bind (halt fuel)

/-- A worker never holds more than its queue has room for after taking over deliveries. -/
theorem length_waiting_collect (reserved : Nat) (w : Worker) (h : w.waiting.length ≤ w.capacity) :
    (w.collect reserved).waiting.length ≤ w.capacity := by
  simp only [collect, List.length_append, List.length_take]
  omega

end Worker
end Statechart
