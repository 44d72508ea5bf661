import Statechart.Host.Registry
import Statechart.Host.Worker

/-! Hosts: a registry of charts with the machines that run on them.

    Every machine has a worker, and workers take turns: whoever asks one of them waits, and meanwhile
    all that have something to do work, in the order in which they were woken. The journal of a host
    holds what its machines did, in the order in which it happened. -/

namespace Statechart

/-- A registry with the workers of the machines that run, by name; those with something to do are ready,
    the one woken first in front. -/
structure Host where
  settings : Settings
  registry : Registry
  workers : Dict String Worker
  ready : List String
  journal : Journal
  supply : Supply

namespace Host

/-- A host without charts and machines. -/
def fresh (settings : Settings) (supply : Supply) : Host := ⟨settings, [], [], [], #[], supply⟩

/-- The names of the machines, in order. -/
def instanceIds (h : Host) : List String := Dict.keys h.workers

/-- Loads the chart directory; one that does not exist holds nothing. -/
def loadCharts (yaml : Yaml) (fs : FileSystem) (h : Host) : Except HostError Nat × Host :=
  match fs.files? h.settings.chartDir with
  | none => (.ok 0, h)
  | some _ =>
    let (r, registry) := h.registry.loadDir yaml fs h.settings.chartDir
    (r.map List.length, { h with registry })

/-- Puts a worker in place of what it was, and what it did meanwhile into the journal. -/
def update (id : String) (before after : Worker) (h : Host) : Host :=
  let done := after.machine.session.journal.toList.drop before.machine.session.journal.size
  { h with workers := Dict.insert id after h.workers, journal := h.journal ++ done }

/-- Lets one worker work off what waits for it. -/
def work (reserved fuel : Nat) (h : Host) (id : String) : Option Host :=
  match Dict.get? id h.workers with
  | none => some h
  | some w => (w.drain reserved fuel).map fun w' => h.update id w w'

/-- Lets every ready worker work, with a place kept free in the queue of the one that someone waits
    for. -/
def workAll (awaited : String) (fuel : Nat) (h : Host) : Option Host :=
  (h.ready.foldlM (fun h id => work (if id = awaited then 1 else 0) fuel h id) h).map fun h =>
    { h with ready := [] }

/-- Adds an event to the queue of a machine. -/
def send (id : String) (e : Event) (fuel : Nat) (h : Host) : Option (Except HostError Unit × Host) :=
  match Dict.get? id h.workers with
  | none => some (.error (.instanceNotFound id), h)
  | some w => do
    let h ← if w.full then h.workAll id fuel else some h
    match Dict.get? id h.workers with
    | none => some (.error (.instanceNotFound id), h)
    | some w =>
      let (r, w') ← w.send e fuel
      let h := h.update id w w'
      some (r, { h with ready := if h.ready.contains id then h.ready else h.ready ++ [id] })

/-- Asks the worker of a machine in its turn, and lets the other ready workers work in theirs. -/
def takeTurns {α : Type} (id : String) (question : Worker → Option (Except HostError α × Worker))
    (fuel : Nat) : List String → Except HostError α × Host → Option (Except HostError α × Host)
  | [], acc => some acc
  | next :: rest, (r, h) => do
    if next = id then
      match Dict.get? id h.workers with
      | none => takeTurns id question fuel rest (r, h)
      | some w =>
        let (r, w') ← question w
        takeTurns id question fuel rest (r, h.update id w w')
    else
      let h ← h.work 0 fuel next
      takeTurns id question fuel rest (r, h)

/-- Asks the worker of a machine. -/
def ask {α : Type} (id : String) (question : Worker → Option (Except HostError α × Worker))
    (fuel : Nat) (h : Host) : Option (Except HostError α × Host) :=
  match Dict.get? id h.workers with
  | none => some (.error (.instanceNotFound id), h)
  | some w => do
    let h ← if w.full then h.workAll id fuel else some h
    let turns := if h.ready.contains id then h.ready else h.ready ++ [id]
    takeTurns id question fuel turns (.error (.instanceNotFound id), { h with ready := [] })

/-- The status of a machine. -/
def status (id : String) (fuel : Nat) (h : Host) : Option (Except HostError Status × Host) :=
  h.ask id (Worker.askStatus fuel) fuel

/-- A snapshot of a machine. -/
def snapshot (id : String) (fuel : Nat) (h : Host) : Option (Except HostError Snapshot × Host) :=
  h.ask id (Worker.askSnapshot fuel) fuel

/-- Starts a machine on a registered chart. -/
def start (id chart : String) (version fuel : Nat) (h : Host) :
    Option (Except HostError Status × Host) :=
  match h.registry.get chart version with
  | .error e => some (.error e, h)
  | .ok c =>
    if Dict.has id h.workers then some (.error (.instanceExists id), h)
    else
      let m := Machine.fresh (some c) h.supply
      let m := if h.settings.traceTransitions then m.listen Listeners.chart .log else m
      match Worker.spawn id m h.settings.capacity fuel with
      | none => none
      | some (.error e) => some (.error (.machine e), h)
      | some (.ok w) =>
        status id fuel { h with
          workers := Dict.insert id w h.workers
          ready := h.ready ++ [id]
          journal := h.journal ++ w.machine.session.journal
          supply := w.machine.session.supply }

/-- Stops a machine and forgets it. -/
def stop (id : String) (fuel : Nat) (h : Host) : Option (Except HostError Status × Host) :=
  (h.ask id (Worker.shutdown fuel) fuel).map fun (r, h) =>
    (r, { h with workers := Dict.erase id h.workers })

/-- Stops every machine. -/
def shutdown (fuel : Nat) (h : Host) : Option Host :=
  h.instanceIds.foldlM (fun h id => (stop id fuel h).map Prod.snd) h

end Host
end Statechart
