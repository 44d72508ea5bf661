import Statechart.Session.Macrostep
import Statechart.Store.Snapshot

/-! Machines: sessions with a queue of events from outside.

    A machine is started, given events and asked for its state. Events wait in the queue until they are
    worked off, one after the other, for as long as the machine runs; those left when it stops stay.
    What processes deliver to the machine itself joins the queue. Operations that run the machine take
    fuel and answer nothing if it does not suffice. -/

namespace Statechart

/-- A session with the events that wait for it. -/
structure Machine where
  session : Session
  inbox : EventQueue

namespace Machine

/-- A machine on a chart, not started. -/
def fresh (chart : Option Chart) (supply : Supply) : Machine := ⟨.fresh chart supply, []⟩

/-- Moves what processes delivered to the machine into its queue. -/
def absorb (m : Machine) : Machine :=
  let (own, others) := m.session.outbox.partition fun d => d.1 = .own
  { session := { m.session with outbox := others }, inbox := m.inbox ++ own.map Prod.snd }

/-- Takes what processes delivered to the outside. -/
def takeEmitted (m : Machine) : List Event × Machine :=
  (m.session.outbox.map Prod.snd, { m with session := { m.session with outbox := [] } })

/-- Changes the session and takes over what processes delivered. -/
def mapSession (f : Session → Session) (m : Machine) : Machine :=
  absorb { m with session := f m.session }

/-- Whether the machine runs. -/
def running (m : Machine) : Bool := m.session.running

/-- The names of the active leaves in document order. -/
def leafNames (m : Machine) : List String :=
  (m.session.chart.map m.session.store.leafNames).getD []

/-- The names of the active states in document order. -/
def activeNames (m : Machine) : List String :=
  (m.session.chart.map m.session.store.activeNames).getD []

/-- Whether the state of a name is active. -/
def isIn (id : String) (m : Machine) : Bool :=
  match m.session.chart with
  | some c => m.session.store.isIn c id
  | none => false

/-- The value of a variable of the chart. -/
def global? (name : String) (m : Machine) : Option Value := Dict.get? name m.session.store.globals

/-- The names of the processes that run, in the order of their declaration. -/
def processNames (m : Machine) : List String := m.session.liveNames

/-- Adds an event to the queue. -/
def enqueue (e : Event) (m : Machine) : Machine := { m with inbox := m.inbox.push e }

/-- Starts the machine anew; events that wait are dropped. -/
def reset (fuel : Nat) (m : Machine) : Option (Machine × Option MachineError) :=
  (m.session.firstOwn fuel).map fun (session, e) => (absorb { session, inbox := [] }, e)

/-- Starts the machine. -/
def go (fuel : Nat) (m : Machine) : Option (Machine × Option MachineError) := m.reset fuel

/-- Gives the machine another chart; one that was started starts anew. -/
def setChart (c : Chart) (fuel : Nat) (m : Machine) : Option (Machine × Option MachineError) :=
  let m : Machine := ⟨{ m.session with chart := some c }, []⟩
  if m.session.initialized then m.reset fuel else some (m, none)

/-- Works off the events that wait. -/
def workOff (c : Chart) : Nat → Machine → Option Machine
  | 0, _ => none
  | fuel + 1, m =>
    if m.running then
      match m.inbox.pop with
      | (none, _) => some m
      | (some e, inbox) =>
        match m.session.nextStep c fuel e with
        | none => none
        | some session => workOff c fuel (absorb { session, inbox })
    else some m

/-- Works off the events that wait. -/
def triggerEvents (fuel : Nat) (m : Machine) : Option (Machine × Option MachineError) :=
  match m.session.chart with
  | none => some (m, some .noChart)
  | some c => (m.workOff c fuel).map (·, none)

/-- Adds events to the queue and works it off. -/
def triggerAll (es : List Event) (fuel : Nat) (m : Machine) :
    Option (Machine × Option MachineError) :=
  (es.foldl (fun m e => m.enqueue e) m).triggerEvents fuel

/-- Adds an event to the queue and works it off. -/
def trigger (e : Event) (fuel : Nat) (m : Machine) : Option (Machine × Option MachineError) :=
  (m.enqueue e).triggerEvents fuel

/-- The machine as data. -/
def snapshot (m : Machine) : Except MachineError Snapshot :=
  match m.session.chart with
  | none => .error .noChart
  | some c => .ok (m.session.store.snapshot c m.running)

/-- Ends the processes and empties the session's own queue. -/
def clear (s : Session) : Session := { s.cancelAll with queue := [] }

/-- Takes the instance out of the machine, as data; the machine is then as if it had not been
    started. -/
def detach (m : Machine) : Except MachineError (Snapshot × Machine) :=
  match m.snapshot with
  | .error e => .error e
  | .ok snapshot =>
    .ok (snapshot, m.mapSession fun s =>
      { clear s with store := .empty, initialized := false, running := false })

/-- Puts an instance into the machine, in place of the one in it. -/
def attach (snapshot : Snapshot) (m : Machine) : Except MachineError Machine :=
  match m.session.chart with
  | none => .error .noChart
  | some c =>
    match Store.restore c snapshot with
    | .error e => .error e
    | .ok store =>
      .ok (m.mapSession fun s =>
        { clear s with store, initialized := true, running := snapshot.running })

/-- Registers a listener. -/
def listen (observable : Nat) (l : Listener) (m : Machine) : Machine :=
  { m with session := { m.session with listeners := m.session.listeners.add observable l } }

/-- Takes a listener out. -/
def unlisten (observable : Nat) (l : Listener) (m : Machine) : Machine :=
  { m with session := { m.session with listeners := m.session.listeners.remove observable l } }

/-- Registers what makes the processes of a type. -/
def register (kind : String) (i : Invoker) (m : Machine) : Machine :=
  { m with session := { m.session with invokers := Dict.insert kind i m.session.invokers } }

/-- Takes out what makes the processes of a type. -/
def unregister (kind : String) (m : Machine) : Machine :=
  { m with session := { m.session with invokers := Dict.erase kind m.session.invokers } }

/-- Sets where processes that start from now on deliver their events. -/
def setSink (sink : Sink) (m : Machine) : Machine :=
  { m with session := { m.session with sink } }

theorem absorb_eq (m : Machine) : m.absorb =
    { session := { m.session with outbox := m.session.outbox.filter fun d => !decide (d.1 = .own) }
      inbox := m.inbox ++ (m.session.outbox.filter fun d => decide (d.1 = .own)).map Prod.snd } := by
  simp only [absorb, List.partition_eq_filter_filter]
  rfl

/-- A machine that does not run works off nothing. -/
theorem workOff_of_not_running {c : Chart} {m : Machine} (h : m.running = false) (fuel : Nat) :
    m.workOff c (fuel + 1) = some m := by simp [workOff, h]

/-! ### What comes of an operation -/

section

variable {c : Chart} {m m' : Machine} {fuel : Nat} {error : Option MachineError} {snap : Snapshot}

theorem reset_eq (h : m.session.chart = some c) (fuel : Nat) : m.reset fuel =
    (m.session.firstStep c fuel).map fun s => (absorb ⟨s, []⟩, none) := by
  simp only [reset, Session.firstOwn, Session.onChart, h, Option.map_map]
  rfl

/-- On its chart a machine starts anew with a first step. -/
theorem exists_of_reset (hchart : m.session.chart = some c)
    (h : m.reset fuel = some (m', error)) :
    ∃ s, m.session.firstStep c fuel = some s ∧ m' = absorb ⟨s, []⟩ := by
  rw [reset_eq hchart] at h
  obtain ⟨s, hs, heq⟩ := Option.map_eq_some_iff.1 h
  cases heq
  exact ⟨s, hs, rfl⟩

/-- Without a chart nothing starts. -/
theorem eq_of_reset (hchart : m.session.chart = none) (h : m.reset fuel = some (m', error)) :
    m' = absorb ⟨m.session, []⟩ := by
  simp only [reset, Session.firstOwn, Session.onChart, hchart, Option.map_some] at h
  cases h
  rfl

/-- A machine that was started starts anew on another chart; one that was not only has it. -/
theorem setChart_cases (h : m.setChart c fuel = some (m', error)) :
    m.session.initialized = true ∧
        reset fuel ⟨{ m.session with chart := some c }, []⟩ = some (m', error) ∨
      m.session.initialized = false ∧ m' = ⟨{ m.session with chart := some c }, []⟩ := by
  unfold setChart at h
  dsimp only at h
  split at h
  · exact .inl ⟨‹_›, h⟩
  · rename_i hi
    cases h
    exact .inr ⟨Bool.eq_false_iff.2 hi, rfl⟩

/-- What waits is worked off on the machine's chart, or nothing is. -/
theorem triggerEvents_cases (h : m.triggerEvents fuel = some (m', error)) :
    m' = m ∨ ∃ c, m.session.chart = some c ∧ m.workOff c fuel = some m' := by
  unfold triggerEvents at h
  split at h
  · cases h
    exact .inl rfl
  · rename_i c hchart
    obtain ⟨n, hn, heq⟩ := Option.map_eq_some_iff.1 h
    cases heq
    exact .inr ⟨c, hchart, hn⟩

/-- What working off one event keeps, with what was delivered taken over, working off all that wait
    keeps. -/
theorem holds_of_workOff {P : Machine → Prop}
    (next : ∀ {fuel : Nat} {m : Machine} {e : Event} {s : Session} {inbox : EventQueue}, P m →
      m.session.nextStep c fuel e = some s → P (absorb ⟨s, inbox⟩)) :
    ∀ (fuel : Nat) {m : Machine}, P m → m.workOff c fuel = some m' → P m'
  | 0, _, _, h => by cases h
  | fuel + 1, m, hm, h => by
    rw [workOff] at h
    split at h
    case isFalse =>
      cases h
      exact hm
    split at h
    · cases h
      exact hm
    split at h
    · cases h
    · rename_i s hs
      exact holds_of_workOff next fuel (next hm hs) h

/-- Only a machine on a chart gives its instance away. -/
theorem exists_of_detach (h : m.detach = .ok (snap, m')) : ∃ c, m.session.chart = some c ∧
    m' = m.mapSession fun s =>
      { clear s with store := .empty, initialized := false, running := false } := by
  unfold detach snapshot at h
  split at h
  · cases h
  rename_i hsnap
  split at hsnap
  · cases hsnap
  · cases h
    exact ⟨_, ‹_›, rfl⟩

/-- What a machine has taken can be restored on its chart. -/
theorem exists_of_attach (h : m.attach snap = .ok m') : ∃ c store, m.session.chart = some c ∧
    Store.restore c snap = .ok store ∧ m' = m.mapSession fun s =>
      { clear s with store, initialized := true, running := snap.running } := by
  unfold attach at h
  split at h
  · cases h
  split at h
  · cases h
  · cases h
    exact ⟨_, _, ‹_›, ‹_›, rfl⟩

end

end Machine
end Statechart
