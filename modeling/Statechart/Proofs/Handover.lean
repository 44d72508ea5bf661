import Statechart.Proofs.Lockstep
import Statechart.Proofs.RoundTrip

/-! Handing a running machine over.

    A machine at rest whose queues are empty and whose processes have all ended is written as a snapshot,
    and another machine takes it. The snapshot leaves out the event in hand, and what content sees of the
    active states is made anew; nothing else is lost. The next event from outside takes the place of the
    event in hand before anything looks at it, unless it stops the machine, so from then on the two
    machines keep abreast. -/

namespace Statechart

open Chart Session

namespace Session

variable {c : Chart} {s : Session} {e : Event}

/-- Takes the event in hand away. -/
def emptyHanded (s : Session) : Session := s.mapStore fun store => { store with event := none }

/-- An event from outside takes the place of the one in hand, unless it stops the machine. -/
theorem nextStep_emptyHanded (he : e.isCancel = false) (fuel : Nat) (hr : s.running = true) :
    s.emptyHanded.nextStep c fuel e = s.nextStep c fuel e := by
  have hr' : s.emptyHanded.running = true := hr
  rw [nextStep, nextStep, if_pos hr, if_pos hr', he]
  rfl

end Session

namespace Machine

variable {c : Chart} {m m' : Machine}

/-- A machine on a chart at any time after it was started. It works off what is in its queue; and others
    add events, take what was delivered to them, and change what the machine works with. -/
inductive Reached (c : Chart) : Machine → Prop where
  | go {m m' : Machine} {fuel : Nat} (hm : m.session.chart = some c)
      (h : m.go fuel = some (m', none)) : Reached c m'
  | work {m m' : Machine} {fuel : Nat} (hr : Reached c m)
      (h : m.triggerEvents fuel = some (m', none)) : Reached c m'
  | enqueue {m : Machine} (hr : Reached c m) (e : Event) : Reached c (m.enqueue e)
  | take {m : Machine} (hr : Reached c m) : Reached c m.takeEmitted.2
  | equip {m : Machine} (hr : Reached c m) (invokers : Dict String Invoker) (listeners : Listeners)
      (sink : Sink) : Reached c { m with
        session := m.session.equip m.session.chart invokers listeners sink m.session.outbox }

theorem go_eq (hm : m.session.chart = some c) (fuel : Nat) : m.go fuel =
    (m.session.firstStep c fuel).map fun s => (absorb ⟨s, []⟩, none) := reset_eq hm fuel

/-- A machine that is started keeps its chart. -/
theorem chart_go {fuel : Nat} {error : Option MachineError} (hc : c.WellFormed)
    (hm : m.session.chart = some c) (h : m.go fuel = some (m', error)) : m'.session.chart = some c := by
  rw [go_eq hm] at h
  obtain ⟨s, hs, heq⟩ := Option.map_eq_some_iff.1 h
  cases heq
  rw [absorb_eq]
  exact (chart_firstStep hc hs).trans hm

theorem triggerEvents_eq (hm : m.session.chart = some c) (fuel : Nat) : m.triggerEvents fuel =
    (m.workOff c fuel).map fun m => (m, none) := by
  simp only [triggerEvents, hm]

/-- Where the session of a machine is: on a run on the chart, with everything taken that was delivered. -/
structure Placed (c : Chart) (s : Session) : Prop where
  run : ∃ s₀, Run c s₀ s
  chart : s.chart = some c
  delivered : Delivered s

/-- What a machine takes over from its processes changes nothing else. -/
theorem placed_absorb (hrun : ∃ s₀, Run c s₀ m.session) (hm : m.session.chart = some c) :
    Placed c m.absorb.session := by
  obtain ⟨s₀, hrun⟩ := hrun
  refine ⟨⟨s₀, ?_⟩, ?_, delivered_absorb m⟩ <;> rw [absorb_eq]
  · exact hrun.equip m.session.chart m.session.invokers m.session.listeners m.session.sink _
  · exact hm

theorem placed_workOff (hc : c.WellFormed) (fuel : Nat) {m : Machine} (hm : Placed c m.session)
    (h : m.workOff c fuel = some m') : Placed c m'.session := by
  refine holds_of_workOff (P := fun n => Placed c n.session) (fun {_ n e s inbox} hn hs => ?_) fuel hm h
  obtain ⟨s₀, hrun⟩ := hn.run
  exact placed_absorb (m := ⟨s, inbox⟩) ⟨s₀, hrun.next hs⟩ ((chart_nextStep hc hs).trans hn.chart)

theorem Reached.placed (hc : c.WellFormed) (h : Reached c m) : Placed c m.session := by
  induction h with
  | @go m m' fuel hm h =>
    rw [go_eq hm] at h
    obtain ⟨s, hs, e⟩ := Option.map_eq_some_iff.1 h
    cases e
    exact placed_absorb (m := ⟨s, []⟩) ⟨m.session, .go hs⟩ ((chart_firstStep hc hs).trans hm)
  | @work m m' fuel _ h ih =>
    rw [triggerEvents_eq ih.chart] at h
    obtain ⟨m₁, h₁, e⟩ := Option.map_eq_some_iff.1 h
    cases e
    exact placed_workOff hc fuel ih h₁
  | enqueue _ _ ih => exact ih
  | @take m _ ih =>
    obtain ⟨s₀, hrun⟩ := ih.run
    exact ⟨⟨s₀, hrun.equip m.session.chart m.session.invokers m.session.listeners m.session.sink []⟩,
      ih.chart, fun d hd => by cases hd⟩
  | equip _ invokers listeners sink ih =>
    obtain ⟨s₀, hrun⟩ := ih.run
    exact ⟨⟨s₀, hrun.equip _ invokers listeners sink _⟩, ih.chart, ih.delivered⟩

/-- A machine that was fed with events is one that was reached. -/
theorem Reached.feed (hc : c.WellFormed) {fuel : Nat} : ∀ (es : List Event) {m : Machine},
    Reached c m → m.feed fuel es = some m' → Reached c m'
  | [], _, hm, h => by
    cases h
    exact hm
  | e :: es, m, hm, h => by
    rw [Machine.feed, List.foldlM_cons] at h
    obtain ⟨m₁, h₁, h⟩ := Option.bind_eq_some_iff.1 h
    obtain ⟨⟨m₂, error⟩, ht, rfl⟩ := Option.map_eq_some_iff.1 h₁
    have hwork := triggerEvents_eq (m := m.enqueue e) (hm.placed hc).chart fuel
    obtain ⟨m₃, -, heq⟩ := Option.map_eq_some_iff.1 (hwork.symm.trans ht)
    cases heq
    exact Reached.feed hc es (.work (.enqueue hm e) ht) h

/-- A machine that was never started, on the chart of another one and with what that works with. -/
def successor (supply : Supply) (m : Machine) : Machine where
  session := { Session.fresh m.session.chart supply with
    invokers := m.session.invokers
    listeners := m.session.listeners
    evaluator := m.session.evaluator
    sink := m.session.sink }
  inbox := []

/-- A machine with nothing in its queue does not need the event in hand. -/
theorem feed_emptyHanded {e : Event} (he : e.isCancel = false) (hm : m.session.chart = some c)
    (hr : m.running = true) (hi : m.inbox = []) (fuel : Nat) (es : List Event) :
    feed fuel (e :: es) { m with session := m.session.emptyHanded } = m.feed fuel (e :: es) := by
  have hwork : workOff c fuel (enqueue e { m with session := m.session.emptyHanded }) =
      workOff c fuel (m.enqueue e) := by
    cases fuel with
    | zero => rfl
    | succ fuel =>
      have hrun : (m.enqueue e).running = true := hr
      have hrun' : (enqueue e { m with session := m.session.emptyHanded }).running = true := hr
      rw [workOff, workOff, if_pos hrun, if_pos hrun']
      simp only [enqueue, hi, EventQueue.push, List.nil_append, EventQueue.pop,
        nextStep_emptyHanded he fuel hr]
  have htrigger : triggerEvents fuel (enqueue e { m with session := m.session.emptyHanded }) =
      triggerEvents fuel (m.enqueue e) := by
    have hchart : (m.enqueue e).session.chart = some c := hm
    have hchart' : (enqueue e { m with session := m.session.emptyHanded }).session.chart = some c := hm
    rw [triggerEvents_eq hchart, triggerEvents_eq hchart', hwork]
  simp only [feed, List.foldlM_cons, trigger, htrigger]

/-- A machine at rest with nothing in its queues and no process is written as a snapshot that another one
    can take, which then has its store but for the event in hand. From the next event on that does not
    stop the machine, the two hold the same after every event, and write and deliver the same, if their
    processes have no memory and get the same names. -/
theorem abreast_of_handover {name : String} {version : Nat} {v : Value}
    (hl : Chart.load name version v = .ok c) (ha : c.HistoriesAlone) (hm : Reached c m)
    (hr : m.running = true) (hq : m.session.queue = []) (hi : m.inbox = [])
    (hlive : m.session.live = []) (hmem : ∀ e ∈ m.session.invokers, e.2.Memoryless)
    (supply : Supply) (hnames : ∀ k, supply.processName (supply.processes + k) =
      m.session.supply.processName (m.session.supply.processes + k)) :
    ∃ snap n left, m.snapshot = .ok snap ∧ m.detach = .ok (snap, left) ∧
      (m.successor supply).attach snap = .ok n ∧ n.running = true ∧
      n.session.store = { m.session.store with event := none } ∧
      ∀ fuel e es, e.isCancel = false →
        Option.Rel (Abreast m.session n.session) (m.feed fuel (e :: es)) (n.feed fuel (e :: es)) := by
  have hc := wellFormed_of_load hl
  obtain ⟨⟨s₀, hrun⟩, hchart, hd⟩ := hm.placed hc
  have hreach := hrun.reaches
  have htended := tended_of_reaches hc hreach
  have hsteady : m.session.store.Steady c := holds_of_reaches hc hreach hr
  obtain ⟨past, hpast⟩ := Chronicle.of_reaches hreach
  have hrestore := Store.restore_snapshot (named_of_load hl) (hsteady.legal hc ha)
    (hsteady.lawful ha).sorted htended.orderly (Store.filed_of_chronicle hc hpast htended.orderly)
    htended.current
  have hsnap : m.snapshot = .ok (m.session.store.snapshot c true) := by
    simp only [snapshot, hchart, hr]
  have hdetach : ∃ left, m.detach = .ok (m.session.store.snapshot c true, left) := by
    simp only [detach, hsnap]
    exact ⟨_, rfl⟩
  obtain ⟨left, hdetach⟩ := hdetach
  have hattach := attach_eq_ok (m := m.successor supply) hchart hrestore
  refine ⟨_, _, left, hsnap, hdetach, hattach, rfl, rfl, fun fuel e es he => ?_⟩
  rw [← feed_emptyHanded he hchart hr hi]
  refine Abreast.feed hd (fun d hd => by cases hd) fuel (e :: es) ⟨?_, hi.symm⟩
  exact {
    chart := rfl
    store := rfl
    queue := hq.symm
    running := hr.symm
    pending := (htended.pending rfl hr).symm
    live := hlive.symm
    invokers := rfl
    listeners := rfl
    evaluator := rfl
    sink := rfl
    journal := ⟨[], by simp [emptyHanded, mapStore], by simp⟩
    outbox := ⟨[], by simp [emptyHanded, mapStore], by simp⟩
    names := hnames
    makers := hmem
    processes := fun e he => by
      rw [show m.session.emptyHanded.live = [] from hlive] at he
      cases he }

/-- The lamp, plugged in. -/
def pluggedLamp : Machine :=
  (((Machine.fresh (some lampChart) (.ofSeed 0 0)).go 10).map Prod.fst).get (by decide +kernel)

/-- The lamp, plugged in, and then switched on, turned bright and switched off. -/
def usedLamp : Machine :=
  (pluggedLamp.feed 10 (["push", "turn", "push"].map .signal)).get (by decide +kernel)

theorem reached_usedLamp : Reached lampChart usedLamp := by
  have hgo : ((Machine.fresh (some lampChart) (.ofSeed 0 0)).go 10).map Prod.fst = some pluggedLamp :=
    (Option.some_get _).symm
  rw [go_eq rfl, Option.map_map] at hgo
  obtain ⟨s, hs, e⟩ := Option.map_eq_some_iff.1 hgo
  have hplugged : Reached lampChart pluggedLamp :=
    .go rfl ((go_eq rfl 10).trans (by rw [hs, ← e]; rfl))
  exact hplugged.feed (wellFormed_of_load load_lamp) _ (Option.some_get _).symm

/-- The lamp has a successor that holds what it holds, its history included: switched on again, both are as
    bright as the lamp was before. -/
theorem abreast_usedLamp : ∃ snap n, usedLamp.snapshot = .ok snap ∧
    (usedLamp.successor usedLamp.session.supply).attach snap = .ok n ∧
    n.session.store = { usedLamp.session.store with event := none } ∧
    ∃ a b, usedLamp.feed 10 [.signal "push"] = some a ∧ n.feed 10 [.signal "push"] = some b ∧
      b.session.store = a.session.store ∧ a.session.store.leaves = [5, 7] := by
  have hinvokers : usedLamp.session.invokers = [] := List.isEmpty_iff.1 (by decide +kernel)
  obtain ⟨snap, n, -, hsnap, -, hattach, -, hstore, hfeed⟩ :=
    abreast_of_handover load_lamp (by decide +kernel) reached_usedLamp (by decide +kernel)
      (List.isEmpty_iff.1 (by decide +kernel)) (List.isEmpty_iff.1 (by decide +kernel))
      (List.isEmpty_iff.1 (by decide +kernel)) (by simp [hinvokers]) usedLamp.session.supply
      fun _ => rfl
  refine ⟨snap, n, hsnap, hattach, hstore, ?_⟩
  have hbright : (usedLamp.feed 10 [.signal "push"]).map (fun m => m.session.store.leaves) =
      some [5, 7] := by decide +kernel
  obtain ⟨a, ha, hleaves⟩ := Option.map_eq_some_iff.1 hbright
  have h := hfeed 10 (.signal "push") [] rfl
  rw [ha] at h
  generalize n.feed 10 [.signal "push"] = b at h
  cases h with
  | some h => exact ⟨a, _, ha, rfl, h.session.store, hleaves⟩

end Machine
end Statechart
