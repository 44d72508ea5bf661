import Statechart.Proofs.ProcessLifecycle
import Statechart.Proofs.Reload
import Statechart.Proofs.TableBounds

/-! What can be asked of a machine, and what it then holds.

    A machine can be given another chart at any time, and what its session holds are indices into the
    tables of the one before. A session that was started remembers that it was, and starts anew on
    another chart; one that was not holds nothing. So whatever is asked of a machine, in whatever order,
    and whatever charts and snapshots it is given, what it holds lies in the tables of the chart that it
    has, at rest and all the way to the next rest. -/

namespace Statechart

open Chart Session

/-- Whether a chart is one that a definition compiles to. -/
def Chart.Compiles (c : Chart) : Prop := ∃ name version d, Chart.compile name version d = .ok c

theorem Chart.Compiles.of_load {c : Chart} {name : String} {version : Nat} {v : Value}
    (h : Chart.load name version v = .ok c) : c.Compiles :=
  ⟨name, version, c.definition, (Chart.of_load h).2.2.1⟩

namespace Machine

variable {c : Chart} {m m' : Machine} {fuel : Nat} {error : Option MachineError}

/-- What can be asked of a machine. Looking at it in whatever way is one kind of request. -/
inductive Operation where
  | setChart (c : Chart)
  | go
  | reset
  | enqueue (e : Event)
  | trigger (e : Event)
  | triggerAll (es : List Event)
  | triggerEvents
  | detach
  | attach (snap : Snapshot)
  | look
  | takeEmitted
  | equip (invokers : Dict String Invoker) (listeners : Listeners) (sink : Sink)

/-- What becomes of a machine that is asked for something, if that comes to an end. A request that is
    refused counts too. -/
def ask (fuel : Nat) (m : Machine) : Operation → Option Machine
  | .setChart c => (m.setChart c fuel).map Prod.fst
  | .go => (m.go fuel).map Prod.fst
  | .reset => (m.reset fuel).map Prod.fst
  | .enqueue e => some (m.enqueue e)
  | .trigger e => (m.trigger e fuel).map Prod.fst
  | .triggerAll es => (m.triggerAll es fuel).map Prod.fst
  | .triggerEvents => (m.triggerEvents fuel).map Prod.fst
  | .detach => some (match m.detach with | .ok (_, m) => m | .error _ => m)
  | .attach snap => some (match m.attach snap with | .ok m => m | .error _ => m)
  | .look => some m
  | .takeEmitted => some m.takeEmitted.2
  | .equip invokers listeners sink =>
    some { m with session := m.session.equip m.session.chart invokers listeners sink m.session.outbox }

/-- A machine at any time, whatever was asked of it since it was made. -/
inductive Handled : Machine → Prop where
  | new (chart : Option Chart) (supply : Supply) (evaluator : Evaluator)
      (hl : ∀ c, chart = some c → c.Compiles) :
      Handled ⟨{ Session.fresh chart supply with evaluator }, []⟩
  | ask {m m' : Machine} {fuel : Nat} (op : Operation) (h : Handled m)
      (hl : ∀ c, op = .setChart c → c.Compiles) (ha : m.ask fuel op = some m') : Handled m'

/-- The ways in which what is asked of a machine comes to something. -/
inductive Outcome (fuel : Nat) (m m' : Machine) : Operation → Prop where
  | setChart {c : Chart} {error : Option MachineError} (h : m.setChart c fuel = some (m', error)) :
      Outcome fuel m m' (.setChart c)
  | reset {op : Operation} {error : Option MachineError} (h : m.reset fuel = some (m', error)) :
      Outcome fuel m m' op
  | work {op : Operation} {n : Machine} {error : Option MachineError} (hn : n.session = m.session)
      (h : n.triggerEvents fuel = some (m', error)) : Outcome fuel m m' op
  | detach {op : Operation} {snap : Snapshot} (h : m.detach = .ok (snap, m')) : Outcome fuel m m' op
  | attach {op : Operation} {snap : Snapshot} (h : m.attach snap = .ok m') : Outcome fuel m m' op
  | equip {op : Operation} (invokers : Dict String Invoker) (listeners : Listeners) (sink : Sink)
      {outbox : List (Sink × Event)} (ho : outbox = m.session.outbox ∨ outbox = [])
      (h : m'.session = m.session.equip m.session.chart invokers listeners sink outbox) :
      Outcome fuel m m' op

/-- A request that changes nothing of the session, or is refused. -/
theorem Outcome.same {op : Operation} (h : m'.session = m.session) : Outcome fuel m m' op :=
  .equip m.session.invokers m.session.listeners m.session.sink (.inl rfl) h

theorem session_foldl_enqueue (es : List Event) (m : Machine) :
    (es.foldl (fun m e => m.enqueue e) m).session = m.session :=
  List.foldlRecOn (motive := fun n : Machine => n.session = m.session) es _ rfl fun _ h _ _ => h

/-- Whatever is asked, it comes to something in one of these ways. -/
theorem outcome_of_ask {op : Operation} (h : m.ask fuel op = some m') : Outcome fuel m m' op := by
  cases op with
  | setChart c =>
    obtain ⟨r, hr, rfl⟩ := Option.map_eq_some_iff.1 h
    exact .setChart hr
  | go =>
    obtain ⟨r, hr, rfl⟩ := Option.map_eq_some_iff.1 h
    exact .reset hr
  | reset =>
    obtain ⟨r, hr, rfl⟩ := Option.map_eq_some_iff.1 h
    exact .reset hr
  | trigger e =>
    obtain ⟨r, hr, rfl⟩ := Option.map_eq_some_iff.1 h
    exact .work (n := m.enqueue e) rfl hr
  | triggerAll es =>
    obtain ⟨r, hr, rfl⟩ := Option.map_eq_some_iff.1 h
    exact .work (session_foldl_enqueue es m) hr
  | triggerEvents =>
    obtain ⟨r, hr, rfl⟩ := Option.map_eq_some_iff.1 h
    exact .work rfl hr
  | detach =>
    cases h
    split
    · exact .detach ‹_›
    · exact .same rfl
  | attach snap =>
    cases h
    split
    · exact .attach ‹_›
    · exact .same rfl
  | enqueue e =>
    cases h
    exact .same rfl
  | look =>
    cases h
    exact .same rfl
  | takeEmitted =>
    cases h
    exact .equip m.session.invokers m.session.listeners m.session.sink (.inr rfl) rfl
  | equip invokers listeners sink =>
    cases h
    exact .equip invokers listeners sink (.inl rfl) rfl

/-- Whether what the session of a machine at rest holds lies in the tables of its chart. One that was not
    started holds nothing. -/
structure Indexed (s : Session) : Prop where
  compiles : ∀ c, s.chart = some c → c.Compiles
  grounded : ∀ c, s.chart = some c → Grounded c .rest s
  idle : s.initialized = false → s.running = false ∧ ∀ d, Grounded d .rest s

namespace Indexed

/-- A session that was started and holds what lies in the tables of its chart. -/
theorem of_started {s : Session} (hchart : s.chart = some c) (hl : c.Compiles) (hg : Grounded c .rest s)
    (hi : s.initialized = true) : Indexed s where
  compiles d hd := by
    rw [hchart] at hd
    cases hd
    exact hl
  grounded d hd := by
    rw [hchart] at hd
    cases hd
    exact hg
  idle hi' := by
    rw [hi] at hi'
    cases hi'

/-- A session that was not started may have any chart. -/
theorem of_idle {s : Session} (hl : ∀ c, s.chart = some c → c.Compiles) (hr : s.running = false)
    (hg : ∀ d, Grounded d .rest s) : Indexed s :=
  ⟨hl, fun c _ => hg c, fun _ => ⟨hr, hg⟩⟩

/-- Others may change what a session works with. -/
theorem equip {s : Session} (h : Indexed s) (invokers : Dict String Invoker) (listeners : Listeners)
    (sink : Sink) (outbox : List (Sink × Event)) :
    Indexed (s.equip s.chart invokers listeners sink outbox) where
  compiles := h.compiles
  grounded c hc := (h.grounded c hc).equip s.chart invokers listeners sink outbox
  idle hi := ⟨(h.idle hi).1, fun d => ((h.idle hi).2 d).equip s.chart invokers listeners sink outbox⟩

theorem absorb (h : Indexed m.session) : Indexed m.absorb.session := by
  rw [absorb_eq]
  exact h.equip m.session.invokers m.session.listeners m.session.sink _

/-- Starting anew, whatever was held before. -/
theorem of_reset (hchart : m.session.chart = some c) (hl : c.Compiles)
    (h : m.reset fuel = some (m', error)) : Indexed m'.session := by
  obtain ⟨name, version, d, hcompile⟩ := id hl
  have hc := wellFormed_of_compile hcompile
  obtain ⟨s, hs, rfl⟩ := exists_of_reset hchart h
  obtain ⟨hst, hg⟩ := stirs_firstStep hc (closed_of_compile hcompile) hs
  exact absorb (m := ⟨s, []⟩)
    (.of_started ((chart_firstStep hc hs).trans hchart) hl hg (hst.initialized rfl))

theorem reset (hm : Indexed m.session) (h : m.reset fuel = some (m', error)) :
    Indexed m'.session := by
  cases hchart : m.session.chart with
  | some c => exact of_reset hchart (hm.compiles c hchart) h
  | none =>
    rw [eq_of_reset hchart h]
    exact absorb (m := ⟨m.session, []⟩) hm

/-- A session that was started starts anew on another chart, and one that was not holds nothing. -/
theorem setChart (hm : Indexed m.session) (hl : c.Compiles)
    (h : m.setChart c fuel = some (m', error)) : Indexed m'.session := by
  rcases setChart_cases h with ⟨-, h⟩ | ⟨hi, rfl⟩
  · exact of_reset rfl hl h
  · obtain ⟨hr, hg⟩ := hm.idle hi
    refine .of_idle (fun d hd => ?_) hr fun d => (hg d).equip _ _ _ _ _
    cases hd
    exact hl

/-- A session that runs was started, and remembers it. -/
theorem initialized {s : Session} (h : Indexed s) (hr : s.running = true) : s.initialized = true := by
  cases hi : s.initialized with
  | true => rfl
  | false =>
    rw [(h.idle hi).1] at hr
    cases hr

/-- Working off an event, stir by stir. -/
theorem nextStep {s t : Session} {e : Event} (h : Indexed s) (hchart : s.chart = some c)
    (ht : s.nextStep c fuel e = some t) : Indexed t ∧ t.chart = some c ∧ Stirs c s t := by
  have hl := h.compiles c hchart
  obtain ⟨name, version, d, hcompile⟩ := id hl
  have hc := wellFormed_of_compile hcompile
  obtain ⟨hst, hg⟩ := stirs_nextStep hc (closed_of_compile hcompile) (h.grounded c hchart) ht
  have hchart' : t.chart = some c := (chart_nextStep hc ht).trans hchart
  refine ⟨?_, hchart', hst⟩
  cases hr : s.running with
  | true => exact .of_started hchart' hl hg (hst.initialized (h.initialized hr))
  | false =>
    rw [Session.nextStep, if_neg (by simp [hr])] at ht
    cases ht
    exact h

/-- What working off one event keeps, with what was delivered taken over, working off all that wait
    keeps. -/
theorem workOff_keeps {P : Session → Prop}
    (next : ∀ {fuel : Nat} {s t : Session} {e : Event} {inbox : EventQueue}, Indexed s →
      s.chart = some c → P s → s.nextStep c fuel e = some t → P (Machine.absorb ⟨t, inbox⟩).session)
    (hm : Indexed m.session) (hchart : m.session.chart = some c) (hp : P m.session)
    (h : m.workOff c fuel = some m') :
    Indexed m'.session ∧ m'.session.chart = some c ∧ P m'.session := by
  refine holds_of_workOff (P := fun n => Indexed n.session ∧ n.session.chart = some c ∧ P n.session)
    (fun {_ n e s inbox} ⟨hn, hchart, hp⟩ hs => ?_) fuel ⟨hm, hchart, hp⟩ h
  obtain ⟨hnext, hchart', -⟩ := hn.nextStep hchart hs
  refine ⟨absorb (m := ⟨s, inbox⟩) hnext, ?_, next hn hchart hp hs⟩
  rw [absorb_eq]
  exact hchart'

theorem triggerEvents (hm : Indexed m.session) (h : m.triggerEvents fuel = some (m', error)) :
    Indexed m'.session := by
  rcases triggerEvents_cases h with rfl | ⟨c, hchart, h⟩
  · exact hm
  · exact (hm.workOff_keeps (P := fun _ => True) (fun _ _ _ _ => trivial) hchart trivial h).1

/-- Once every process has been stopped, what is held is what the store holds. -/
theorem grounded_of_cleared {s t : Session} {d : Chart} (h : s.pending = []) (hst : t.store.Inside d)
    (hl : t.live = s.cancelAll.live) (hp : t.pending = s.cancelAll.pending) : Grounded d .rest t := by
  have hlive : t.live = [] := hl.trans (live_cancelAll d s)
  have hpending : t.pending = [] := hp.trans ((worked_cancelProcesses _).pending.trans h)
  refine ⟨⟨hst, ?_, ?_⟩, nofun, fun _ => hpending⟩
  · rw [hpending]
    exact nofun
  · rw [hlive]
    exact nofun

/-- A machine that gives its instance away is as if it had not been started. -/
theorem detach {snap : Snapshot} (hm : Indexed m.session) (h : m.detach = .ok (snap, m')) :
    Indexed m'.session := by
  obtain ⟨c, hchart, rfl⟩ := exists_of_detach h
  refine absorb (m := ⟨_, _⟩) (.of_idle (fun d hd => hm.compiles d ?_) rfl fun d =>
    grounded_of_cleared ((hm.grounded c hchart).pending rfl) Store.inside_empty rfl rfl)
  exact (worked_cancelProcesses (s := m.session) (Dict.keys m.session.live)).chart.symm.trans hd

theorem attach {snap : Snapshot} (hm : Indexed m.session) (h : m.attach snap = .ok m') :
    Indexed m'.session := by
  obtain ⟨c, store, hchart, hstore, rfl⟩ := exists_of_attach h
  have hpending : m.session.pending = [] := (hm.grounded c hchart).pending rfl
  refine absorb (m := ⟨_, _⟩) (.of_started (c := c) ?_ (hm.compiles c hchart)
    (grounded_of_cleared hpending (Store.inside_of_restore hstore) rfl rfl) rfl)
  exact (worked_cancelProcesses (s := m.session) (Dict.keys m.session.live)).chart.trans hchart

/-- Whatever is asked of a machine, what it then holds lies in the tables of the chart it then has. -/
theorem ask {op : Operation} (hm : Indexed m.session) (hl : ∀ c, op = .setChart c → c.Compiles)
    (h : m.ask fuel op = some m') : Indexed m'.session := by
  cases outcome_of_ask h with
  | setChart hr => exact hm.setChart (hl _ rfl) hr
  | reset hr => exact hm.reset hr
  | work hn hr => exact triggerEvents (hn ▸ hm) hr
  | detach hr => exact hm.detach hr
  | attach hr => exact hm.attach hr
  | equip invokers listeners sink _ hr =>
    rw [hr]
    exact hm.equip invokers listeners sink _

end Indexed

theorem Handled.indexed (h : Handled m) : Indexed m.session := by
  induction h with
  | new chart supply evaluator hl =>
    refine .of_idle hl rfl fun d => ⟨⟨Store.inside_empty, nofun, nofun⟩, nofun, fun _ => rfl⟩
  | ask op _ hl ha ih => exact ih.ask hl ha

/-- Whatever was asked of a machine, and whatever charts and snapshots it was given: all that its session
    holds lies in the tables of the chart that it has, which refer to nothing that does not lie in them.
    That stays so as long as the session goes on, also if it never comes to rest, since it goes on stir
    by stir; and a session that is given another chart holds nothing, or starts anew on it the same
    way. -/
theorem held_of_handled (h : Handled m) :
    (∀ c, m.session.chart = some c → c.Closed ∧ m.session.Held c ∧
      (∀ p t, Onward c .rest m.session p t → Wanders c m.session t ∧ Grounded c p t) ∧
      ∀ t, Wanders c m.session t → t.Held c ∧ ∀ n ∈ t.store.active c, n < c.nodes.size) ∧
    ∀ d : Chart, d.Compiles → d.Closed ∧ (m.session.initialized = false → m.session.Held d) ∧
      let s : Session := { m.session with chart := some d }
      (∀ p t, Reaches d s p t → Wanders d { s.restart d with pending := [] } t ∧ Grounded d p t) ∧
      ∀ t, Wanders d { s.restart d with pending := [] } t →
        t.Held d ∧ ∀ n ∈ t.store.active d, n < d.nodes.size := by
  have hm := h.indexed
  constructor
  · intro c hchart
    obtain ⟨name, version, d, hcompile⟩ := hm.compiles c hchart
    have hc := wellFormed_of_compile hcompile
    have hn := closed_of_compile hcompile
    have hg := hm.grounded c hchart
    refine ⟨hn, hg.held, fun p t => wanders_onward hc hn hg, fun t ht => ?_⟩
    have hheld := ht.held hc hn hg.held
    exact ⟨hheld, hheld.active hn⟩
  · rintro d ⟨name, version, e, hcompile⟩
    have hc := wellFormed_of_compile hcompile
    have hn := closed_of_compile hcompile
    refine ⟨hn, fun hi => ((hm.idle hi).2 d).held, fun p t => wanders_reaches hc hn, fun t ht => ?_⟩
    have hheld := ht.held hc hn held_restart
    exact ⟨hheld, hheld.active hn⟩

/-- The desk when it has taken a snapshot in which its drawer remembers that the lamp was lit. -/
def takenDesk : Machine := newDesk.deskWith [2]

/-- The session of that desk when it is given a chart with two states, and starts anew on it. -/
def swappedDesk : Session :=
  (({ takenDesk.session with chart := some carelessChart } : Session).firstStep carelessChart 10).get
    (by decide +kernel)

/-- The desk takes a snapshot that no run could have left, and all that it then holds lies in its tables.
    Much of it does not lie in the tables of a chart with two states; but given such a chart, the desk
    starts anew and holds none of it. -/
theorem held_desk : Handled takenDesk ∧ takenDesk.session.Held deskChart ∧
    takenDesk.session.store.leaves = [2, 6] ∧ takenDesk.session.store.histories = [(5, [2])] ∧
    ¬takenDesk.session.Held carelessChart ∧ swappedDesk.Held carelessChart ∧
    swappedDesk.store.leaves = [0] ∧ swappedDesk.store.histories = [] := by
  have hdesk : ∀ c, some deskChart = some c → c.Compiles := by
    intro c hc
    cases hc
    exact .of_load load_desk
  have hnew : Handled newDesk :=
    (Handled.new (some deskChart) (.ofSeed 0 0) .standard hdesk).ask
      (.equip [("timer", timer)] [] .own) nofun (show Machine.ask 0 _ _ = some newDesk from rfl)
  have htaken : Handled takenDesk := by
    refine hnew.ask (.attach (deskSnapshot ["Lit"])) nofun (show newDesk.ask 0 _ = some _ from ?_)
    have h : newDesk.attach (deskSnapshot ["Lit"]) = .ok takenDesk :=
      attach_deskSnapshot rfl (by decide +kernel)
    simp only [Machine.ask, h]
  obtain ⟨hown, hother⟩ := held_of_handled htaken
  obtain ⟨-, hheld, -, -⟩ := hown deskChart rfl
  obtain ⟨-, -, hreach, -⟩ := hother carelessChart (.of_load load_careless)
  have hswapped : Grounded carelessChart .rest swappedDesk :=
    (hreach _ _ (Run.go (Option.some_get _).symm).reaches).2
  refine ⟨htaken, hheld, rfl, rfl, fun h => ?_, hswapped.held, by decide +kernel, by decide +kernel⟩
  have hlt : ∀ n ∈ [2, 6], n < carelessChart.nodes.size := h.leaves
  exact absurd (hlt 6 (by simp)) (by decide +kernel)

end Machine
end Statechart
