import Statechart.Proofs.ProcessLives
import Statechart.Proofs.StoreInvariants

/-! Processes of a machine, whatever it is used for.

    A machine is started, works off events, starts anew, takes another chart, gives its instance away and
    takes another one; and those it works with change. Whenever it is at rest its processes belong to
    active states, and what it did with them can be told from beginning to end. The only trust that is
    needed is in the records of histories of a snapshot: if one of them leads to a state that is active,
    the state is entered a second time, and so are its processes started. -/

namespace Statechart

open Chart Session

/-- Whether a chart is one that was loaded. -/
def Chart.Loads (c : Chart) : Prop := ∃ name version v, Chart.load name version v = .ok c

namespace Session

variable {c : Chart} {s t u : Session} {x : Scene} {ds : List Deed} {A : NodeSet} {qs : List Period}

/-- Where a session stands when it is at rest: it does not run, and all is over; or it runs, and the deeds
    of its last period tell which processes it has. -/
inductive Standing (s : Session) : Prop where
  | idle {qs : List Period} (h : Tale qs true s) (hl : s.live = []) (hr : s.running = false)
      (hq : s.pending = [])
  | running {c : Chart} {qs : List Period} {s₀ : Session} {A : NodeSet} {ds : List Deed} {x : Scene}
      (h : Tale qs true s₀) (h₀ : s₀.live = []) (hp : Lasts c (.opening A) s₀ ds x s)
      (hx : Poised c x s) (hr : s.running = true) (hq : s.pending = []) (hi : s.initialized = true)
      (hm : s.chart = some c)

namespace Standing

theorem pending (h : Standing s) : s.pending = [] := by
  cases h with
  | idle _ _ _ hq => exact hq
  | running _ _ _ _ _ hq => exact hq

/-- What happened to the processes of a session at rest, and that the last period of one that runs is
    one on its chart. -/
theorem tale (h : Standing s) : ∃ qs, Tale qs (!s.running) s ∧
    (s.running = true → ∃ q, qs.getLast? = some q ∧ s.chart = some q.chart) := by
  cases h with
  | @idle qs h _ hr =>
    rw [hr]
    exact ⟨qs, h, nofun⟩
  | running h h₀ hp hx hr _ _ hm =>
    have hall := Tale.period h h₀ hp
    rw [hx.idle.2] at hall
    rw [hr]
    exact ⟨_, hall, fun _ => ⟨_, List.getLast?_concat, hm⟩⟩

/-- A session that does not run has no process. -/
theorem stopped (h : Standing s) (hr : s.running = false) : s.live = [] := by
  cases h with
  | idle _ hl => exact hl
  | running _ _ _ _ hr' =>
    rw [hr] at hr'
    cases hr'

/-- Every process of a session at rest belongs to an active state. -/
theorem owner_active (h : Standing s) {i : InvokeId} (hi : i ∈ Dict.keys s.live) :
    ∃ c, s.chart = some c ∧ (c.invoke i).owner ∈ s.store.active c := by
  cases h with
  | idle _ hl =>
    rw [hl] at hi
    cases hi
  | running _ _ hp hx _ _ _ hm =>
    rw [← hp.live] at hi
    exact ⟨_, hm, (hx.present _).1 (hx.owner i hi)⟩

/-- Others may change what the session works with. -/
theorem equip (h : Standing s) (invokers : Dict String Invoker) (listeners : Listeners) (sink : Sink)
    (outbox : List (Sink × Event)) :
    Standing (s.equip s.chart invokers listeners sink outbox) := by
  cases h with
  | idle h hl hr hq => exact .idle (h.rest rfl rfl) hl hr hq
  | running h h₀ hp hx hr hq hi hm =>
    exact .running h h₀ (hp.rest rfl rfl) (hx.equip _ invokers listeners sink outbox) hr hq hi hm

/-- Once every process has been stopped a period is over, whatever else is put in place of the rest. -/
theorem cleared (h : Standing s) (hl : t.live = s.cancelAll.live) (hj : t.journal = s.cancelAll.journal) :
    ∃ qs, Tale qs true t ∧ t.live = [] := by
  obtain ⟨qs, h, -⟩ := h.tale
  obtain ⟨rs, h, hnone⟩ := h.cancelAll
  exact ⟨rs, h.rest hl hj, hl.trans hnone⟩

theorem pending_cancelAll (h : Standing s) : s.cancelAll.pending = [] :=
  (worked_cancelProcesses _).pending.trans h.pending

/-- Coming to rest again. -/
theorem of_rested {cause : Session → Prop} (hc : c.WellFormed) (h : Tale qs true u)
    (h₀ : u.live = []) (hp : Lasts c (.opening A) u ds x s) (hi : s.initialized = true)
    (hm : t.chart = some c) (hr : Rested c x s cause t) : Standing t := by
  cases hr with
  | running hd hx hr hq =>
    exact .running h h₀ (hp.does hd) hx hr hq (hd.initialized.trans hi) hm
  | ended hd hx hr hq _ ht =>
    subst ht
    obtain ⟨es, -, hend⟩ := shows_finalStep hd.live hx.toStaffed hr hx.present (hx.active_lt hc)
    exact .idle (.period h h₀ ((hp.does hd).does hend)) hend.live.symm (finalStep_spec.2.trans hr)
      (pending_finalStep.trans hq)

/-- A session that does not run may be given another chart. -/
theorem rechart (h : Standing s) (hi : s.initialized = false) (chart : Option Chart) :
    Standing { s with chart } := by
  cases h with
  | idle h hl hr hq => exact .idle (h.rest rfl rfl) hl hr hq
  | running _ _ _ _ _ _ hi' =>
    rw [hi] at hi'
    cases hi'

variable (hc : c.WellFormed) (hn : c.Numbered)

include hc hn

/-- Starting ends what was before. -/
theorem of_firstStep {fuel : Nat} {ended : Bool} (h : Tale qs ended s) (hm : s.chart = some c)
    (ht : s.firstStep c fuel = some t) : Standing t := by
  have hstop : Tale qs ended { s with running := false } := h.rest rfl rfl
  obtain ⟨rs, hover, hl⟩ := hstop.cancelAll
  have hstart : Tale rs true { s.restart c with pending := [] } := hover.rest rfl rfl
  exact of_rested hc hstart hl (.refl (live_restart (c := c)).symm) rfl
    ((chart_firstStep hc ht).trans hm) (rested_of_firstStep hc hn ht)

theorem nextStep {fuel : Nat} {e : Event} (h : Standing s) (hm : s.chart = some c)
    (ht : s.nextStep c fuel e = some t) : Standing t := by
  have hm' := (chart_nextStep hc ht).trans hm
  cases h with
  | idle h hl hr hq =>
    rw [Session.nextStep, if_neg (by simp [hr])] at ht
    cases ht
    exact .idle h hl hr hq
  | running h h₀ hp hx hr hq hi hm₀ =>
    rw [hm] at hm₀
    cases hm₀
    exact of_rested hc h h₀ hp hi hm' (rested_of_nextStep hc hn hp.live hx hr hq ht)

end Standing

end Session

namespace Machine

variable {c : Chart} {m m' : Machine} {fuel : Nat}

/-- A machine at any time, whatever it was used for. It may take any running snapshot that can be
    restored, if what that says to be recorded lies below the states whose histories they are. -/
inductive Used : Machine → Prop where
  | fresh (chart : Option Chart) (supply : Supply) (hl : ∀ c, chart = some c → c.Loads) :
      Used (fresh chart supply)
  | reset {m m' : Machine} {fuel : Nat} {error : Option MachineError} (hu : Used m)
      (h : m.reset fuel = some (m', error)) : Used m'
  | work {m m' : Machine} {fuel : Nat} {error : Option MachineError} (hu : Used m)
      (h : m.triggerEvents fuel = some (m', error)) : Used m'
  | setChart {m m' : Machine} {c : Chart} {fuel : Nat} {error : Option MachineError} (hu : Used m)
      (hl : c.Loads) (h : m.setChart c fuel = some (m', error)) : Used m'
  | detach {m m' : Machine} {snap : Snapshot} (hu : Used m) (h : m.detach = .ok (snap, m')) : Used m'
  | attach {m m' : Machine} {snap : Snapshot} (hu : Used m) (h : m.attach snap = .ok m')
      (hrec : ∀ c, m.session.chart = some c → snap.running = true → m'.session.store.Recalls c) :
      Used m'
  | enqueue {m : Machine} (hu : Used m) (e : Event) : Used (m.enqueue e)
  | take {m : Machine} (hu : Used m) : Used m.takeEmitted.2
  | equip {m : Machine} (hu : Used m) (invokers : Dict String Invoker) (listeners : Listeners)
      (sink : Sink) : Used { m with
        session := m.session.equip m.session.chart invokers listeners sink m.session.outbox }

/-- Where the session of a machine stands, and that its chart is one that was loaded. -/
structure Housed (s : Session) : Prop where
  standing : s.Standing
  loads : ∀ c, s.chart = some c → c.Loads

namespace Housed

theorem of_standing {s : Session} (h : s.Standing) (hm : s.chart = some c) (hl : c.Loads) :
    Housed s where
  standing := h
  loads d hd := by
    rw [hm] at hd
    cases hd
    exact hl

/-- What a machine takes over from its processes changes nothing else. -/
theorem absorb (h : Housed m.session) : Housed m.absorb.session := by
  rw [absorb_eq]
  exact ⟨h.standing.equip m.session.invokers m.session.listeners m.session.sink _, h.loads⟩

theorem workOff (hl : c.Loads) (fuel : Nat) {m : Machine} (hm : Housed m.session)
    (hchart : m.session.chart = some c) (h : m.workOff c fuel = some m') : Housed m'.session := by
  obtain ⟨name, version, v, hload⟩ := id hl
  have hc := wellFormed_of_load hload
  refine (holds_of_workOff (P := fun n => Housed n.session ∧ n.session.chart = some c)
    (fun {_ n e s inbox} ⟨hn, hchart⟩ hs => ?_) fuel ⟨hm, hchart⟩ h).1
  have hchart' : s.chart = some c := (chart_nextStep hc hs).trans hchart
  have hnext : Housed s :=
    .of_standing (hn.standing.nextStep hc (numbered_of_load hload) hchart hs) hchart' hl
  refine ⟨absorb (m := ⟨s, inbox⟩) hnext, ?_⟩
  rw [absorb_eq]
  exact hchart'

/-- Starting anew on a chart that was loaded, whatever was before. -/
theorem of_reset {error : Option MachineError} {qs : List Period} {ended : Bool}
    (htale : Tale qs ended m.session) (hchart : m.session.chart = some c) (hl : c.Loads)
    (h : m.reset fuel = some (m', error)) : Housed m'.session := by
  obtain ⟨name, version, v, hload⟩ := id hl
  have hc := wellFormed_of_load hload
  obtain ⟨s, hs, rfl⟩ := exists_of_reset hchart h
  have hstart : s.Standing := .of_firstStep hc (numbered_of_load hload) htale hchart hs
  exact absorb (m := ⟨s, []⟩) (.of_standing hstart ((chart_firstStep hc hs).trans hchart) hl)

theorem reset {error : Option MachineError} (hm : Housed m.session)
    (h : m.reset fuel = some (m', error)) : Housed m'.session := by
  cases hchart : m.session.chart with
  | some c =>
    obtain ⟨qs, htale, -⟩ := hm.standing.tale
    exact of_reset htale hchart (hm.loads c hchart) h
  | none =>
    rw [eq_of_reset hchart h]
    exact absorb (m := ⟨m.session, []⟩) hm

theorem setChart {error : Option MachineError} (hm : Housed m.session) (hl : c.Loads)
    (h : m.setChart c fuel = some (m', error)) : Housed m'.session := by
  rcases setChart_cases h with ⟨-, h⟩ | ⟨hi, rfl⟩
  · obtain ⟨qs, htale, -⟩ := hm.standing.tale
    exact of_reset (htale.rest (t := { m.session with chart := some c }) rfl rfl) rfl hl h
  · exact .of_standing (hm.standing.rechart hi _) rfl hl

/-- Another instance in place of the one that a machine had, or none. -/
theorem replace {s t : Session} (hs : Housed s) (hchart : t.chart = s.cancelAll.chart)
    (hl : t.live = s.cancelAll.live) (hj : t.journal = s.cancelAll.journal)
    (hq : t.pending = s.cancelAll.pending)
    (hr : t.running = true → t.initialized = true ∧ t.queue = [] ∧ ∃ c, s.chart = some c ∧
      t.store.Sane c ∧ t.store.leaves.Pairwise (· < ·) ∧ ∀ l ∈ t.store.leaves, l < c.nodes.size) :
    Housed t := by
  have hsame : t.chart = s.chart := hchart.trans (worked_cancelProcesses _).chart
  obtain ⟨qs, htale, hnone⟩ := hs.standing.cleared hl hj
  have hq := hq.trans hs.standing.pending_cancelAll
  refine ⟨?_, fun c hc => hs.loads c (hsame ▸ hc)⟩
  cases hrun : t.running with
  | false => exact .idle htale hnone hrun hq
  | true =>
    obtain ⟨hi, hqueue, c, hm, hsane, hsort, hlt⟩ := hr hrun
    have hp : Poised c (.opening (t.store.active c)) t :=
      { distinct := .nil
        owner := nofun
        started := nofun
        declared := nofun
        waiting := by rw [hq]; exact nofun
        sorted := by rw [hq]; exact .nil
        present := fun _ => Iff.rfl
        idle := ⟨rfl, rfl⟩
        sane := hsane
        ordered := hsort
        lt := hlt
        mild := by rw [hqueue]; exact nofun }
    exact .running htale hnone (.refl hnone.symm) hp hrun hq hi (hsame.trans hm)

end Housed

/-- Whatever a machine is used for, its session stands as it should. -/
theorem Used.housed (h : Used m) : Housed m.session := by
  induction h with
  | fresh chart supply hl => exact ⟨.idle (.new rfl rfl) rfl rfl rfl, hl⟩
  | reset _ h ih => exact ih.reset h
  | @work m m' fuel error _ h ih =>
    rcases triggerEvents_cases h with rfl | ⟨c, hchart, h⟩
    · exact ih
    · exact Housed.workOff (ih.loads c hchart) fuel ih hchart h
  | setChart _ hl h ih => exact ih.setChart hl h
  | @detach m m' snap _ h ih =>
    obtain ⟨c, hchart, rfl⟩ := exists_of_detach h
    exact Housed.absorb (m := ⟨_, _⟩) (ih.replace rfl rfl rfl rfl nofun)
  | @attach m m' snap _ h hrec ih =>
    obtain ⟨c, store, hchart, hstore, rfl⟩ := exists_of_attach h
    refine Housed.absorb (m := ⟨_, _⟩) (ih.replace rfl rfl rfl rfl fun hr => ⟨rfl, rfl, c, hchart, ?_⟩)
    obtain ⟨hleaves, -⟩ := Store.of_restore hstore
    obtain ⟨hsort, hleaf⟩ := Store.of_resolveLeaves hleaves
    exact ⟨⟨fun l hl => (hleaf l hl).2, hrec c hchart hr⟩, hsort, fun l hl => (hleaf l hl).1⟩
  | enqueue _ _ ih => exact ih
  | @take m _ ih =>
    exact ⟨ih.standing.equip m.session.invokers m.session.listeners m.session.sink [], ih.loads⟩
  | @equip m _ invokers listeners sink ih =>
    exact ⟨ih.standing.equip invokers listeners sink m.session.outbox, ih.loads⟩

/-- Whatever a machine was used for, its processes belong to active states whenever it is at rest, and
    there is none when it does not run. All calls to processes are told of by periods, each of which can
    be accounted for: the processes of one declaration live one after the other, each is started while
    its state is present, and ended at most once, by a call when its state is left or everything ends, or
    without one by an event that says so; and no process outlives its period. -/
theorem lifecycle_of_used (h : Used m) :
    (∀ i ∈ Dict.keys m.session.live, ∃ c, m.session.chart = some c ∧
      (c.invoke i).owner ∈ m.session.store.active c) ∧
    (m.running = false → m.session.live = []) ∧
    ∃ qs, Tale qs (!m.running) m.session ∧
      (m.running = true → ∃ q, qs.getLast? = some q ∧ m.session.chart = some q.chart) ∧
      m.session.calls = qs.flatMap Period.calls ∧
      ∀ q ∈ qs, ∃ y, Accounted q y ∧ (y.closing = true ∧ y.live = [] ∨
        qs.getLast? = some q ∧ y.closing = !m.running ∧ y.live = m.session.live) := by
  have hs := h.housed.standing
  obtain ⟨qs, htale, hlast⟩ := hs.tale
  obtain ⟨hcalls, hall⟩ := htale.accounts
  exact ⟨fun i hi => hs.owner_active hi, hs.stopped, qs, htale, hlast, hcalls, hall⟩

/-- A desk with a lamp and a drawer. The lamp glows while it is lit; the drawer, when it is shaken, is as
    it was before. -/
def desk : Value :=
  .object [("states", .array [.object [("id", .string "Desk"), ("kind", .string "parallel"),
    ("states", .array [
      .object [("id", .string "Lamp"), ("states", .array [
        .object [("id", .string "Lit"),
          ("invoke", .array [.object [
            ("id", .string "glow"), ("type", .string "timer"), ("src", .string "light")]]),
          ("transitions", .array [
            .object [("event", .string "relight"), ("target", .string "Lit")]])],
        .object [("id", .string "Dark")]])],
      .object [("id", .string "Drawer"),
        ("history", .array [.object [("id", .string "Last"), ("target", .string "Open")]]),
        ("states", .array [
          .object [("id", .string "Open"), ("transitions", .array [
            .object [("event", .string "shake"), ("target", .string "Last")]])],
          .object [("id", .string "Closed")]])]])]])]

/-- The chart of the desk. -/
def deskChart : Chart := (Chart.load "desk" 1 desk).toOption.get (by decide +kernel)

theorem load_desk : Chart.load "desk" 1 desk = .ok deskChart := load_eq_ok _

/-- What makes timers: they do what they are asked, and nothing else. -/
def timer : Invoker where
  answer _ _ _ := ⟨[], none⟩

/-- The desk before it is used, with someone who makes timers. -/
def newDesk : Machine :=
  let m : Machine := .fresh (some deskChart) (.ofSeed 0 0)
  { m with session := m.session.equip m.session.chart [("timer", timer)] [] m.session.sink [] }

/-- The store of a desk whose lamp is lit and whose drawer is open, with what its history is said to have
    recorded. -/
def deskStore (R : NodeSet) : Store :=
  .publish deskChart { Store.empty with sessionId := "desk", leaves := [2, 6], histories := [(5, R)] }

/-- A snapshot of that desk. -/
def deskSnapshot (recorded : List String) : Snapshot :=
  { chart := "desk", version := 1, checksum := deskChart.checksum, sessionId := "desk"
    running := true, configuration := ["Lit", "Open"], histories := [("Last", recorded)]
    contexts := [], globals := [], createdAt := 0 }

theorem restore_deskSnapshot {recorded : List String} {R : NodeSet}
    (h : (Store.resolveStates deskChart recorded).toOption = some R) :
    Store.restore deskChart (deskSnapshot recorded) = .ok (deskStore R) := by
  have hleaves : Store.resolveLeaves deskChart ["Lit", "Open"] = .ok [2, 6] :=
    eq_ok_of_toOption (by decide +kernel)
  have hlast : Store.resolve deskChart "Last" = .ok 5 := eq_ok_of_toOption (by decide +kernel)
  have hhist : (deskChart.node 5).isHistory = true := by decide +kernel
  have hconf : Store.configurationError? deskChart [2, 6] true = none := by decide +kernel
  refine Store.restore_eq_ok rfl hleaves hconf ?_ rfl
  simp [deskSnapshot, Store.resolveHistories, hlast, hhist, eq_ok_of_toOption h, Except.map, Dict.insert]

/-- A desk that has taken a snapshot, whatever it was. -/
def deskWith (R : NodeSet) (m : Machine) : Machine := m.mapSession fun s =>
  { clear s with store := deskStore R, initialized := true, running := true }

theorem attach_deskSnapshot {recorded : List String} {R : NodeSet}
    (hm : m.session.chart = some deskChart)
    (h : (Store.resolveStates deskChart recorded).toOption = some R) :
    m.attach (deskSnapshot recorded) = .ok (m.deskWith R) :=
  attach_eq_ok hm (restore_deskSnapshot h)

/-- The desk when it has taken a snapshot, and its lamp has been lit again. -/
def relitDesk : Machine :=
  (((newDesk.deskWith [6]).enqueue (.signal "relight")).triggerEvents 10).get (by decide +kernel) |>.1

/-- The same desk when it has been started anew. -/
def resetDesk : Machine := ((relitDesk.reset 10).get (by decide +kernel)).1

/-- What a machine asked of its processes. -/
def asked (m : Machine) : List (String × String) :=
  m.session.calls.map fun (process, call) => (process, match call with
    | .start _ _ => "start"
    | .forward _ => "forward"
    | .stop => "stop")

theorem recalls_deskStore {R : NodeSet} : (deskStore R).Recalls deskChart ↔
    ∀ n ∈ R, (deskChart.node n).isHistory = false ∧ deskChart.descends n 4 = true := by
  have hparent : (deskChart.node 5).parent = some 4 := by decide +kernel
  have hrecorded : (deskStore R).recorded? 5 = some R := rfl
  constructor
  · intro h n hn
    obtain ⟨hhist, hbelow⟩ := h 5 R hrecorded n hn
    exact ⟨hhist, hbelow 4 hparent⟩
  · intro h k S hS n hn
    simp only [Store.recorded?, deskStore, Store.publish, Dict.get?] at hS
    split at hS
    · rename_i hk
      cases hS
      subst hk
      refine ⟨(h n hn).1, fun p hp => ?_⟩
      rw [hparent] at hp
      cases hp
      exact (h n hn).2
    · cases hS

/-- The desk takes a snapshot, and its lamp is lit again, and so begins to glow; started anew it stops and
    glows again. But a desk that takes a snapshot in which the drawer remembers that the lamp was lit
    enters that state when it is shaken, though it is active, and the lamp glows twice. -/
theorem lifecycle_desk :
    ((∀ i ∈ Dict.keys resetDesk.session.live, ∃ c, resetDesk.session.chart = some c ∧
        (c.invoke i).owner ∈ resetDesk.session.store.active c) ∧
      Dict.keys resetDesk.session.live = [0] ∧
      resetDesk.asked = [("glow", "start"), ("glow", "stop"), ("glow", "start")] ∧
      ∃ qs, Tale qs false resetDesk.session ∧ resetDesk.session.calls = qs.flatMap Period.calls) ∧
    newDesk.attach (deskSnapshot ["Lit"]) = .ok (newDesk.deskWith [2]) ∧
    ¬(deskStore [2]).Recalls deskChart ∧
    (((newDesk.deskWith [2]).trigger (.signal "relight") 10).bind fun m =>
      m.1.trigger (.signal "shake") 10).map (fun m => m.1.asked) =
        some [("glow", "start"), ("glow", "start")] := by
  have hnew : Used newDesk := by
    refine (Used.fresh (some deskChart) (.ofSeed 0 0) fun c hc => ?_).equip [("timer", timer)] [] .own
    cases hc
    exact ⟨_, _, _, load_desk⟩
  have htaken : newDesk.attach (deskSnapshot ["Open"]) = .ok (newDesk.deskWith [6]) :=
    attach_deskSnapshot rfl (by decide +kernel)
  have hrecalls : ∀ c, newDesk.session.chart = some c → (deskSnapshot ["Open"]).running = true →
      (newDesk.deskWith [6]).session.store.Recalls c := by
    intro c hc _
    cases hc
    exact recalls_deskStore.2 (by decide +kernel)
  have hrelit : Used relitDesk :=
    ((hnew.attach htaken hrecalls).enqueue (.signal "relight")).work (Option.some_get _).symm
  have hreset : Used resetDesk := hrelit.reset (Option.some_get _).symm
  obtain ⟨howner, -, qs, htale, -, hcalls, -⟩ := lifecycle_of_used hreset
  have hrun : resetDesk.running = true := by decide +kernel
  rw [hrun] at htale
  refine ⟨⟨howner, by decide +kernel, by decide +kernel, qs, htale, hcalls⟩,
    attach_deskSnapshot rfl (by decide +kernel), fun h => ?_, by decide +kernel⟩
  exact absurd (recalls_deskStore.1 h 2 (by simp)).2 (by decide +kernel)

end Machine
end Statechart
