import Statechart.Proofs.Lockstep
import Statechart.Proofs.Operations

/-! What a machine at rest holds of its processes.

    Between two requests nothing that was delivered waits for the machine itself, since that has joined
    its queue; and the processes that run are kept in the order of their declarations. Each was made by
    someone who made processes for the session at the time. On a chart that declares no process there is
    none, and then nothing is delivered at all. -/

namespace Statechart

open Chart

namespace Session

variable {c : Chart} {s t : Session} {i : InvokeId} {p : Process} {e : Event}

/-! ### What content leaves alone -/

/-- An action changes nothing but store, queue and journal. -/
theorem perform_same (owner : Option NodeId) (a : Action) : ∃ store queue journal,
    (s.perform c owner a).1 = { s with store, queue, journal } := by
  cases a with
  | log label expr =>
    cases expr with
    | none => exact ⟨_, _, _, rfl⟩
    | some expr =>
      rw [perform]
      split <;> exact ⟨_, _, _, rfl⟩
  | assign location expr =>
    rw [perform]
    split <;> exact ⟨_, _, _, rfl⟩
  | send id target kind event delay params =>
    rw [perform]
    split
    · split <;> exact ⟨_, _, _, rfl⟩
    · exact ⟨_, _, _, rfl⟩
  | _ => exact ⟨_, _, _, rfl⟩

theorem act_same (owner : Option NodeId) (a : Action) : ∃ store queue journal,
    s.act c owner a = { s with store, queue, journal } := by
  obtain ⟨store, queue, journal, h⟩ := perform_same (c := c) (s := s) owner a
  unfold act
  split <;> rename_i hp <;> rw [hp] at h <;> cases h <;> exact ⟨_, _, _, rfl⟩

/-! ### How processes are treated -/

/-- What a stir does about processes: it lets them be, stops all of them, stops or starts one, or tells
    them of an event. -/
inductive Attends (c : Chart) (s : Session) : Session → Prop where
  | apart {t : Session} (live : t.live = s.live) (invokers : t.invokers = s.invokers)
      (outbox : t.outbox = s.outbox) : Attends c s t
  | restart : Attends c s { s.restart c with pending := [] }
  | cancel (i : InvokeId) : Attends c s (s.cancelProcess i)
  | start {i : InvokeId} (hi : i < c.invokes.size) : Attends c s (s.start c i)
  | tell (e : Event) : Attends c s (s.tellProcesses c e)

theorem attends_of_stir (hc : c.WellFormed) (hs : Stir c s t) : Attends c s t := by
  cases hs with
  | restart => exact .restart
  | select event =>
    obtain ⟨-, -, k, hk⟩ := select_spec hc (Prod.eta (s.select c event)).symm
    exact .apart (by rw [hk.same]) (by rw [hk.same]) (by rw [hk.same])
  | @act owner _ a =>
    obtain ⟨store, queue, journal, ha⟩ := act_same (c := c) (s := s) owner a
    exact .apart (by rw [ha]) (by rw [ha]) (by rw [ha])
  | cancel => exact .cancel _
  | start hi => exact .start hi
  | tell e => exact .tell e
  | _ => exact .apart rfl rfl rfl

/-- What is kept however processes are treated is kept by every stir. -/
theorem Stirs.keeps {P : Session → Prop} (hc : c.WellFormed)
    (hkeep : ∀ {s t}, P s → Attends c s t → P t) (h : P s) (hs : Stirs c s t) : P t := by
  induction hs with
  | refl => exact h
  | tail _ hstir ih => exact hkeep ih (attends_of_stir hc hstir)

/-! ### The order of processes -/

theorem live_cancelProcess_eq (i : InvokeId) : (s.cancelProcess i).live = Dict.erase i s.live := by
  cases dismissed_cancelProcess (s := s) i with
  | absent hp ht => rw [ht, Dict.erase_of_not_mem (Dict.get?_eq_none_iff.1 hp)]
  | stopped _ _ ht | failed _ _ ht => exact (congrArg Session.live ht).trans rfl

/-- A process that starts is made by one who was there to make it. -/
theorem live_start_cases (i : InvokeId) : (s.start c i).live = s.live ∨
    ∃ p kind, (kind, p.invoker) ∈ s.invokers ∧ (s.start c i).live = Dict.insert i p s.live := by
  have hready := silent_readied (c := c) (s := s) i
  cases launched_start (c := c) (s := s) i with
  | unsourced ht | unmade _ ht => exact .inl ((congrArg Session.live ht).trans rfl)
  | begun hm _ ht => exact .inr ⟨_, _, Dict.mem_of_get? hm, by rw [ht, hready.live]⟩
  | refused _ _ ht => exact .inl ((congrArg Session.live ht).trans hready.live)

theorem live_tellProcess_cases (e : Event) (i : InvokeId) (p : Process) :
    (s.tellProcess c e (i, p)).live = s.live ∨
      (s.tellProcess c e (i, p)).live = Dict.erase i s.live := by
  cases informed_tellProcess (c := c) (s := s) e (i, p) with
  | completed _ ht =>
    have hrun := aside_run (c := c) (s := s) (some (c.invoke i).owner) (c.invoke i).finalize
    rw [ht]
    exact .inr (congrArg (Dict.erase i) hrun.live)
  | forwarded _ _ ht | refused _ _ ht | spared _ _ ht => exact .inl ((congrArg Session.live ht).trans rfl)

/-- Whether the processes that run are in the order of their declarations. -/
def InOrder (s : Session) : Prop := (Dict.keys s.live).Pairwise (· < ·)

namespace InOrder

theorem congr (h : s.InOrder) (hl : t.live = s.live) : t.InOrder := by
  rwa [InOrder, hl]

theorem erase (h : s.InOrder) (hl : t.live = Dict.erase i s.live) : t.InOrder := by
  rw [InOrder, hl]
  exact List.Pairwise.sublist (List.filter_sublist.map _) h

theorem insert (h : s.InOrder) (hl : t.live = Dict.insert i p s.live) : t.InOrder := by
  rw [InOrder, hl]
  exact Dict.pairwise_keys_insert (fun _ _ _ => Nat.lt_trans) (fun _ _ => Nat.lt_or_gt_of_ne) h

/-- A session that starts anew has no process. -/
theorem restart : ({ s.restart c with pending := [] } : Session).InOrder := by
  rw [InOrder, show ({ s.restart c with pending := [] } : Session).live = [] from
    live_restart (c := c)]
  exact .nil

theorem attends (h : s.InOrder) (hs : Attends c s t) : t.InOrder := by
  cases hs with
  | apart hl => exact h.congr hl
  | restart => exact restart
  | cancel i => exact h.erase (live_cancelProcess_eq i)
  | @start i =>
    obtain hl | ⟨p, kind, -, hl⟩ := live_start_cases (c := c) (s := s) i
    · exact h.congr hl
    · exact h.insert hl
  | tell e =>
    refine List.foldlRecOn (motive := InOrder) s.live (tellProcess c e) h fun u hu entry _ => ?_
    obtain hl | hl := live_tellProcess_cases (c := c) (s := u) e entry.1 entry.2
    · exact hu.congr hl
    · exact hu.erase hl

theorem distinct (h : s.InOrder) : (Dict.keys s.live).Nodup :=
  List.Pairwise.imp Nat.ne_of_lt h

end InOrder

/-! ### The makers of processes -/

theorem invokers_run (owner : Option NodeId) (as : List Action) :
    (s.run c owner as).invokers = s.invokers := by
  refine List.foldlRecOn (motive := fun t : Session => t.invokers = s.invokers) as _ rfl
    fun t ht a _ => ?_
  obtain ⟨store, queue, journal, ha⟩ := act_same (c := c) (s := t) owner a
  rw [ha]
  exact ht

theorem invokers_cancelProcess (i : InvokeId) : (s.cancelProcess i).invokers = s.invokers := by
  cases dismissed_cancelProcess (s := s) i with
  | absent _ ht | stopped _ _ ht | failed _ _ ht => exact (congrArg Session.invokers ht).trans rfl

theorem invokers_start (i : InvokeId) : (s.start c i).invokers = s.invokers := by
  have hready : (s.readied c i).invokers = s.invokers :=
    readied_induction (P := fun t => t.invokers = s.invokers) i rfl (fun _ _ h => h) (fun _ h => h)
      fun _ h => h
  cases launched_start (c := c) (s := s) i with
  | unsourced ht | unmade _ ht => exact (congrArg Session.invokers ht).trans rfl
  | begun _ _ ht | refused _ _ ht => exact (congrArg Session.invokers ht).trans hready

theorem invokers_tellProcess (e : Event) (entry : InvokeId × Process) :
    (s.tellProcess c e entry).invokers = s.invokers := by
  cases informed_tellProcess (c := c) (s := s) e entry with
  | completed _ ht =>
    rw [ht]
    exact invokers_run (c := c) (some (c.invoke entry.1).owner) (c.invoke entry.1).finalize
  | forwarded _ _ ht | refused _ _ ht | spared _ _ ht => exact (congrArg Session.invokers ht).trans rfl

theorem invokers_restart : (s.restart c).invokers = s.invokers :=
  List.foldlRecOn (motive := fun t : Session => t.invokers = s.invokers) (Dict.keys s.live) _ rfl
    fun _ ht i _ => (invokers_cancelProcess i).trans ht

/-- Whether all who make processes for a session are of a sort, and those who made the ones that run
    as well. -/
structure Crewed (P : Invoker → Prop) (s : Session) : Prop where
  makers : ∀ e ∈ s.invokers, P e.2
  processes : ∀ e ∈ s.live, P e.2.invoker

namespace Crewed

variable {P : Invoker → Prop}

theorem congr (h : s.Crewed P) (hm : t.invokers = s.invokers) (hl : t.live = s.live) : t.Crewed P :=
  ⟨hm ▸ h.makers, hl ▸ h.processes⟩

theorem erase (h : s.Crewed P) (hm : t.invokers = s.invokers) (hl : t.live = Dict.erase i s.live) :
    t.Crewed P :=
  ⟨hm ▸ h.makers, fun e he => h.processes e (List.mem_filter.1 (hl ▸ he)).1⟩

/-- Only who is there makes a process. -/
theorem insert (h : s.Crewed P) (hm : t.invokers = s.invokers) {kind : String}
    (hp : (kind, p.invoker) ∈ s.invokers) (hl : t.live = Dict.insert i p s.live) : t.Crewed P := by
  refine ⟨hm ▸ h.makers, fun e he => ?_⟩
  rw [hl] at he
  obtain rfl | he := Dict.mem_of_mem_insert he
  · exact h.makers _ hp
  · exact h.processes e he

theorem attends (h : s.Crewed P) (hs : Attends c s t) : t.Crewed P := by
  cases hs with
  | apart hl hm => exact h.congr hm hl
  | restart =>
    refine ⟨fun e he => h.makers e (invokers_restart (c := c) ▸ he), fun e he => ?_⟩
    rw [show ({ s.restart c with pending := [] } : Session).live = [] from live_restart (c := c)] at he
    cases he
  | cancel i => exact h.erase (invokers_cancelProcess i) (live_cancelProcess_eq i)
  | @start i =>
    obtain hl | ⟨p, kind, hp, hl⟩ := live_start_cases (c := c) (s := s) i
    · exact h.congr (invokers_start i) hl
    · exact h.insert (invokers_start i) hp hl
  | tell e =>
    refine List.foldlRecOn (motive := Crewed P) s.live (tellProcess c e) h fun u hu entry _ => ?_
    obtain hl | hl := live_tellProcess_cases (c := c) (s := u) e entry.1 entry.2
    · exact hu.congr (invokers_tellProcess e entry) hl
    · exact hu.erase (invokers_tellProcess e entry) hl

end Crewed

/-! ### Charts without processes -/

/-- Whether a session has no process, and what waits in its outbox. -/
structure Unattended (outbox : List (Sink × Event)) (s : Session) : Prop where
  live : s.live = []
  outbox : s.outbox = outbox

namespace Unattended

variable {outbox : List (Sink × Event)}

/-- On a chart that declares no process none comes into being. -/
theorem attends (hn : c.invokes.size = 0) (h : s.Unattended outbox) (hs : Attends c s t) :
    t.Unattended outbox := by
  cases hs with
  | apart hl _ ho => exact ⟨hl.trans h.live, ho.trans h.outbox⟩
  | restart =>
    have hcancel : ({ s with running := false } : Session).cancelAll = { s with running := false } := by
      rw [cancelAll, h.live]
      rfl
    refine ⟨live_restart (c := c), ?_⟩
    rw [restart, hcancel]
    exact h.outbox
  | cancel i =>
    have hnone : s.cancelProcess i = s := by
      rw [cancelProcess, h.live]
      rfl
    rwa [hnone]
  | start hi => exact absurd (hn ▸ hi) (Nat.not_lt_zero _)
  | tell e =>
    rw [tellProcesses, h.live]
    exact h

end Unattended
end Session

namespace Machine

open Session

variable {c : Chart} {m m' : Machine} {fuel : Nat} {error : Option MachineError}

/-- What every stir keeps, and taking over after it, the work that waits keeps. -/
theorem triggerEvents_keeps {P : Session → Prop} (hnext : ∀ {c s t inbox}, c.WellFormed → P s →
    Stirs c s t → P (absorb ⟨t, inbox⟩).session) (h : P m.session) (hm : Indexed m.session)
    (ht : m.triggerEvents fuel = some (m', error)) :
    P m'.session ∧ m'.session.chart = m.session.chart := by
  rcases triggerEvents_cases ht with rfl | ⟨c, hchart, hw⟩
  · exact ⟨h, rfl⟩
  · have next {fuel : Nat} {s t : Session} {e : Event} {inbox : EventQueue} (hi : Indexed s)
        (hchart : s.chart = some c) (hp : P s) (hs : s.nextStep c fuel e = some t) :
        P (absorb ⟨t, inbox⟩).session := by
      obtain ⟨-, -, hst⟩ := hi.nextStep hchart hs
      obtain ⟨name, version, d, hcompile⟩ := hi.compiles c hchart
      exact hnext (wellFormed_of_compile hcompile) hp hst
    obtain ⟨-, hchart', hp⟩ := hm.workOff_keeps next hchart h hw
    exact ⟨hp, hchart'.trans hchart.symm⟩

/-- Taking over what was delivered makes no difference to who makes processes. -/
theorem crewed_next {P : Invoker → Prop} {s t : Session} {inbox : List Event} (hc : c.WellFormed)
    (h : s.Crewed P) (hs : Stirs c s t) : (absorb ⟨t, inbox⟩).session.Crewed P :=
  (hs.keeps hc Crewed.attends h).congr (by rw [absorb_eq]) (by rw [absorb_eq])

/-- What can be said of a session between two requests: nothing that was delivered waits for its machine,
    and its processes are in order. -/
structure AtRest (s : Session) : Prop where
  delivered : Delivered s
  inOrder : s.InOrder

namespace AtRest

theorem absorb (h : m.session.InOrder) : AtRest m.absorb.session :=
  ⟨delivered_absorb m, h.congr (by rw [absorb_eq])⟩

/-- Another chart changes nothing, nor do others that a session works with. -/
theorem equip {s : Session} (h : AtRest s) (chart : Option Chart) (invokers : Dict String Invoker)
    (listeners : Listeners) (sink : Sink) : AtRest (s.equip chart invokers listeners sink s.outbox) :=
  ⟨h.delivered, h.inOrder⟩

/-- Starting anew, whatever was held before. -/
theorem of_reset (hchart : m.session.chart = some c) (hl : c.Compiles)
    (h : m.reset fuel = some (m', error)) : AtRest m'.session := by
  obtain ⟨name, version, d, hcompile⟩ := hl
  have hc := wellFormed_of_compile hcompile
  obtain ⟨s, hs, rfl⟩ := exists_of_reset hchart h
  have hst := (stirs_firstStep hc (closed_of_compile hcompile) hs).1
  exact absorb (m := ⟨s, []⟩) (hst.keeps hc InOrder.attends .restart)

theorem reset (h : AtRest m.session) (hm : Indexed m.session) (hr : m.reset fuel = some (m', error)) :
    AtRest m'.session := by
  cases hchart : m.session.chart with
  | some c => exact of_reset hchart (hm.compiles c hchart) hr
  | none =>
    rw [eq_of_reset hchart hr]
    exact absorb (m := ⟨m.session, []⟩) h.inOrder

/-- Each stir keeps the order, and then what was delivered is taken over. -/
theorem next {s t : Session} {inbox : List Event} (hc : c.WellFormed) (h : AtRest s)
    (hs : Stirs c s t) : AtRest (Machine.absorb ⟨t, inbox⟩).session :=
  absorb (m := ⟨t, inbox⟩) (hs.keeps hc InOrder.attends h.inOrder)

theorem triggerEvents (h : AtRest m.session) (hm : Indexed m.session)
    (ht : m.triggerEvents fuel = some (m', error)) :
    AtRest m'.session ∧ m'.session.chart = m.session.chart :=
  triggerEvents_keeps next h hm ht

/-- Once every process has been stopped the rest makes no difference. -/
theorem cleared (c : Chart) {s : Session} (hl : m.session.live = s.cancelAll.live) :
    AtRest m.absorb.session := by
  refine absorb ?_
  rw [InOrder, hl, live_cancelAll c s]
  exact .nil

theorem ask {op : Operation} (h : AtRest m.session) (hm : Indexed m.session)
    (hl : ∀ c, op = .setChart c → c.Compiles) (ha : m.ask fuel op = some m') : AtRest m'.session := by
  cases outcome_of_ask ha with
  | @setChart c error hr =>
    rcases setChart_cases hr with ⟨-, hr⟩ | ⟨-, rfl⟩
    · exact of_reset (m := ⟨{ m.session with chart := some c }, []⟩) rfl (hl c rfl) hr
    · exact h.equip _ _ _ _
  | reset hr => exact h.reset hm hr
  | work hn hr => exact (triggerEvents (hn ▸ h) (hn ▸ hm) hr).1
  | detach hr =>
    obtain ⟨c, -, rfl⟩ := exists_of_detach hr
    exact cleared (m := ⟨_, _⟩) c (s := m.session) rfl
  | attach hr =>
    obtain ⟨c, store, -, -, rfl⟩ := exists_of_attach hr
    exact cleared (m := ⟨_, _⟩) c (s := m.session) rfl
  | equip invokers listeners sink ho hr =>
    rw [hr]
    rcases ho with rfl | rfl
    · exact h.equip _ _ _ _
    · exact ⟨nofun, h.inOrder⟩

end AtRest

/-- Whatever was asked of a machine, between two requests it is at rest. -/
theorem Handled.atRest (h : Handled m) : AtRest m.session := by
  induction h with
  | new chart supply evaluator hl => exact ⟨nofun, .nil⟩
  | ask op hm hl ha ih => exact ih.ask hm.indexed hl ha

/-- A machine on a chart that declares no process has none. -/
theorem Handled.live_eq_nil (h : Handled m) (hchart : m.session.chart = some c)
    (hn : c.invokes.size = 0) : m.session.live = [] := by
  have hheld := (h.indexed.grounded c hchart).held
  refine List.eq_nil_iff_forall_not_mem.2 fun p hp => ?_
  have hlt := (hheld.live p.1 (List.mem_map_of_mem hp)).1
  exact absurd (hn ▸ hlt) (Nat.not_lt_zero _)

/-- A machine that was never started, whatever it works with. -/
theorem Handled.furnished (hl : c.Compiles) (supply : Supply) (invokers : Dict String Invoker)
    (listeners : Listeners) (sink : Sink) :
    Handled ⟨(Session.fresh (some c) supply).equip (some c) invokers listeners sink [], []⟩ := by
  have hnew : Handled (fresh (some c) supply) := by
    refine .new (some c) supply .standard ?_
    rintro _ ⟨⟩
    exact hl
  exact hnew.ask (.equip invokers listeners sink) nofun (show Machine.ask 0 _ _ = some _ from rfl)

end Machine
end Statechart
