import Statechart.Proofs.FinalAlone
import Statechart.Proofs.OperationTraces
import Statechart.Proofs.Restore

/-! Where deeds lead in the course of a run.

    What is known from the deeds of a session agrees with the session whenever it stands: the states
    that were entered and not left are the active ones, and processes belong to them. Every move keeps
    this, so all deeds from one rest to the next can be put one after the other. If the session stops on
    the way it stops in the step that enters a final state at the top, and leaves everything in the end;
    by an event it stops only if that was given from outside. -/

namespace Statechart

open Chart

namespace Session

variable {c : Chart} {r s₀ s t u : Session} {x₀ x y : Scene} {ds : List Deed} {e : Event}
  {event : Option Event} {ts : List TransitionId} {p q : Phase}

/-- Whether what is known from deeds agrees with a session that has not come to its end. -/
structure Poised (c : Chart) (x : Scene) (s : Session) : Prop extends Staffed c x s.pending where
  present : ∀ n, n ∈ x.present ↔ n ∈ s.store.active c
  idle : x.hand = none ∧ x.closing = false
  sane : s.store.Sane c
  ordered : s.store.leaves.Pairwise (· < ·)
  lt : ∀ l ∈ s.store.leaves, l < c.nodes.size
  mild : ∀ e ∈ s.queue, e.isCancel = false

namespace Poised

/-- Whoever is active is a state of the chart. -/
theorem active_lt (hc : c.WellFormed) (h : Poised c x s) : ∀ n ∈ s.store.active c, n < c.nodes.size := by
  intro n hn
  obtain ⟨l, hl, hw⟩ := mem_closure_iff_covers.1 hn
  exact Nat.lt_of_le_of_lt (hc.le_of_within hw) (h.lt l hl)

/-- Nothing that no one sees changes this. -/
theorem silent (h : Poised c x s) (hs : Silent s t) (hl : t.store.leaves = s.store.leaves)
    (hh : t.store.histories = s.store.histories) (hp : t.pending = s.pending) : Poised c x t where
  toStaffed := hp ▸ h.toStaffed
  present n := by rw [h.present, Store.active, Store.active, hl]
  idle := h.idle
  sane := h.sane.congr hl hh
  ordered := hl ▸ h.ordered
  lt := hl ▸ h.lt
  mild e he := (hs.aside.queue e he).elim (h.mild e) id

/-- Nor do deeds with processes. -/
theorem work {live hand} (h : Poised c x s) (hd : Shows c x s ds { x with live, hand } t)
    (hs : Staffed c { x with live, hand } t.pending) (hhand : hand = none)
    (hl : t.store.leaves = s.store.leaves) (hh : t.store.histories = s.store.histories) :
    Poised c { x with live, hand } t where
  toStaffed := hs
  present n := by rw [Store.active, hl]; exact h.present n
  idle := ⟨hhand, h.idle.2⟩
  sane := h.sane.congr hl hh
  ordered := hl ▸ h.ordered
  lt := hl ▸ h.lt
  mild := by
    obtain ⟨as, -, hd⟩ := hd
    exact fun e he => (hd.queue e he).elim (h.mild e) id

/-- Nor what others change. -/
theorem equip (h : Poised c x s) (chart : Option Chart) (invokers : Dict String Invoker)
    (listeners : Listeners) (sink : Sink) (outbox : List (Sink × Event)) :
    Poised c x (s.equip chart invokers listeners sink outbox) where
  toStaffed := h.toStaffed
  present := h.present
  idle := h.idle
  sane := h.sane.congr rfl rfl
  ordered := h.ordered
  lt := h.lt
  mild := h.mild

/-- Nothing waits to be started any more. -/
theorem settle (h : Poised c x s) : Poised c x { s with pending := [] } where
  distinct := h.distinct
  owner := h.owner
  started _ _ hm := by cases hm
  declared := h.declared
  waiting _ hm := by cases hm
  sorted := .nil
  present := h.present
  idle := h.idle
  sane := h.sane
  ordered := h.ordered
  lt := h.lt
  mild := h.mild

end Poised

/-! ### Steps -/

theorem pairwise_exitOf (store : Store) (ts : List TransitionId) :
    (Step.exitOf c store ts).Pairwise (· < ·) :=
  List.foldlRecOn (motive := fun s : NodeSet => s.Pairwise (· < ·)) ts _ .nil fun _ h _ _ =>
    NodeSet.pairwise_insertAll h

/-- Taking transitions that can be taken together. -/
theorem poised_microStep (hc : c.WellFormed) (hn : c.Numbered) (hx : x.live = s.live)
    (h : Poised c x s) (hr : s.running = true) (hch : Chosen c (s.store.active c) ts)
    (ht : s.microStep c event ts = some t) :
    ∃ step present live, Step.build c s.store event ts = some step ∧
      Shows c x s (Deed.ofStep c step) { x with present, live } t ∧
      Poised c { x with present, live } t ∧ (t.running = false → t.store.Finished c) := by
  obtain ⟨step, v, hb, hv, e, hexit, hcar, hmoved, hsane, hplan⟩ := microStep_spec hc event h.sane hch
  rw [ht] at hv
  cases hv
  obtain ⟨step', v, hb', hv, hexact⟩ : ∃ step v, Step.build c s.store event ts = some step ∧
      s.microStep c event ts = some v ∧ Exact c ts step s v := exact_of_chosen hc h.sane hch
  rw [hb] at hb'
  rw [ht] at hv
  cases hb'
  cases hv
  have hentry := EntryPlan.pairwise_ofTransitions hc hplan
  have hlt : ∀ n ∈ step.plan.entry, n < c.nodes.size := fun n hn => (hmoved.planned.complete n hn).lt
  have hleft : ∀ n ∈ step.exit, n ∈ s.store.active c := by
    intro n hn
    rw [hexit, Step.mem_exitOf] at hn
    obtain ⟨i, -, hn⟩ := hn
    exact (mem_exitSet.1 hn).1
  obtain ⟨present, live, hmem, hshows, hstaffed⟩ := shows_carryOut hc hn step hx h.idle.2
    h.toStaffed (NodeSet.nodup_of_pairwise (hexit ▸ pairwise_exitOf ..))
    (fun n hn => ⟨h.active_lt hc n (hleft n hn), (h.present n).2 (hleft n hn)⟩)
    (NodeSet.nodup_of_pairwise hentry)
    (fun n hn => ⟨hlt n hn, fun hp => hexact.fresh n hn ((h.present n).1 hp)⟩)
  rw [← e] at hshows hstaffed
  have hordered := hcar.sorted h.ordered
  refine ⟨step, present, live, hb, hshows, ?_, fun hr' => ?_⟩
  · refine ⟨hstaffed, fun n => ?_, h.idle, hsane, hordered, fun l hl => ?_, fun e he => ?_⟩
    · rw [hmem, hexact.active, h.present]
    · exact (hmoved.mem_iff.1 hl).elim (fun hl => h.lt l hl.1) fun hl => hlt l hl.1
    · obtain ⟨as, -, hdoes⟩ := hshows
      exact (hdoes.queue e he).elim (h.mild e) id
  · rw [hcar.running, hr, Bool.true_and, Bool.not_eq_false', List.any_eq_true] at hr'
    obtain ⟨f, hf, htop⟩ := hr'
    exact ⟨f, hmoved.finished hc h.sane.recalls hplan hordered htop hf, htop⟩

/-- A session that queued no event that stops it is not stopped by one. -/
theorem nextInternal_mild (hc : c.WellFormed) (hm : ∀ e ∈ s.queue, e.isCancel = false)
    (h : s.nextInternal c = (event, ts, t)) : t.running = s.running ∧ t.pending = s.pending := by
  cases choice_of_nextInternal h with
  | eventless hs | idle hs =>
    obtain ⟨-, -, n, hn⟩ := select_spec hc hs
    exact ⟨hn.running, hn.pending⟩
  | @stop e queue u hs hq he =>
    have he' := ((silent_of_select hs).aside.queue e (hq ▸ List.mem_cons_self)).elim (hm e) id
    cases he.symm.trans he'
  | next hs _ _ ht =>
    obtain ⟨-, -, n, hn⟩ := select_spec hc hs
    obtain ⟨-, -, m, hm⟩ := select_spec hc ht
    exact ⟨hm.running.trans hn.running, hm.pending.trans hn.pending⟩

/-! ### From one rest to the next -/

/-- How a session comes to rest: it still runs, or it stopped and left everything. -/
inductive Rested (c : Chart) (x₀ : Scene) (s₀ : Session) (cause : Session → Prop) (t : Session) :
    Prop where
  | running {ds : List Deed} {x : Scene} (h : Does c x₀ s₀ ds x t) (hp : Poised c x t)
      (hr : t.running = true) (hq : t.pending = [])
  | ended {ds : List Deed} {x : Scene} {u : Session} (h : Does c x₀ s₀ ds x u) (hp : Poised c x u)
      (hr : u.running = false) (hq : u.pending = []) (hcause : cause u) (ht : t = u.finalStep c)

/-- Whether a session that was at rest was stopped by a step that entered a final state at the top. -/
def StoppedBy (c : Chart) (r u : Session) : Prop :=
  u.store.Finished c ∧ ∃ v, Onward c .rest r .busy v ∧ v.running = false ∧ u = { v with pending := [] }

/-- What deeds have led to in each phase since a session was at rest. -/
def Led (c : Chart) (r : Session) (x₀ : Scene) (s₀ : Session) : Phase → Session → Prop
  | .rest, s => Rested c x₀ s₀ (StoppedBy c r) s
  | .busy, s => Onward c .rest r .busy s ∧ ∃ ds x, Does c x₀ s₀ ds x s ∧ Poised c x s ∧
      (s.running = false → s.store.Finished c)
  | .about event ts, s => Onward c .rest r (.about event ts) s ∧ ∃ ds x, Does c x₀ s₀ ds x s ∧
      Poised c x s ∧ s.running = true ∧ Chosen c (s.store.active c) ts

/-- What is selected next is all that changes by selecting it, and no one sees it. -/
theorem poised_nextInternal (hc : c.WellFormed) {event : Option Event} {ts : List TransitionId}
    {v : Session} {ds : List Deed} {x : Scene} (hd : Does c x₀ s₀ ds x s) (hp : Poised c x s)
    (h : s.nextInternal c = (event, ts, v)) :
    Does c x₀ s₀ ds x v ∧ Poised c x v ∧ v.running = s.running ∧ Selected c s v ts := by
  have hs : Silent s v := silent_nextInternal h
  have hsel := Selected.of_nextInternal hc h
  obtain ⟨hr, hpending⟩ := nextInternal_mild hc hp.mild h
  exact ⟨hd.silent hs, hp.silent hs hsel.leaves hsel.histories hpending, hr, hsel⟩

/-- Processes are started as deeds. -/
theorem poised_startPending (hn : c.Numbered) {v : Session} {ds : List Deed} {x : Scene}
    (hd : Does c x₀ s₀ ds x v) (hp : Poised c x v) :
    ∃ es y, Does c x₀ s₀ es y (v.startPending c) ∧ Poised c y (v.startPending c) := by
  obtain ⟨live, hstart, hs⟩ := shows_startPending hn hd.live hp.idle hp.toStaffed
  have hq := quiet_startPending (c := c) (s := v)
  have hp := hp.work hstart hs hp.idle.1 hq.leaves hq.histories
  obtain ⟨es, -, hdoes⟩ := hstart
  exact ⟨_, _, hd.trans hdoes, hp⟩

/-- Every move of a session that is under way adds to its deeds. -/
theorem going_led (hc : c.WellFormed) (hn : c.Numbered) : Going c (Led c r x₀ s₀) := by
  intro p q s t h hm hrest
  cases hm with
  | equip => exact absurd rfl hrest
  | go => exact absurd rfl hrest
  | stop => exact absurd rfl hrest
  | ignore => exact absurd rfl hrest
  | accept => exact absurd rfl hrest
  | take ht =>
    obtain ⟨hon, ds, x, hd, hp, hr, hch⟩ := h
    obtain ⟨step, present, live, -, ⟨es, -, hdoes⟩, hp', hfin⟩ :=
      poised_microStep hc hn hd.live hp hr hch ht
    exact ⟨hon.move (.take ht), _, _, (hd.trans hdoes).silent silent_publish,
      hp'.silent silent_publish rfl rfl rfl, hfin⟩
  | choose hr hnext =>
    obtain ⟨hon, ds, x, hd, hp, -⟩ := h
    obtain ⟨hd, hp, hr', hsel⟩ := poised_nextInternal hc hd hp hnext
    refine ⟨hon.move (.choose hr hnext), ds, x, hd, hp, hr'.trans hr, ?_⟩
    rw [Store.active, hsel.leaves]
    exact hsel.chosen
  | pause hr hnext hr' hq =>
    obtain ⟨hon, ds, x, hd, hp, -⟩ := h
    obtain ⟨hd, hp, -⟩ := poised_nextInternal hc hd hp hnext
    obtain ⟨es, y, hd, hp⟩ := poised_startPending hn hd hp
    refine ⟨hon.move (.pause hr hnext hr' hq), es, y, hd, hp, fun hstop => ?_⟩
    rw [quiet_startPending.running, hr'] at hstop
    cases hstop
  | settle hr hnext hr' hq =>
    obtain ⟨-, ds, x, hd, hp, -⟩ := h
    obtain ⟨hd, hp, -⟩ := poised_nextInternal hc hd hp hnext
    obtain ⟨es, y, hd, hp⟩ := poised_startPending hn hd hp
    exact .running (hd.silent (.of_eq rfl rfl rfl rfl rfl rfl rfl)) hp.settle
      (quiet_startPending.running.trans hr') rfl
  | cancel hr hnext hr' =>
    obtain ⟨-, ds, x, hd, hp, -⟩ := h
    obtain ⟨-, -, hrun, -⟩ := poised_nextInternal hc hd hp hnext
    rw [hr', hr] at hrun
    cases hrun
  | halt hr =>
    obtain ⟨hon, ds, x, hd, hp, hfin⟩ := h
    have hs : Silent s { s with pending := [] } := .of_eq rfl rfl rfl rfl rfl rfl rfl
    exact .ended (u := { s with pending := [] }) (hd.silent hs) hp.settle hr rfl
      ⟨hfin hr, s, hon, hr, rfl⟩ rfl

theorem live_cancelAll (c : Chart) (s : Session) : s.cancelAll.live = [] :=
  (shows_cancelAll (c := c) (x := ⟨[], s.live, none, false⟩) rfl).live.symm

theorem live_restart : (s.restart c).live = [] := live_cancelAll c { s with running := false }

theorem poised_restart : Poised c (.opening []) { s.restart c with pending := [] } where
  distinct := .nil
  owner _ h := by cases h
  started _ h := by cases h
  declared _ h := by cases h
  waiting _ h := by cases h
  sorted := .nil
  present _ := Iff.rfl
  idle := ⟨rfl, rfl⟩
  sane := (Store.settled_start rfl rfl).toSane
  ordered := .nil
  lt _ h := by cases h
  mild _ h := by cases h

/-- A start, told as deeds. -/
theorem rested_of_firstStep (hc : c.WellFormed) (hn : c.Numbered) {fuel : Nat}
    (h : s.firstStep c fuel = some t) :
    Rested c (.opening []) { s.restart c with pending := [] } (StoppedBy c s) t := by
  obtain ⟨v, hv, rfl⟩ := Option.map_eq_some_iff.1 h
  have hstart : Led c s (.opening []) { s.restart c with pending := [] } (.about none [c.initial])
      { s.restart c with pending := [] } :=
    ⟨Onward.start.move .go, [], .opening [], .refl (live_restart (c := c)).symm, poised_restart, rfl,
      (prepared_restart hc).chosen⟩
  have hgoing : Going c (Led c s (.opening []) { s.restart c with pending := [] }) := going_led hc hn
  exact hgoing.takeAndSettle hstart hv

/-- Working off an event, told as deeds. -/
theorem rested_of_nextStep (hc : c.WellFormed) (hn : c.Numbered) {fuel : Nat} (hx : x.live = s.live)
    (hp : Poised c x s) (hr : s.running = true) (hq : s.pending = [])
    (h : s.nextStep c fuel e = some t) :
    Rested c x s (fun u => e.isCancel = false ∧ StoppedBy c s u ∨
      e.isCancel = true ∧ u = { s with running := false }) t := by
  have answered : ∃ ds y, Does c x s ds y (s.answer c e) ∧ Poised c y (s.answer c e) := by
    obtain ⟨live, hanswer, hs⟩ := shows_answer (c := c) hx hp.idle.2 hp.toStaffed e
    have hquiet := quiet_answer (c := c) (s := s) e
    obtain ⟨ds, -, hdoes⟩ := hanswer
    exact ⟨ds, _, hdoes, hp.work ⟨ds, rfl, hdoes⟩ hs rfl hquiet.leaves hquiet.histories⟩
  obtain ⟨ds, y, hd, hpa⟩ := answered
  have selected {ts : List TransitionId} {v : Session}
      (hs : (s.answer c e).select c (some e.name) = (ts, v)) :
      Does c x s ds y v ∧ Poised c y v ∧ v.running = true ∧ v.pending = [] ∧
        Chosen c (v.store.active c) ts := by
    have hsil : Silent (s.answer c e) v := silent_of_select hs
    obtain ⟨hch, -, n, hsearch⟩ := select_spec hc hs
    have hw : Worked (s.present (.ofEvent e false)) (s.answer c e) := worked_tellProcesses e
    refine ⟨hd.silent hsil, hpa.silent hsil (by rw [hsearch.store]) (by rw [hsearch.store])
      hsearch.pending, hsearch.running.trans (hw.running.trans hr),
      hsearch.pending.trans (hw.pending.trans hq), ?_⟩
    rwa [hsearch.store]
  cases stepped_of_nextStep h with
  | idle hr' =>
    rw [hr] at hr'
    cases hr'
  | stopped _ he ht =>
    have hs : Silent s { s with running := false } := .of_eq rfl rfl rfl rfl rfl rfl rfl
    exact .ended ((Does.refl hx).silent hs) (hp.silent hs rfl rfl rfl) rfl hq (.inr ⟨he, rfl⟩) ht
  | ignored _ _ hs ht =>
    obtain ⟨hd, hp, hr, hq, -⟩ := selected hs
    rw [finalStep_of_running hr] at ht
    exact ht ▸ .running hd hp hr hq
  | taken _ he hs hv ht =>
    obtain ⟨hd, hp, hr', hq, hch⟩ := selected hs
    have hgoing : Going c (Led c s x s) := going_led hc hn
    have hled := hgoing.takeAndSettle ⟨Onward.start.move (.accept e hr he hs), ds, y,
      hd.silent (.of_eq rfl rfl rfl rfl rfl rfl rfl), hp.settle, hr', hch⟩ hv
    rw [← ht] at hled
    cases hled with
    | running hd hp hr hq => exact .running hd hp hr hq
    | ended hd hp hr hq hf ht => exact .ended hd hp hr hq (.inl ⟨he, hf⟩) ht

end Session
end Statechart
