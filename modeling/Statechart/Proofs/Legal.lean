import Statechart.Proofs.Run

/-! Legal configurations, and that runs keep to them.

    On every chart that loads, a step changes the active states as its exits and entries say, wherever a
    run has come to. If no history of a parallel state is a target beside others, the configuration is
    legal as long as the machine runs, and the machine stops in the step that enters a final state at the
    top, which then is alone. -/

namespace Statechart

open Chart Session

namespace Store

/-- What is expected of the active states of a running machine. -/
structure Legal (c : Chart) (s : Store) : Prop where
  leaf : ∀ l ∈ s.leaves, l < c.nodes.size ∧ (c.node l).isAtomic = true
  top : ∃ n ∈ c.children, n ∈ s.active c ∧ ∀ m ∈ c.children, m ∈ s.active c → m = n
  compound : ∀ n ∈ s.active c, (c.node n).isCompound = true →
    ∃ m ∈ (c.node n).children, m ∈ s.active c ∧ ∀ k ∈ (c.node n).children, k ∈ s.active c → k = m
  parallel : ∀ n ∈ s.active c, (c.node n).isParallel = true →
    ∀ m ∈ (c.node n).children, m ∈ s.active c
  unfinished : ∀ n ∈ s.active c, (c.node n).isTopLevelFinal = false

/-- Whether a final state at the top is all that is active. -/
def Finished (c : Chart) (s : Store) : Prop :=
  ∃ f, s.leaves = [f] ∧ (c.node f).isTopLevelFinal = true

/-- What is kept of the store of a running machine if steps enter no two rivals. -/
structure Lawful (c : Chart) (s : Store) : Prop extends Settled c s where
  active : s.leaves ≠ []

/-- What is kept of the store of a running machine. -/
structure Steady (c : Chart) (s : Store) : Prop extends Sane c s where
  unfinished : ∀ l ∈ s.leaves, (c.node l).isTopLevelFinal = false
  lawful : c.HistoriesAlone → s.Lawful c

variable {c : Chart} {s t : Store} {f n : NodeId}

theorem Lawful.congr (hl : t.leaves = s.leaves) (hh : t.histories = s.histories) (h : s.Lawful c) :
    t.Lawful c where
  toSettled := h.toSettled.congr hl hh
  active := hl ▸ h.active

theorem Steady.congr (hl : t.leaves = s.leaves) (hh : t.histories = s.histories) (h : s.Steady c) :
    t.Steady c where
  toSane := h.toSane.congr hl hh
  unfinished := hl ▸ h.unfinished
  lawful ha := (h.lawful ha).congr hl hh

end Store

variable {c : Chart} {A : NodeSet} {store : Store} {f m n : NodeId} (hc : c.WellFormed)

include hc

namespace Chart.WellFormed

omit hc in
/-- A final state is a leaf. -/
theorem atomic_of_topLevelFinal (h : (c.node f).isTopLevelFinal = true) :
    (c.node f).isAtomic = true ∧ (c.node f).parent = none := by
  rw [Node.isTopLevelFinal, Bool.and_eq_true, Option.isNone_iff_eq_none] at h
  refine ⟨?_, h.2⟩
  cases hk : (c.node f).kind <;> simp [Node.isFinal, Node.isAtomic, hk] at h ⊢

end Chart.WellFormed

namespace Store

/-- In a regular configuration whoever is at the top and active has everything active within it. -/
theorem within_of_top (h : store.Settled c) (hm : m ∈ store.active c) (hp : (c.node m).parent = none)
    (hn : n ∈ store.active c) : c.Within n m := by
  obtain ⟨r, hw, hr⟩ := hc.exists_top n
  have hrm : c.Rivals r m := ⟨hr.trans hp.symm, fun p hp => by rw [hr] at hp; cases hp⟩
  rwa [h.regular.tidy hrm ⟨n, hn, hw⟩ (.of_mem hm)] at hw

/-- A final state at the top that is active is alone. -/
theorem finished_of_mem (h : store.Settled c) (hf : f ∈ store.leaves)
    (htop : (c.node f).isTopLevelFinal = true) : store.Finished c := by
  obtain ⟨hatom, hp⟩ := WellFormed.atomic_of_topLevelFinal htop
  have hall : ∀ l ∈ store.leaves, l = f := fun l hl => by
    have hl' := mem_closure_of_mem (c := c) hl
    exact hc.eq_of_within_atomic (within_of_top hc h (mem_closure_of_mem hf) hp hl') hatom
      (h.regular.complete l hl').state
  exact ⟨f, NodeSet.eq_singleton (NodeSet.nodup_of_pairwise h.sorted) hf hall, htop⟩

/-- What is kept is what is expected. -/
theorem Steady.legal (hs : store.Steady c) (ha : c.HistoriesAlone) : store.Legal c := by
  have h := hs.lawful ha
  have htidy : c.Tidy (store.active c) := h.regular.tidy
  have covered {k : NodeId} (hk : c.Covers (store.active c) k) : k ∈ store.active c := by
    obtain ⟨x, hx, hw⟩ := hk
    exact hc.mem_closure_up hx hw
  refine ⟨fun l hl => ⟨(h.regular.complete l (mem_closure_of_mem hl)).lt, h.leaf l hl⟩, ?_,
    ?_, fun n hn hpar m hm => covered ((h.regular.complete n hn).parallel hpar m hm),
    ?_⟩
  · obtain ⟨l, ls, e⟩ := List.exists_cons_of_ne_nil h.active
    have hl : l ∈ store.active c := mem_closure_of_mem (by simp [e])
    obtain ⟨r, hw, hr⟩ := hc.exists_top l
    have hrA := hc.mem_closure_up hl hw
    refine ⟨r, hc.mem_top.2 ⟨(h.regular.complete r hrA).lt, hr⟩, hrA, ?_⟩
    intro m hm hmA
    have hp := (hc.mem_top.1 hm).2
    exact hc.eq_of_within (hp.trans hr.symm) (.refl m) (within_of_top hc h.toSettled hrA hr hmA)
  · intro n hn hcomp
    obtain ⟨m, hm, hcov⟩ := (h.regular.complete n hn).compound hcomp
    refine ⟨m, hm, covered hcov, ?_⟩
    intro k hk hkA
    have hmp := (hc.mem_children.1 hm).1
    have hkp := (hc.mem_children.1 hk).1
    refine htidy ⟨hkp.trans hmp.symm, ?_⟩ (.of_mem hkA) hcov
    intro p hp
    rw [hkp] at hp
    cases hp
    exact hcomp
  · intro n hn
    refine Bool.eq_false_iff.2 ?_
    intro htop
    obtain ⟨hatom, hp⟩ := WellFormed.atomic_of_topLevelFinal htop
    obtain ⟨l, hl, hw⟩ := mem_closure_iff_covers.1 hn
    have hl' := mem_closure_of_mem (c := c) hl
    rw [← hc.eq_of_within_atomic hw hatom (h.regular.complete l hl').state, hs.unfinished l hl] at htop
    cases htop

end Store

namespace Session

variable {s₀ s t : Session} {event : Option Event} {ts : List TransitionId} {p q : Phase}

omit hc in
/-- What a step did to the configuration: what it leaves is no longer active and what it enters is. -/
structure Exact (c : Chart) (ts : List TransitionId) (step : Step) (s t : Session) : Prop where
  active : ∀ n, n ∈ t.store.active c ↔
    n ∈ s.store.active c ∧ n ∉ step.exit ∨ n ∈ step.plan.entry
  leaves : ∀ l, l ∈ t.store.leaves ↔
    l ∈ s.store.leaves ∧ l ∉ step.exit ∨ l ∈ step.plan.entry ∧ (c.node l).isAtomic = true
  fresh : ∀ n ∈ step.plan.entry, n ∈ s.store.active c → n ∈ step.exit
  target : ∀ i ∈ ts, ∀ x ∈ (c.transition i).targets, (c.node x).isHistory = false →
    x ∈ t.store.active c

/-- What holds of a session that is about to take transitions. -/
structure Prepared (c : Chart) (ts : List TransitionId) (s : Session) : Prop where
  running : s.running = true
  sane : s.store.Sane c
  chosen : Chosen c (s.store.active c) ts
  unfinished : ∀ l ∈ s.store.leaves, (c.node l).isTopLevelFinal = false
  settled : c.HistoriesAlone → s.store.Settled c ∧ (s.store.leaves ≠ [] ∨ ts = [c.initial])

/-- What holds of a session in each phase. -/
def Holds (c : Chart) : Phase → Session → Prop
  | .rest, s => s.running = true → s.store.Steady c
  | .busy, s => (s.running = true → s.store.Steady c) ∧
      (s.running = false → c.HistoriesAlone → s.store.Finished c)
  | .about _ ts, s => Prepared c ts s

/-- A step that can be taken is taken, and changes the configuration as it should. -/
theorem exact_of_chosen (hs : s.store.Sane c) (hch : Chosen c (s.store.active c) ts) :
    ∃ step t, Step.build c s.store event ts = some step ∧ s.microStep c event ts = some t ∧
      Exact c ts step s t := by
  obtain ⟨step, t, hb, hm, -, hexit, hcar, hmoved, -, -⟩ := microStep_spec hc event hs hch
  refine ⟨step, t, hb, hm, ?_⟩
  have mem_exit {n : NodeId} (hn : n ∈ s.store.active c) :
      n ∈ step.exit ↔ ∃ t ∈ ts, c.Leads t n := by
    rw [hexit, Step.mem_exitOf]
    simp [mem_exitSet, hn]
  refine ⟨fun n => (hmoved.mem_closure_iff hc).trans (or_congr_left (and_congr_right ?_)),
    hcar.leaves, fun n hn hnA => (mem_exit hnA).2 (hmoved.planned.led n hn),
    fun i hi x hx hxs => (hmoved.mem_closure_iff hc).2 (.inr (hmoved.planned.target i hi x hx hxs))⟩
  intro hn
  rw [mem_exit hn]
  simp

/-- Taking transitions: the machine goes on with a steady store, or stops with a final state. -/
theorem Prepared.taken (event : Option Event) (h : Prepared c ts s) :
    ∃ t, s.microStep c event ts = some t ∧ Holds c .busy t := by
  obtain ⟨step, t, -, hm, -, -, hcar, hmoved, hsane, hplan⟩ :=
    microStep_spec hc event h.sane h.chosen
  have hrun := hcar.running
  rw [h.running, Bool.true_and] at hrun
  refine ⟨t, hm, fun hr => ⟨hsane, ?_, fun ha => ⟨?_, ?_⟩⟩, ?_⟩
  · intro l hl
    have hnone : ∀ n ∈ step.plan.entry, (c.node n).isTopLevelFinal = false := by
      simpa using hrun.symm.trans hr
    rcases hmoved.mem_iff.1 hl with ⟨hl, -⟩ | ⟨hl, -⟩
    · exact h.unfinished l hl
    · exact hnone l hl
  · exact settled_of_carried hc ha (h.settled ha).1 h.chosen hmoved hplan hcar
  · have hentered {n : NodeId} (hn : n ∈ step.plan.entry) : t.store.leaves ≠ [] := by
      obtain ⟨l, hl, hla, -⟩ := hc.exists_leaf_within hmoved.planned.complete hn
      exact List.ne_nil_of_mem (hmoved.mem_iff.2 (.inr ⟨hl, hla⟩))
    rcases (h.settled ha).2 with hne | rfl
    · -- a leaf that goes gives way to what its transition leads to
      obtain ⟨l, ls, e⟩ := List.exists_cons_of_ne_nil hne
      by_cases hleft : ∃ t ∈ ts, c.Leads t l
      · obtain ⟨i, hi, hlead⟩ := hleft
        obtain ⟨y, hy, -⟩ := hmoved.planned.reached i hi hlead.1
        exact hentered hy
      · have hl : l ∈ t.store.leaves :=
          hmoved.mem_iff.2 (.inl ⟨by simp [e], fun i hi hlead => hleft ⟨i, hi, hlead⟩⟩)
        exact List.ne_nil_of_mem hl
    · obtain ⟨y, hy, -⟩ := hmoved.planned.reached c.initial (by simp) hc.start.2.1
      exact hentered hy
  · intro hr ha
    have hany : ∃ f ∈ step.plan.entry, (c.node f).isTopLevelFinal = true := by
      simpa using hrun.symm.trans hr
    obtain ⟨f, hf, htop⟩ := hany
    have hatom := (WellFormed.atomic_of_topLevelFinal htop).1
    have hset := settled_of_carried hc ha (h.settled ha).1 h.chosen hmoved hplan hcar
    exact Store.finished_of_mem hc hset (hmoved.mem_iff.2 (.inr ⟨hf, hatom⟩)) htop

omit hc in
theorem Selected.prepared (h : Selected c s t ts) (hs : s.store.Steady c) (hr : s.running = true)
    (hne : ts ≠ []) : Prepared c ts t where
  running := (h.running hne).trans hr
  sane := hs.toSane.congr h.leaves h.histories
  chosen := by
    rw [Store.active, h.leaves]
    exact h.chosen
  unfinished := h.leaves ▸ hs.unfinished
  settled ha := by
    have hl := (hs.lawful ha).congr h.leaves h.histories
    exact ⟨hl.toSettled, .inl hl.active⟩

/-- A session that starts is about to take the chart's own transition. -/
theorem prepared_restart : Prepared c [c.initial] { s.restart c with pending := [] } := by
  have hset : (s.restart c).store.Settled c := Store.settled_start rfl rfl
  refine ⟨rfl, hset.toSane, ⟨?_, List.pairwise_singleton _ _, ?_⟩,
    ?_, fun _ => ⟨hset, .inr rfl⟩⟩
  · intro t ht n hn
    rw [List.mem_singleton.1 ht, hc.start.1] at hn
    cases hn
  · intro t ht _
    rw [List.mem_singleton.1 ht]
  · intro l hl
    cases hl

/-- Every move keeps what holds in each phase. -/
theorem holds_move (h : Holds c p s) (hm : Move c p s q t) : Holds c q t := by
  cases hm with
  | equip => exact h
  | go => exact prepared_restart hc
  | stop e hr he =>
    intro hr'
    rw [finalStep_spec.2] at hr'
    cases hr'
  | @ignore s s' e hr he hsel =>
    intro hr'
    rw [finalStep_spec.2] at hr'
    have hs := (Selected.of_select hc hsel).after_quiet (quiet_answer e)
    rw [finalStep_of_running hr']
    exact (h hr).congr hs.leaves hs.histories
  | accept e hr he hsel =>
    have hs := (Selected.of_select hc hsel).after_quiet (quiet_answer e)
    have hp := hs.prepared (h hr) hr (by simp)
    exact ⟨hp.running, hp.sane, hp.chosen, hp.unfinished, hp.settled⟩
  | @take s s' event ts hm =>
    obtain ⟨t, ht, hrun, hstop⟩ := Prepared.taken hc event h
    rw [hm] at ht
    cases ht
    have hq := quiet_publish (c := c) (s := s')
    exact ⟨fun hr => (hrun hr).congr hq.leaves hq.histories, hstop⟩
  | choose hr hn => exact (Selected.of_nextInternal hc hn).prepared (h.1 hr) hr (by simp)
  | @pause s s' event hr hn hr' hq =>
    have hs := Selected.of_nextInternal hc hn
    have hq := quiet_startPending (c := c) (s := s')
    refine ⟨fun _ => (h.1 hr).congr (hq.leaves.trans hs.leaves) (hq.histories.trans hs.histories),
      ?_⟩
    intro hr''
    rw [hq.running, hr'] at hr''
    cases hr''
  | @settle s s' event hr hn hr' hq =>
    have hs := Selected.of_nextInternal hc hn
    have hq := quiet_startPending (c := c) (s := s')
    exact fun _ => (h.1 hr).congr (hq.leaves.trans hs.leaves) (hq.histories.trans hs.histories)
  | cancel hr hn hr' =>
    intro hr''
    rw [finalStep_spec.2] at hr''
    exact absurd (hr'.symm.trans hr'') (by decide)
  | halt hr =>
    intro hr'
    rw [finalStep_spec.2] at hr'
    exact absurd (hr.symm.trans hr') (by decide)

theorem holds_of_reaches (h : Reaches c s₀ p s) : Holds c p s := by
  induction h with
  | go => exact prepared_restart hc
  | move _ hm ih => exact holds_move hc ih hm

omit hc in
/-- Starting anew writes nothing unsound. -/
theorem restart_journal :
    Continues Entry.Sound s.journal.toList (s.restart c).journal.toList := by
  have h : Quiet { s with running := false } ({ s with running := false } : Session).cancelAll :=
    (worked_cancelProcesses _).quiet
  exact h.journal

/-- No move reports a wrong configuration. -/
theorem continues_move (h : Holds c p s) (hm : Move c p s q t) :
    Continues Entry.Sound s.journal.toList t.journal.toList := by
  -- a selection reports nothing unsound as long as no final state at the top is active
  have sound {s u : Session} {ts : List TransitionId} (hs : Selected c s u ts)
      (h : s.store.Steady c) : Continues Entry.Sound s.journal.toList u.journal.toList :=
    hs.journal.imp fun _ he => he h.unfinished
  cases hm with
  | equip => exact .refl _
  | go => exact restart_journal (c := c)
  | stop e hr he => exact finalStep_spec.1.journal
  | ignore e hr he hsel =>
    have hs := (Selected.of_select hc hsel).after_quiet (quiet_answer e)
    exact (sound hs (h hr)).trans finalStep_spec.1.journal
  | accept e hr he hsel =>
    have hj := sound ((Selected.of_select hc hsel).after_quiet (quiet_answer e)) (h hr)
    exact hj
  | @take s s' event ts hm =>
    obtain ⟨step, t, -, ht, -, -, hcar, -⟩ := microStep_spec hc event h.sane h.chosen
    rw [hm] at ht
    cases ht
    exact hcar.follows.journal
  | choose hr hn => exact sound (Selected.of_nextInternal hc hn) (h.1 hr)
  | pause hr hn hr' hq =>
    exact (sound (Selected.of_nextInternal hc hn) (h.1 hr)).trans quiet_startPending.journal
  | settle hr hn hr' hq =>
    exact (sound (Selected.of_nextInternal hc hn) (h.1 hr)).trans quiet_startPending.journal
  | cancel hr hn hr' =>
    exact (sound (Selected.of_nextInternal hc hn) (h.1 hr)).trans finalStep_spec.1.journal
  | halt hr => exact finalStep_spec.1.journal

/-- A run keeps its evaluator. -/
theorem evaluator_of_reaches (h : Reaches c s₀ p s) : s.evaluator = s₀.evaluator := by
  have restart (s : Session) : (s.restart c).evaluator = s.evaluator :=
    (worked_cancelProcesses (s := { s with running := false }) _).evaluator
  induction h with
  | go => exact restart s₀
  | @move p q s t h hm ih =>
    refine Eq.trans ?_ ih
    cases hm with
    | equip => rfl
    | go => exact restart s
    | stop => exact finalStep_spec.1.evaluator
    | ignore e hr he hsel =>
      have hs := (Selected.of_select hc hsel).after_quiet (quiet_answer e)
      exact finalStep_spec.1.evaluator.trans hs.evaluator
    | accept e hr he hsel =>
      have hs := (Selected.of_select hc hsel).after_quiet (quiet_answer e)
      exact hs.evaluator
    | @take s s' event ts hm =>
      have hp : Prepared c ts s := holds_of_reaches hc h
      obtain ⟨step, t, -, ht, -, -, hcar, -⟩ := microStep_spec hc event hp.sane hp.chosen
      rw [hm] at ht
      cases ht
      exact hcar.follows.evaluator
    | choose hr hn => exact (Selected.of_nextInternal hc hn).evaluator
    | pause hr hn hr' hq =>
      exact quiet_startPending.evaluator.trans (Selected.of_nextInternal hc hn).evaluator
    | settle hr hn hr' hq =>
      exact quiet_startPending.evaluator.trans (Selected.of_nextInternal hc hn).evaluator
    | cancel hr hn hr' =>
      exact finalStep_spec.1.evaluator.trans (Selected.of_nextInternal hc hn).evaluator
    | halt hr => exact finalStep_spec.1.evaluator

theorem continues_of_reaches (h : Reaches c s₀ p s) :
    Continues Entry.Sound s₀.journal.toList s.journal.toList := by
  induction h with
  | go => exact restart_journal (c := c)
  | move h hm ih => exact ih.trans (continues_move hc (holds_of_reaches hc h) hm)

omit hc

/-! ### What a run can rely on -/

/-- A lamp with a bulb and a fan. Switched on again, both are as they were. -/
def lamp : Value :=
  .object [("states", .array [
    .object [("id", .string "Off"), ("transitions", .array [
      .object [("event", .string "push"), ("target", .string "Last")]])],
    .object [
      ("history", .array [.object [
        ("id", .string "Last"), ("target", .string "Dim Slow"), ("type", .string "deep")]]),
      ("id", .string "On"), ("kind", .string "parallel"),
      ("states", .array [
        .object [("id", .string "Bulb"), ("states", .array [
          .object [("id", .string "Dim"), ("transitions", .array [
            .object [("event", .string "turn"), ("target", .string "Bright")]])],
          .object [("id", .string "Bright")]])],
        .object [("id", .string "Fan"), ("states", .array [
          .object [("id", .string "Slow")], .object [("id", .string "Fast")]])]]),
      ("transitions", .array [
        .object [("event", .string "push"), ("target", .string "Off")]])]])]

/-- The chart of the lamp. -/
def lampChart : Chart := (Chart.load "lamp" 1 lamp).toOption.get (by decide +kernel)

theorem load_lamp : Chart.load "lamp" 1 lamp = .ok lampChart := load_eq_ok _

/-- The lamp before it is started. -/
def newLamp : Session := .fresh (some lampChart) (.ofSeed 0 0)

/-- The lamp, switched on, turned bright, switched off and on again. -/
def brightLamp : Session :=
  (newLamp.play lampChart 10 (["push", "turn", "push", "push"].map .signal)).get (by decide +kernel)

theorem run_brightLamp : Run lampChart newLamp brightLamp :=
  Run.of_play (Option.some_get _).symm

/-- Wherever a run has come to, a step on selected transitions, or on the chart's own at the start, changes
    the configuration exactly as its exits and entries say. -/
theorem exact_of_reaches {name : String} {version : Nat} {v : Value}
    (hl : Chart.load name version v = .ok c) (s₀ : Session) :
    (∀ event ts s, Reaches c s₀ (.about event ts) s →
      ∃ step t, Step.build c s.store event ts = some step ∧ s.microStep c event ts = some t ∧
        Exact c ts step s t) ∧
    ∀ p s name ts s' event, Reaches c s₀ p s → s.running = true → s.select c name = (ts, s') →
      ∃ step t, Step.build c s'.store event ts = some step ∧ s'.microStep c event ts = some t ∧
        Exact c ts step s' t := by
  have hc := wellFormed_of_load hl
  refine ⟨?_, ?_⟩
  · intro event ts s h
    have hp : Prepared c ts s := holds_of_reaches hc h
    exact exact_of_chosen hc hp.sane hp.chosen
  · intro p s name ts s' event h hr hsel
    have hsane : s.store.Sane c := by
      have hp := holds_of_reaches hc h
      cases p with
      | rest => exact (hp hr).toSane
      | busy => exact (hp.1 hr).toSane
      | about event ts => exact hp.sane
    have hs := Selected.of_select hc hsel
    refine exact_of_chosen hc (hsane.congr hs.leaves hs.histories) ?_
    rw [Store.active, hs.leaves]
    exact hs.chosen

/-- Switching the bright lamp off leaves and enters what the step says. -/
theorem exact_brightLamp :
    let off := brightLamp.select lampChart (some "push")
    off.1 ≠ [] ∧ ∃ step t, Step.build lampChart off.2.store none off.1 = some step ∧
      off.2.microStep lampChart none off.1 = some t ∧ Exact lampChart off.1 step off.2 t :=
  ⟨by decide +kernel, (exact_of_reaches load_lamp newLamp).2 .rest brightLamp (some "push") _ _
    none run_brightLamp.reaches (by decide +kernel) rfl⟩

/-- If histories of parallel states stand alone as targets, a running machine is in a legal configuration
    whenever it comes to rest and after every step on the way, unless the step enters a final state at
    the top and stops it; and never is a configuration reported to be wrong. -/
theorem legal_of_run {name : String} {version : Nat} {v : Value}
    (hl : Chart.load name version v = .ok c) (ha : c.HistoriesAlone) (s₀ : Session) :
    (∀ s, Run c s₀ s → s.running = true → s.store.Legal c) ∧
    (∀ event ts s, Reaches c s₀ (.about event ts) s → ∃ t, s.microStep c event ts = some t ∧
      (t.running = true ∧ t.store.Legal c ∨ t.running = false ∧ t.store.Finished c)) ∧
    ∀ p s, Reaches c s₀ p s → Continues Entry.Sound s₀.journal.toList s.journal.toList := by
  have hc := wellFormed_of_load hl
  refine ⟨?_, ?_, fun p s h => continues_of_reaches hc h⟩
  · intro s h hr
    have hs : s.store.Steady c := holds_of_reaches hc h.reaches hr
    exact hs.legal hc ha
  · intro event ts s h
    have hp : Prepared c ts s := holds_of_reaches hc h
    obtain ⟨t, ht, hrun, hstop⟩ := Prepared.taken hc event hp
    refine ⟨t, ht, ?_⟩
    cases hr : t.running with
    | true => exact .inl ⟨rfl, (hrun hr).legal hc ha⟩
    | false => exact .inr ⟨rfl, hstop hr ha⟩

theorem legal_brightLamp : brightLamp.running = true ∧ brightLamp.store.leaves.length = 2 ∧
    brightLamp.store.Legal lampChart := by
  have hr : brightLamp.running = true := by decide +kernel
  have ha : lampChart.HistoriesAlone := by decide +kernel
  exact ⟨hr, by decide +kernel, (legal_of_run load_lamp ha newLamp).1 _ run_brightLamp hr⟩

end Session
end Statechart
