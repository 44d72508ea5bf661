import Statechart.Proofs.Microstep

/-! What every step keeps.

    Of any chart: active leaves are leaves, and histories recorded states below their own; this is all
    that a step needs to have a plan and to change the active states as it should. Besides, every active
    state has its share of active children. Of a chart that does not mix histories of parallel states
    with other targets: active states are a regular configuration, and what a history recorded can be
    active together. -/

namespace Statechart

open Chart Session

namespace Store

/-- What holds of the store of a running machine on any chart. -/
structure Sane (c : Chart) (s : Store) : Prop where
  leaf : ∀ l ∈ s.leaves, (c.node l).isAtomic = true
  recalls : s.Recalls c

/-- What holds of the store of any session that was started, running or not: below every active state
    there is a leaf for each of its regions. -/
structure Whole (c : Chart) (s : Store) : Prop extends Sane c s where
  sorted : s.leaves.Pairwise (· < ·)
  complete : ∀ n ∈ s.active c, c.Complete (s.active c) n

/-- What holds of the store of a running machine if steps enter no two rivals. -/
structure Settled (c : Chart) (s : Store) : Prop extends Sane c s where
  sorted : s.leaves.Pairwise (· < ·)
  regular : Regular c (s.active c)
  agrees : ∀ h, s.Agrees c h

variable {c : Chart} {s t : Store}

theorem Sane.congr (hl : t.leaves = s.leaves) (hh : t.histories = s.histories) (h : s.Sane c) :
    t.Sane c where
  leaf := hl ▸ h.leaf
  recalls k R hR := h.recalls k R (by rwa [recorded?, hh] at hR)

theorem Whole.congr (hl : t.leaves = s.leaves) (hh : t.histories = s.histories) (h : s.Whole c) :
    t.Whole c where
  toSane := h.toSane.congr hl hh
  sorted := hl ▸ h.sorted
  complete := by
    rw [active, hl]
    exact h.complete

theorem Settled.whole (h : s.Settled c) : s.Whole c where
  toSane := h.toSane
  sorted := h.sorted
  complete := h.regular.complete

theorem Settled.congr (hl : t.leaves = s.leaves) (hh : t.histories = s.histories) (h : s.Settled c) :
    t.Settled c where
  toSane := h.toSane.congr hl hh
  sorted := hl ▸ h.sorted
  regular := by
    rw [active, hl]
    exact h.regular
  agrees k R hR := h.agrees k R (by rwa [recorded?, hh] at hR)

/-- Nothing is active and nothing recorded when a machine starts. -/
theorem settled_start (hl : s.leaves = []) (hh : s.histories = []) : s.Settled c where
  leaf l h := by simp [hl] at h
  recalls k R h := by simp [recorded?, hh] at h
  sorted := by simp [hl]
  regular := by
    rw [active, hl]
    exact .nil c
  agrees k R h := by simp [recorded?, hh] at h

end Store

variable {c : Chart} {store : Store} {s t : Session} {h n x : NodeId} {R : NodeSet} {step : Step}
  {event : Option Event} {ts : List TransitionId} (hc : c.WellFormed)

include hc

/-! ### Records -/

/-- A history records states below its own. -/
theorem recordOf_below (hl : ∀ l ∈ store.leaves, (c.node l).isAtomic = true) {kind : HistoryKind}
    (hx : x ∈ recordOf c store n kind) : (c.node x).isHistory = false ∧ c.descends x n = true := by
  cases kind with
  | shallow =>
    rw [recordOf, NodeSet.mem_ofList, List.mem_filter] at hx
    obtain ⟨hp, hs⟩ := hc.mem_children.1 hx.1
    exact ⟨hs, hc.descends_parent hp⟩
  | deep =>
    obtain ⟨hx, hd⟩ := List.mem_filter.1 hx
    exact ⟨WellFormed.not_history_of_atomic (hl x hx), hd⟩

/-- Of the states that a history records none lies below another. -/
theorem incomparable_recordOf (hs : store.Whole c) {kind : HistoryKind} :
    (recordOf c store n kind).Pairwise fun x y => ¬c.Within x y ∧ ¬c.Within y x := by
  cases kind with
  | shallow =>
    refine (NodeSet.pairwise_ofList _).imp_of_mem fun {x y} hx hy hlt => ?_
    rw [recordOf, NodeSet.mem_ofList, List.mem_filter, hc.mem_children] at hx hy
    have hpar := hx.1.1.trans hy.1.1.symm
    exact ⟨fun hw => Nat.ne_of_lt hlt (hc.eq_of_within hpar (.refl x) hw),
      fun hw => Nat.ne_of_lt hlt (hc.eq_of_within hpar hw (.refl y))⟩
  | deep =>
    refine (hs.sorted.filter _).imp_of_mem fun {x y} hx hy hlt => ?_
    have hx := (List.mem_filter.1 hx).1
    have hy := (List.mem_filter.1 hy).1
    have state {l : NodeId} (h : l ∈ store.leaves) : (c.node l).isHistory = false :=
      (hs.complete l (mem_closure_of_mem h)).state
    exact ⟨fun hw => Nat.ne_of_lt hlt (hc.eq_of_within_atomic hw (hs.leaf y hy) (state hx)),
      fun hw => Nat.ne_of_gt hlt (hc.eq_of_within_atomic hw (hs.leaf x hx) (state hy))⟩

omit hc in
/-- A history records what is active. -/
theorem mem_active_of_recordOf {kind : HistoryKind} (hx : x ∈ recordOf c store n kind) :
    x ∈ store.active c := by
  cases kind with
  | shallow =>
    rw [recordOf, NodeSet.mem_ofList, List.mem_filter] at hx
    simpa using hx.2
  | deep => exact mem_closure_of_mem (List.mem_filter.1 hx).1

/-- What a history records of a regular configuration can be active together. -/
theorem pairwise_recordOf (hs : store.Settled c) {kind : HistoryKind} :
    (recordOf c store n kind).Pairwise c.Apart := by
  refine (incomparable_recordOf hc hs.whole).imp_of_mem fun {x y} hx hy hxy => ?_
  have htidy : c.Tidy (store.active c) := hs.regular.tidy
  exact htidy.apart (mem_active_of_recordOf hx) (mem_active_of_recordOf hy) hxy.1 hxy.2

/-- Whatever a history records lies below the state whose history it is. -/
theorem below_of_recorded (hl : ∀ l ∈ store.leaves, (c.node l).isAtomic = true)
    (hR : Recorded c store h R) (hx : x ∈ R) :
    (c.node x).isHistory = false ∧ ∀ p, (c.node h).parent = some p → c.descends x p = true := by
  obtain ⟨n, kind, hn, -, rfl⟩ := hR
  obtain ⟨hxs, hxn⟩ := recordOf_below hc hl hx
  refine ⟨hxs, fun p hp => ?_⟩
  rw [(hc.mem_histories.1 hn).1] at hp
  cases hp
  exact hxn

theorem recalls_after (hs : store.Sane c) {store' : Store} (hr : ∀ h R,
    store'.recorded? h = some R → store.recorded? h = some R ∨ Recorded c store h R) :
    store'.Recalls c := by
  intro h R hR x hx
  rcases hr h R hR with hR | hR
  · exact hs.recalls h R hR x hx
  · exact below_of_recorded hc hs.leaf hR hx

theorem agrees_after (hs : store.Settled c) {store' : Store} (hr : ∀ h R,
    store'.recorded? h = some R → store.recorded? h = some R ∨ Recorded c store h R) :
    ∀ h, store'.Agrees c h := by
  intro h R hR
  rcases hr h R hR with hR | ⟨n, kind, -, -, rfl⟩
  · exact hs.agrees h R hR
  · exact pairwise_recordOf hc hs

/-! ### Steps -/

/-- Transitions that can be taken together make a step, and it changes the configuration as it
    should. -/
theorem microStep_spec (event : Option Event) (hs : s.store.Sane c)
    (hch : Chosen c (s.store.active c) ts) :
    ∃ step t, Step.build c s.store event ts = some step ∧ s.microStep c event ts = some t ∧
      t = s.carryOut c step ∧ step.exit = Step.exitOf c s.store ts ∧ Carried c step s t ∧
      Moved c s.store.leaves t.store.leaves ts step.plan ∧ t.store.Sane c ∧
      EntryPlan.ofTransitions c s.store ts = some step.plan := by
  obtain ⟨p, hp, hplan, -⟩ := EntryPlan.planned_ofTransitions hc hs.recalls ts
  have hb : Step.build c s.store event ts = some ⟨event, ts, Step.exitOf c s.store ts, p⟩ := by
    rw [Step.build, hp]
    rfl
  have hcar := carried_carryOut (c := c) (s := s) ⟨event, ts, Step.exitOf c s.store ts, p⟩
  have hmoved : Moved c s.store.leaves
      (s.carryOut c ⟨event, ts, Step.exitOf c s.store ts, p⟩).store.leaves ts p := by
    refine ⟨hs.leaf, hch, hplan, fun {l} => (hcar.leaves l).trans (or_congr_left ?_)⟩
    refine and_congr_right ?_
    intro hl
    rw [Step.mem_exitOf]
    simp [mem_exitSet, Store.active, mem_closure_of_mem hl]
  refine ⟨_, _, hb, by rw [microStep, hb]; rfl, rfl, rfl, hcar, hmoved, ?_, hp⟩
  exact ⟨hmoved.leaf_after, recalls_after hc hs hcar.records⟩

/-- On a chart whose parallel states' histories stand alone a step keeps a configuration regular. -/
theorem settled_of_carried (ha : c.HistoriesAlone) (hs : s.store.Settled c)
    (hch : Chosen c (s.store.active c) ts) (hm : Moved c s.store.leaves t.store.leaves ts step.plan)
    (hp : EntryPlan.ofTransitions c s.store ts = some step.plan) (hcar : Carried c step s t) :
    t.store.Settled c := by
  obtain ⟨p, hp', -, -, htidy⟩ := EntryPlan.planned_ofTransitions hc hs.recalls ts
  rw [hp] at hp'
  cases hp'
  have hareas := hch.pairwise_areas hc hs.leaf hs.regular.tidy ha
  refine ⟨⟨hm.leaf_after, recalls_after hc hs.toSane hcar.records⟩, hcar.sorted hs.sorted, ?_,
    agrees_after hc hs hcar.records⟩
  exact hm.regular_after hc hs.regular (htidy (fun x _ => hs.agrees x) hareas)

end Statechart
