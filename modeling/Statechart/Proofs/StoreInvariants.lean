import Statechart.Proofs.RunToCompletion

/-! What a run keeps in order.

    The tables of a store are in order, scopes belong to states of the chart, and what content sees of
    the active states is up to date whenever the session stands still. Content only assigns variables,
    so it keeps whatever assignments keep; the rest is up to the steps. At rest no process is waiting to
    be started. -/

namespace Statechart

open Chart Session

namespace Store

variable {c : Chart} {s t : Store} {n h : NodeId}

/-- Whether the tables of a store are in order and scopes belong to states of the chart. -/
structure Orderly (c : Chart) (s : Store) : Prop where
  scopes : (Dict.keys s.contexts).Pairwise (· < ·)
  owned : ∀ n ∈ Dict.keys s.contexts, n < c.nodes.size
  records : (Dict.keys s.histories).Pairwise (· < ·)

/-- Whether what content sees of the active states is up to date. -/
def Current (c : Chart) (s : Store) : Prop := s.published = s.activeNames c

theorem pairwise_keys_insert {α : Type} {d : Dict NodeId α} {a : α}
    (h : (Dict.keys d).Pairwise (· < ·)) : (Dict.keys (Dict.insert n a d)).Pairwise (· < ·) :=
  Dict.pairwise_keys_insert (fun _ _ _ => Nat.lt_trans) (fun _ _ => Nat.lt_or_gt_of_ne) h

theorem Orderly.congr (h : s.Orderly c) (hx : t.contexts = s.contexts)
    (hh : t.histories = s.histories) : t.Orderly c where
  scopes := hx ▸ h.scopes
  owned := hx ▸ h.owned
  records := hh ▸ h.records

theorem Current.congr (h : s.Current c) (hp : t.published = s.published) (hl : t.leaves = s.leaves) :
    t.Current c := by
  rw [Current, hp, h, activeNames, activeNames, active, active, hl]

theorem orderly_start {name : String} {now : Int} : (start c name now).Orderly c where
  scopes := .nil
  owned _ hn := by cases hn
  records := .nil

theorem Orderly.insert (h : s.Orderly c) (hn : n < c.nodes.size) (vars : Object) :
    ({ s with contexts := Dict.insert n vars s.contexts } : Store).Orderly c where
  scopes := pairwise_keys_insert h.scopes
  owned m hm := (Dict.mem_keys_insert.1 hm).elim (fun e => e ▸ hn) (h.owned m)
  records := h.records

theorem Orderly.record (h : s.Orderly c) (k : NodeId) (states : NodeSet) :
    (s.record k states).Orderly c where
  scopes := h.scopes
  owned := h.owned
  records := pairwise_keys_insert h.records

theorem Orderly.ensureContext (h : s.Orderly c) (hn : n < c.nodes.size) :
    (s.ensureContext c n).Orderly c := by
  unfold Store.ensureContext
  split
  · exact h
  · exact h.insert hn _

/-- A variable is written where it is, so no scope comes into being. -/
theorem mem_keys_of_assign {d : Chart} {owner : Option NodeId} {location : String} {v : Value}
    (h : n ∈ Dict.keys (s.assign d owner location v).1.contexts) : n ∈ Dict.keys s.contexts := by
  unfold assign at h
  split at h
  · exact h
  split at h
  · exact h
  rename_i scope hscope
  cases scope with
  | chart => exact h
  | state m =>
    rcases Dict.mem_keys_insert.1 h with rfl | h
    case inr => exact h
    unfold holder? at hscope
    split at hscope
    · rename_i m hm
      cases hscope
      have hhas := List.find?_some (p := fun n => Dict.has _ (s.varsOf (.state n))) hm
      cases hget : Dict.get? n s.contexts with
      | some vars => exact List.mem_map_of_mem (Dict.mem_of_get? hget)
      | none =>
        rw [varsOf, hget] at hhas
        cases hhas
    · split at hscope <;> cases hscope

theorem orderly_assign (d : Chart) (s : Store) (owner : Option NodeId) (location : String) (v : Value)
    (h : s.Orderly c) : (s.assign d owner location v).1.Orderly c := by
  refine ⟨?_, fun n hn => h.owned n (mem_keys_of_assign hn),
    (assign_leaves owner location v s).2 ▸ h.records⟩
  unfold assign
  split
  · exact h.scopes
  split
  · exact h.scopes
  rename_i scope _
  cases scope with
  | chart => exact h.scopes
  | state n => exact pairwise_keys_insert h.scopes

theorem current_assign (d : Chart) (s : Store) (owner : Option NodeId) (location : String) (v : Value)
    (h : s.Current c) : (s.assign d owner location v).1.Current c := by
  refine h.congr ?_ (assign_leaves owner location v s).1
  unfold assign
  split
  · rfl
  split
  · rfl
  rename_i scope _
  cases scope <;> rfl

theorem Revised.orderly (h : s.Revised t) (hs : s.Orderly c) : t.Orderly c := h.keeps orderly_assign hs

theorem Revised.current (h : s.Revised t) (hs : s.Current c) : t.Current c := h.keeps current_assign hs

end Store

namespace Session

variable {c : Chart} {s₀ s t u : Session} {n : NodeId} {p q : Phase} {event : Option Event}
  {ts : List TransitionId}

/-! ### Steps -/

theorem orderly_recordHistories (h : s.store.Orderly c) : (s.recordHistories c n).store.Orderly c := by
  refine List.foldlRecOn (motive := fun store : Store => store.Orderly c) (c.node n).histories
    (recordHistory c n) h fun store h k _ => ?_
  unfold recordHistory
  split
  · exact h.record k _
  · exact h

theorem orderly_leave (h : s.store.Orderly c) : (s.leave c n).store.Orderly c := by
  obtain ⟨t, ht, e⟩ := leave_parts (c := c) (s := s) n
  rw [e]
  exact (endProcesses_spec n).2.orderly (ht.store.orderly (orderly_recordHistories h))

theorem orderly_enterState (plan : EntryPlan) (hn : n < c.nodes.size) (h : s.store.Orderly c) :
    (s.enterState c plan n).store.Orderly c := by
  obtain ⟨t, u, -, ht, hu, e⟩ := enterState_parts (c := c) (s := s) plan n
  have hlight : (s.light c n).store.Orderly c := by
    unfold light
    split
    · exact h.congr rfl rfl
    · exact h
  have hentered := hu.store.orderly (ht ▸ hlight.ensureContext hn)
  rw [e]
  unfold finish
  split
  · split
    · exact hentered
    · exact (worked_raiseDone _).store.orderly hentered
  · exact hentered

/-- A step keeps the tables in order. -/
theorem orderly_carryOut {step : Step} (hp : ∀ n ∈ step.plan.entry, n < c.nodes.size)
    (h : s.store.Orderly c) : (s.carryOut c step).store.Orderly c := by
  have hleft : ((c.sortReverse step.exit).foldl (leave c) s).store.Orderly c :=
    List.foldlRecOn (motive := fun s : Session => s.store.Orderly c) _ _ h fun _ h _ _ => orderly_leave h
  have htaken := (Worked.foldl (fun _ i => worked_take (c := c) step.eventName i) step.transitions
    (s.leaveAll c step.exit)).store.orderly (hleft.congr rfl rfl)
  refine List.foldlRecOn (motive := fun s : Session => s.store.Orderly c) _ _ htaken fun _ h n hn => ?_
  refine orderly_enterState step.plan (hp n ?_) h
  rwa [Chart.sortDocument, mem_stableSort] at hn

theorem orderly_finalStep (h : s.store.Orderly c) : (s.finalStep c).store.Orderly c := by
  have hleft : ((c.sortReverse (s.store.active c)).foldl (abandon c) s).store.Orderly c := by
    refine List.foldlRecOn (motive := fun s : Session => s.store.Orderly c) _ _ h fun s h n _ => ?_
    obtain ⟨t, ht, e⟩ := abandon_parts (c := c) (s := s) n
    rw [e]
    split
    · exact ht.store.orderly h
    · exact (ht.store.orderly h).congr rfl rfl
  unfold finalStep
  split
  · exact h
  · exact hleft.congr rfl rfl

theorem current_finalStep (h : s.running = false) : (s.finalStep c).store.Current c := by
  rw [finalStep, if_neg (by simp [h])]
  rfl

/-! ### Runs -/

/-- What is in order at any time of a run. -/
structure Tended (c : Chart) (p : Phase) (s : Session) : Prop where
  orderly : s.store.Orderly c
  current : s.store.Current c
  pending : p = .rest → s.running = true → s.pending = []

/-- Going on by itself changes nothing in the store but the event in hand. -/
theorem nextInternal_spec (hc : c.WellFormed) (h : s.nextInternal c = (event, ts, t)) :
    t.chart = s.chart ∧ ∃ v, t.store = { s.store with event := v } := by
  cases choice_of_nextInternal h with
  | eventless hs | idle hs | stop hs =>
    obtain ⟨-, -, n, hn⟩ := select_spec hc hs
    exact ⟨hn.chart, s.store.event, hn.store⟩
  | @next e _ _ _ _ hs _ _ ht =>
    obtain ⟨-, -, n, hn⟩ := select_spec hc hs
    obtain ⟨-, -, m, hm⟩ := select_spec hc ht
    refine ⟨hm.chart.trans hn.chart, some (.ofEvent e true), hm.store.trans ?_⟩
    exact congrArg (fun r : Store => { r with event := some (.ofEvent e true) }) hn.store

theorem tended_finalStep (hr : s.running = false) (h : s.store.Orderly c) :
    Tended c .rest (s.finalStep c) where
  orderly := orderly_finalStep h
  current := current_finalStep hr
  pending _ hr' := by
    rw [finalStep_spec.2, hr] at hr'
    cases hr'

variable (hc : c.WellFormed)

include hc

theorem tended_move (hs : Holds c p s) (h : Tended c p s) (hm : Move c p s q t) : Tended c q t := by
  have next {event : Option Event} {ts : List TransitionId} {t : Session}
      (hn : s.nextInternal c = (event, ts, t)) : t.store.Orderly c ∧ t.store.Current c := by
    obtain ⟨-, v, hv⟩ := nextInternal_spec hc hn
    rw [hv]
    exact ⟨h.orderly.congr rfl rfl, h.current.congr rfl rfl⟩
  have told {e : Event} {ts : List TransitionId} {t : Session}
      (hsel : (s.answer c e).select c (some e.name) = (ts, t)) :
      t.store.Orderly c ∧ t.store.Current c ∧ t.pending = s.pending := by
    obtain ⟨-, -, n, hn⟩ := select_spec hc hsel
    have hw : Worked (s.present (.ofEvent e false)) (s.answer c e) := worked_tellProcesses e
    rw [hn.store, hn.pending]
    exact ⟨hw.store.orderly (h.orderly.congr rfl rfl), hw.store.current (h.current.congr rfl rfl),
      hw.pending⟩
  cases hm with
  | equip => exact ⟨h.orderly, h.current, h.pending⟩
  | go =>
    exact ⟨Store.orderly_start, rfl, fun hp => by cases hp⟩
  | stop e hr he => exact tended_finalStep rfl h.orderly
  | @ignore s s' e hr he hsel =>
    obtain ⟨ho, hcur, hp⟩ := told hsel
    cases hr' : s'.running with
    | true =>
      rw [finalStep_of_running hr']
      exact ⟨ho, hcur, fun _ _ => hp.trans (h.pending rfl hr)⟩
    | false => exact tended_finalStep hr' ho
  | accept e hr he hsel =>
    obtain ⟨ho, hcur, -⟩ := told hsel
    exact ⟨ho, hcur, fun hp => by cases hp⟩
  | @take s s' event ts hm =>
    have hp : Prepared c ts s := hs
    obtain ⟨step, u, -, hu, e, -, -, hmoved, -⟩ := microStep_spec hc event hp.sane hp.chosen
    rw [hm] at hu
    cases hu
    have ho := orderly_carryOut (s := s) (fun n hn => (hmoved.planned.complete n hn).lt) h.orderly
    rw [← e] at ho
    exact ⟨ho.congr rfl rfl, rfl, fun hp => by cases hp⟩
  | choose hr hn =>
    obtain ⟨ho, hcur⟩ := next hn
    exact ⟨ho, hcur, fun hp => by cases hp⟩
  | pause hr hn hr' hq =>
    obtain ⟨ho, hcur⟩ := next hn
    rw [← store_startPending (c := c)] at ho hcur
    exact ⟨ho, hcur, fun hp => by cases hp⟩
  | settle hr hn hr' hq =>
    obtain ⟨ho, hcur⟩ := next hn
    rw [← store_startPending (c := c)] at ho hcur
    exact ⟨ho, hcur, fun _ _ => rfl⟩
  | cancel hr hn hr' => exact tended_finalStep hr' (next hn).1
  | halt hr => exact tended_finalStep hr h.orderly

/-! ### The chart and the name

A session takes its chart and its name along: whatever it does by itself, the chart for its next start
stays, and until then the name. -/

/-- Whether two sessions have the same chart and the same name. -/
def Akin (s t : Session) : Prop := t.chart = s.chart ∧ t.store.sessionId = s.store.sessionId

omit hc in
theorem Follows.akin (h : Follows s t) : Akin s t := ⟨h.chart, h.name⟩

omit hc in
theorem Akin.trans {u : Session} (h : Akin s t) (h' : Akin t u) : Akin s u :=
  ⟨h'.1.trans h.1, h'.2.trans h.2⟩

omit hc in
theorem akin_microStep (h : s.microStep c event ts = some t) : Akin s t := by
  obtain ⟨step, -, rfl⟩ := Option.map_eq_some_iff.1 h
  exact (carried_carryOut step).follows.akin

theorem akin_nextInternal (h : s.nextInternal c = (event, ts, t)) : Akin s t := by
  obtain ⟨hchart, v, hv⟩ := nextInternal_spec hc h
  exact ⟨hchart, by rw [hv]⟩

theorem akin_macroStep {fuel : Nat} (h : s.macroStep c fuel = some t) : Akin s t := by
  induction fuel generalizing s with
  | zero => cases h
  | succ fuel ih =>
    have started {event : Option Event} {ts : List TransitionId} {u : Session}
        (hn : s.nextInternal c = (event, ts, u)) : Akin s (u.startPending c) :=
      (akin_nextInternal hc hn).trans quiet_startPending.toFollows.akin
    cases round_of_macroStep h with
    | halted hr ht => exact ht ▸ ⟨rfl, rfl⟩
    | stopped hr hn => exact akin_nextInternal hc hn
    | rested hr hn hr' hq ht => exact ht ▸ started hn
    | again hr hn hr' hq ht => exact (started hn).trans (ih ht)
    | taken hr hn hm ht =>
      exact (akin_nextInternal hc hn).trans ((akin_microStep hm).trans
        (quiet_publish.toFollows.akin.trans (ih ht)))

theorem akin_takeAndSettle {fuel : Nat} (h : s.takeAndSettle c fuel event ts = some t) :
    Akin s t := by
  unfold takeAndSettle at h
  obtain ⟨s₁, h₁, h⟩ := Option.bind_eq_some_iff.1 h
  obtain ⟨s₂, h₂, h⟩ := Option.bind_eq_some_iff.1 h
  cases h
  have hm := akin_microStep h₁
  have hsettle : Akin s₁ s₂ := quiet_publish.toFollows.akin.trans (akin_macroStep hc h₂)
  exact ⟨hsettle.1.trans hm.1, hsettle.2.trans hm.2⟩

theorem akin_firstStep {fuel : Nat} (h : s.firstStep c fuel = some t) : Akin (s.restart c) t := by
  obtain ⟨s₁, h₁, rfl⟩ := Option.map_eq_some_iff.1 h
  exact (akin_takeAndSettle hc h₁).trans finalStep_spec.1.akin

theorem chart_firstStep {fuel : Nat} (h : s.firstStep c fuel = some t) : t.chart = s.chart := by
  have hrestart : (s.restart c).chart = s.chart :=
    (worked_cancelProcesses (s := { s with running := false }) (Dict.keys s.live)).chart
  exact (akin_firstStep hc h).1.trans hrestart

theorem chart_nextStep {fuel : Nat} {e : Event} (h : s.nextStep c fuel e = some t) :
    t.chart = s.chart := by
  have told {ts : List TransitionId} {u : Session}
      (hs : (s.answer c e).select c (some e.name) = (ts, u)) : u.chart = s.chart := by
    obtain ⟨-, -, n, hn⟩ := select_spec hc hs
    exact hn.chart.trans (quiet_answer e).chart
  cases stepped_of_nextStep h with
  | idle hr ht => rw [ht]
  | stopped hr he ht => exact ht ▸ finalStep_spec.1.chart
  | ignored hr he hs ht => exact ht ▸ finalStep_spec.1.chart.trans (told hs)
  | taken hr he hs hv ht =>
    exact ht ▸ finalStep_spec.1.chart.trans ((akin_takeAndSettle hc hv).1.trans (told hs))

/-! ### All runs -/

/-- Every session that is ever reached is in order. -/
theorem tended_of_reaches (h : Reaches c s₀ p s) : Tended c p s := by
  induction h with
  | go => exact ⟨Store.orderly_start, rfl, fun hp => by cases hp⟩
  | move h hm ih => exact tended_move hc (holds_of_reaches hc h) ih hm

end Session
end Statechart
