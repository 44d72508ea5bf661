import Statechart.Proofs.MacrostepTermination

/-! What a machine at rest has left to do.

    A machine that goes on by itself rests only with an empty queue. But it does not look again for what
    needs no event once it has seen the last event of its queue, and after an event from outside that
    selects nothing it does not go on at all. So something may be left to do, and here is when. -/

namespace Statechart.Session

variable {c : Chart} {s t : Session} {e : Event} {event : Option Event} {ts : List TransitionId}

/-- Whether nothing is left to do: the queue is empty, and nothing is enabled that needs no event. -/
def Complete (c : Chart) (s : Session) : Prop := s.queue = [] ∧ Quiescent c none s

/-- Whether a machine has worked off its queue: then nothing is enabled that needs no event, or nothing
    was before it saw the last event, and nothing is for that event. -/
def Drained (c : Chart) (s : Session) : Prop :=
  s.queue = [] ∧ (Quiescent c none s ∨ ∃ e v, s.store.event = hand e ∧
    Quiescent c (some e.name) s ∧ Quiescent c none (s.seeing v))

theorem Drained.congr (hq : t.queue = s.queue) (hs : t.store = s.store)
    (he : t.evaluator = s.evaluator) (h : Drained c s) : Drained c t := by
  refine ⟨hq.trans h.1, h.2.imp (quiescent_congr hs he) ?_⟩
  rintro ⟨e, v, hv, hsome, hnone⟩
  have hseeing : (t.seeing v).store = (s.seeing v).store := by
    rw [seeing, mapStore, hs, seeing, mapStore]
  exact ⟨e, v, hs ▸ hv, quiescent_congr hs he hsome, quiescent_congr hseeing he hnone⟩

/-- If conditions do not look at the event nothing is left to do. -/
theorem Drained.complete (h : Drained c s) (hblind : ∀ v w n, ∀ t ∈ (c.node n).transitions,
    (s.seeing v).enables c none t = (s.seeing w).enables c none t) : Complete c s := by
  obtain ⟨hq, hnone | ⟨e, v, -, -, hnone⟩⟩ := h
  · exact ⟨hq, hnone⟩
  · refine ⟨hq, ?_⟩
    intro n hn t ht
    exact (hblind s.store.event v n t ht).trans (hnone n hn t ht)

/-! ### Starting processes -/

theorem store_start (i : InvokeId) : (s.start c i).store = s.store := by
  have hready : (s.readied c i).store = s.store :=
    readied_induction (P := fun t => t.store = s.store) i rfl (fun _ _ h => h) (fun _ h => h)
      fun _ h => h
  cases launched_start (c := c) (s := s) i with
  | unsourced ht | unmade _ ht => exact (congrArg Session.store ht).trans rfl
  | begun _ _ ht | refused _ _ ht => exact (congrArg Session.store ht).trans hready

/-- Starting processes leaves the store alone. -/
theorem store_startPending : (s.startPending c).store = s.store := by
  have hnode (is : List InvokeId) (s : Session) : (is.foldl (start c) s).store = s.store :=
    List.foldlRecOn (motive := fun t : Session => t.store = s.store) is _ rfl
      fun _ h i _ => (store_start i).trans h
  exact List.foldlRecOn (motive := fun t : Session => t.store = s.store) s.pending _ rfl
    fun t h _ _ => (hnode _ t).trans h

/-! ### Going on by itself -/

variable (hc : c.WellFormed)

include hc

/-- When there is nothing to take, nothing is enabled that needs no event, and the queue is empty or its
    next event enables nothing either. -/
theorem nextInternal_nil (h : s.nextInternal c = (event, [], t)) (hr : t.running = true) :
    Quiescent c none s ∧ ∃ s₁, Searched (∀ l ∈ s.store.leaves, (c.node l).isTopLevelFinal = false)
        (s.faults c none) s s₁ ∧
      (s₁ = t ∧ t.queue = [] ∨ ∃ e queue u, s₁.queue = e :: queue ∧
        u = ({ s₁ with queue } : Session).present (.ofEvent e true) ∧ Quiescent c (some e.name) u ∧
        Searched (∀ l ∈ u.store.leaves, (c.node l).isTopLevelFinal = false)
          (u.faults c (some e.name)) u t) := by
  cases choice_of_nextInternal h with
  | eventless hs hne => exact (hne rfl).elim
  | idle hs hempty =>
    obtain ⟨hq, hsearch⟩ := searched_of_select hc hs
    exact ⟨hq, t, hsearch, .inl ⟨rfl, hempty⟩⟩
  | stop => cases hr
  | @next e queue _ _ u hs hqueue _ ht =>
    obtain ⟨hq, hsearch⟩ := searched_of_select hc hs
    obtain ⟨hq', hsearch'⟩ := searched_of_select hc ht
    exact ⟨hq, u, hsearch, .inr ⟨e, queue, _, hqueue, rfl, hq', hsearch'⟩⟩

/-- A machine that goes on by itself rests when it has worked off its queue. -/
theorem drained_of_macroStep {fuel : Nat} (h : s.macroStep c fuel = some t) (hr : t.running = true) :
    Drained c t := by
  induction fuel generalizing s with
  | zero => cases h
  | succ fuel ih =>
    cases round_of_macroStep h with
    | halted hr' ht =>
      rw [ht, hr'] at hr
      cases hr
    | stopped _ _ hr' => cases hr'.symm.trans hr
    | again _ _ _ _ ht => exact ih ht
    | taken _ _ _ ht => exact ih ht
    | @rested event u _ hn hu hempty ht =>
      subst ht
      have hstore : (u.startPending c).store = u.store := store_startPending
      have heval : (u.startPending c).evaluator = u.evaluator := quiet_startPending.evaluator
      refine ⟨hempty, ?_⟩
      obtain ⟨hnone, s₁, hs₁, ⟨rfl, -⟩ | ⟨e, queue, w, -, rfl, hsome, hw⟩⟩ :=
        nextInternal_nil hc hn hu
      · exact .inl (quiescent_congr (hstore.trans hs₁.store) (heval.trans hs₁.evaluator) hnone)
      · have hw' := hstore.trans hw.store
        have he := heval.trans hw.evaluator
        refine .inr ⟨e, s.store.event, by rw [hw']; rfl, quiescent_congr hw' he hsome, ?_⟩
        refine quiescent_congr ?_ (he.trans hs₁.evaluator) hnone
        rw [seeing, mapStore, hw']
        exact congrArg (fun r : Store => { r with event := s.store.event }) hs₁.store

/-- Taking transitions and going on from there ends with the queue worked off. -/
theorem drained_of_takeAndSettle {fuel : Nat} (h : s.takeAndSettle c fuel event ts = some t)
    (hr : t.running = true) : Drained c t := by
  unfold takeAndSettle at h
  obtain ⟨s₁, -, h⟩ := Option.bind_eq_some_iff.1 h
  obtain ⟨s₂, h₂, h⟩ := Option.bind_eq_some_iff.1 h
  cases h
  exact Drained.congr (s := s₂) rfl rfl rfl (drained_of_macroStep hc h₂ hr)

omit hc in
theorem startPending_of_none (hp : s.pending = []) : s.startPending c = s := by
  rw [startPending, hp]
  change { s with pending := [] } = s
  rw [← hp]

/-- If nothing is left to do and no condition fails, a round changes nothing. -/
theorem macroStep_of_complete (hr : s.running = true) (hp : s.pending = [])
    (hunf : ∀ l ∈ s.store.leaves, (c.node l).isTopLevelFinal = false) (h : Complete c s)
    (hz : s.faults c none = 0) : s.macroStep c 1 = some s := by
  obtain ⟨hq, hnone⟩ := h
  obtain ⟨s', hs', hsearch⟩ := select_of_quiescent hc hnone
  rw [hz] at hsearch
  cases hsearch.eq_of_zero hunf
  have hn : s.nextInternal c = (none, [], s) := by
    rw [nextInternal, hs']
    dsimp only
    rw [hq]
    rfl
  rw [macroStep, if_pos hr, hn]
  dsimp only
  rw [if_pos hr, startPending_of_none hp, hr, hq]
  rfl

/-- If a round changes nothing, nothing is left to do and no condition fails: a failure would be in the
    journal, and an event would be gone from the queue. -/
theorem complete_of_macroStep (hr : s.running = true) (hp : s.pending = [])
    (hunf : ∀ l ∈ s.store.leaves, (c.node l).isTopLevelFinal = false)
    (h : s.macroStep c 1 = some s) : Complete c s ∧ s.faults c none = 0 := by
  cases round_of_macroStep h with
  | halted hr' => cases hr'.symm.trans hr
  | stopped _ _ hr' => cases hr'.symm.trans hr
  | again _ _ _ _ ht => cases ht
  | taken _ _ _ ht => cases ht
  | @rested event t _ hn hr' _ ht =>
    obtain ⟨hnone, s₁, hs₁, hcases⟩ := nextInternal_nil hc hn hr'
    have hsize := hs₁.reported hunf
    rcases hcases with ⟨rfl, hq⟩ | ⟨e, queue, u, hq, eq, -, hu⟩
    · rw [hs₁.queue, List.append_eq_nil_iff] at hq
      exact ⟨⟨hq.1, hnone⟩, by simpa using hq.2⟩
    · have hup : u.pending = s₁.pending := by rw [eq]; rfl
      have huq : u.queue = queue := by rw [eq]; rfl
      have huj : u.journal.size = s₁.journal.size := by rw [eq]; rfl
      have hul : u.store.leaves = s₁.store.leaves := by rw [eq]; rfl
      rw [hul, hs₁.store] at hu
      have htp : t.pending = [] := hu.pending.trans (hup.trans (hs₁.pending.trans hp))
      rw [startPending_of_none htp] at ht
      subst ht
      have hsize' := hu.reported hunf
      have hlen := congrArg List.length hs₁.queue
      have hlen' := congrArg List.length hu.queue
      rw [hq, List.length_append, List.length_replicate, List.length_cons] at hlen
      rw [huq, List.length_append, List.length_replicate] at hlen'
      omega

omit hc in
/-- A machine that runs on after an event from outside has responded to it. -/
theorem respond_of_nextStep {fuel : Nat} (hr : s.running = true)
    (h : s.nextStep c fuel e = some t) (hr' : t.running = true) : s.respond c fuel e = some t := by
  unfold nextStep at h
  rw [if_pos hr] at h
  split at h
  · cases h
    rw [finalStep_spec.2] at hr'
    cases hr'
  · obtain ⟨u, hu, rfl⟩ := Option.map_eq_some_iff.1 h
    rw [finalStep_spec.2] at hr'
    rw [finalStep_of_running hr', hu]

/-- An event from outside for which nothing is selected is only told. -/
theorem searched_of_respond {fuel : Nat} (h : s.respond c fuel e = some t)
    (hnone : ((s.answer c e).select c (some e.name)).1 = []) :
    Searched (∀ l ∈ (s.answer c e).store.leaves, (c.node l).isTopLevelFinal = false)
      ((s.answer c e).faults c (some e.name)) (s.answer c e) t := by
  unfold respond at h
  dsimp only at h
  split at h
  · rename_i s' hs
    cases h
    exact (searched_of_select hc hs).2
  · rename_i ts s' hne hs
    exact (hne ((congrArg Prod.fst hs).symm.trans hnone)).elim

/-- An event from outside for which something is selected is worked off with everything that follows. -/
theorem drained_of_respond {fuel : Nat} (h : s.respond c fuel e = some t) (hr : t.running = true)
    (hsome : ((s.answer c e).select c (some e.name)).1 ≠ []) : Drained c t := by
  unfold respond at h
  dsimp only at h
  split at h
  · rename_i s' hs
    exact (hsome (congrArg Prod.fst hs)).elim
  · exact drained_of_takeAndSettle hc h hr

omit hc

/-- What is left to do whenever a run comes to rest. After transitions were taken the queue is worked off.
    After an event that selected nothing there is nothing left if and only if telling the event has
    queued nothing, no condition has failed and nothing is enabled that needs no event. And if nothing is
    left and no condition fails, going on by itself changes nothing. -/
theorem drained_of_run {name : String} {version : Nat} {v : Value}
    (hl : Chart.load name version v = .ok c) (s₀ : Session) :
    (∀ fuel s, s₀.firstStep c fuel = some s → s.running = true → Drained c s) ∧
    (∀ fuel e s t, Run c s₀ s → s.running = true → s.nextStep c fuel e = some t → t.running = true →
      (((s.answer c e).select c (some e.name)).1 ≠ [] → Drained c t) ∧
      (((s.answer c e).select c (some e.name)).1 = [] → t.store = (s.answer c e).store ∧
        t.queue = (s.answer c e).queue ++ failures ((s.answer c e).faults c (some e.name)) ∧
        (Complete c t ↔ (s.answer c e).queue = [] ∧ (s.answer c e).faults c (some e.name) = 0 ∧
          Quiescent c none (s.answer c e)))) ∧
    ∀ s, Run c s₀ s → s.running = true →
      (({ s with pending := [] } : Session).macroStep c 1 = some { s with pending := [] } ↔
        Complete c s ∧ s.faults c none = 0) := by
  have hc := Chart.wellFormed_of_load hl
  refine ⟨?_, fun fuel e s t _ hr h hr' => ⟨?_, ?_⟩, ?_⟩
  · intro fuel s h hr
    obtain ⟨u, hu, rfl⟩ := Option.map_eq_some_iff.1 h
    rw [finalStep_spec.2] at hr
    rw [finalStep_of_running hr]
    exact drained_of_takeAndSettle hc hu hr
  · intro hsome
    exact drained_of_respond hc (respond_of_nextStep hr h hr') hr' hsome
  · intro hnone
    have hs := searched_of_respond hc (respond_of_nextStep hr h hr') hnone
    refine ⟨hs.store, hs.queue, ?_⟩
    rw [Complete, hs.queue, List.append_eq_nil_iff, List.replicate_eq_nil_iff, and_assoc]
    refine and_congr_right fun _ => and_congr_right fun _ => ⟨?_, ?_⟩
    · intro h
      exact quiescent_congr hs.store.symm hs.evaluator.symm h
    · intro h
      exact quiescent_congr hs.store hs.evaluator h
  · intro s h hr
    have hs : s.store.Steady c := holds_of_reaches hc h.reaches hr
    have hfaults : ({ s with pending := [] } : Session).faults c none = s.faults c none :=
      faults_congr rfl rfl
    refine ⟨?_, ?_⟩
    · intro h
      obtain ⟨⟨hq, hnone⟩, hz⟩ :=
        complete_of_macroStep (s := { s with pending := [] }) hc hr rfl hs.unfinished h
      exact ⟨⟨hq, quiescent_congr (s := { s with pending := [] }) rfl rfl hnone⟩, hfaults ▸ hz⟩
    · rintro ⟨⟨hq, hnone⟩, hz⟩
      exact macroStep_of_complete (s := { s with pending := [] }) hc hr rfl hs.unfinished
        ⟨hq, quiescent_congr (s := s) rfl rfl hnone⟩ (hfaults.trans hz)

/-- A state with a condition that cannot be read, and a transition for the failure of it. -/
def careless : Value :=
  .object [("states", .array [
    .object [("id", .string "Working"), ("transitions", .array [
      .object [("cond", .string "ready &&"), ("event", .string "check"), ("target", .string "Working")],
      .object [("event", .string "error.execution"), ("target", .string "Failed")]])],
    .object [("id", .string "Failed")]])]

/-- The chart with that state. -/
def carelessChart : Chart := (Chart.load "careless" 1 careless).toOption.get (by decide +kernel)

theorem load_careless : Chart.load "careless" 1 careless = .ok carelessChart := Chart.load_eq_ok _

/-- A session on that chart. -/
def newCareless : Session := .fresh (some carelessChart) (.ofSeed 0 0)

/-- The session when it has been started and has come to rest. -/
def unchecked : Session := (newCareless.play carelessChart 10 []).get (by decide +kernel)

/-- The session when it has been told to check. -/
def checked : Session :=
  (unchecked.nextStep carelessChart 10 (.signal "check")).get (by decide +kernel)

/-- Checking leaves the failure of the condition in the queue, and the transition for it is not taken. -/
theorem checked_incomplete : Run carelessChart newCareless unchecked ∧
    unchecked.nextStep carelessChart 10 (.signal "check") = some checked ∧ checked.running = true ∧
    checked.queue.length = 1 ∧ ¬Complete carelessChart checked := by
  have hrun : Run carelessChart newCareless unchecked := Run.of_play (Option.some_get _).symm
  have ht : unchecked.nextStep carelessChart 10 (.signal "check") = some checked :=
    (Option.some_get _).symm
  have hr : checked.running = true := by decide +kernel
  have hrest := (drained_of_run load_careless newCareless).2.1 10 (.signal "check") unchecked checked
    hrun (by decide +kernel) ht hr
  obtain ⟨-, -, hiff⟩ := hrest.2 (by decide +kernel)
  refine ⟨hrun, ht, hr, by decide +kernel, ?_⟩
  intro h
  have hfaults : (unchecked.answer carelessChart (.signal "check")).faults carelessChart
    (some "check") = 1 := by decide +kernel
  exact absurd (hfaults.symm.trans (hiff.1 h).2.1) (by decide)

end Statechart.Session
