import Statechart.Proofs.Invariant

/-! Runs, as sequences of moves.

    A session is at rest, and then an event or its owner moves it; or it goes on by itself; or it is
    about to take transitions. `Move` is one move between such phases, and every run of the machine is a
    sequence of them, also one that never comes to rest; so what every move keeps holds throughout. -/

namespace Statechart

open Chart

namespace Session

/-- Where a session stands. -/
inductive Phase where
  | rest
  | busy
  | about (event : Option Event) (ts : List TransitionId)

/-- What others may change while a session is at rest: its chart for the next start, and those it works
    with. -/
def equip (chart : Option Chart) (invokers : Dict String Invoker) (listeners : Listeners) (sink : Sink)
    (outbox : List (Sink × Event)) (s : Session) : Session :=
  { s with chart, invokers, listeners, sink, outbox }

/-- A session that has seen an event from outside, but has not selected transitions for it. -/
def answer (c : Chart) (e : Event) (s : Session) : Session :=
  (s.present (.ofEvent e false)).tellProcesses c e

/-- One move of a session. -/
inductive Move (c : Chart) : Phase → Session → Phase → Session → Prop where
  | equip {s : Session} (chart : Option Chart) (invokers : Dict String Invoker)
      (listeners : Listeners) (sink : Sink) (outbox : List (Sink × Event)) :
      Move c .rest s .rest (s.equip chart invokers listeners sink outbox)
  | go {s : Session} : Move c .rest s (.about none [c.initial]) { s.restart c with pending := [] }
  | stop {s : Session} (e : Event) (hr : s.running = true) (he : e.isCancel = true) :
      Move c .rest s .rest ({ s with running := false }.finalStep c)
  | ignore {s s' : Session} (e : Event) (hr : s.running = true) (he : e.isCancel = false)
      (h : (s.answer c e).select c (some e.name) = ([], s')) :
      Move c .rest s .rest (s'.finalStep c)
  | accept {s s' : Session} {t : TransitionId} {ts : List TransitionId} (e : Event)
      (hr : s.running = true) (he : e.isCancel = false)
      (h : (s.answer c e).select c (some e.name) = (t :: ts, s')) :
      Move c .rest s (.about (some e) (t :: ts)) { s' with pending := [] }
  | take {s s' : Session} {event : Option Event} {ts : List TransitionId}
      (h : s.microStep c event ts = some s') : Move c (.about event ts) s .busy (s'.publish c)
  | choose {s s' : Session} {event : Option Event} {t : TransitionId} {ts : List TransitionId}
      (hr : s.running = true) (h : s.nextInternal c = (event, t :: ts, s')) :
      Move c .busy s (.about event (t :: ts)) s'
  | pause {s s' : Session} {event : Option Event} (hr : s.running = true)
      (h : s.nextInternal c = (event, [], s')) (hr' : s'.running = true)
      (hq : (s'.startPending c).queue ≠ []) : Move c .busy s .busy (s'.startPending c)
  | settle {s s' : Session} {event : Option Event} (hr : s.running = true)
      (h : s.nextInternal c = (event, [], s')) (hr' : s'.running = true)
      (hq : (s'.startPending c).queue = []) :
      Move c .busy s .rest { s'.startPending c with pending := [] }
  | cancel {s s' : Session} {event : Option Event} (hr : s.running = true)
      (h : s.nextInternal c = (event, [], s')) (hr' : s'.running = false) :
      Move c .busy s .rest ({ s' with pending := [] }.finalStep c)
  | halt {s : Session} (hr : s.running = false) :
      Move c .busy s .rest ({ s with pending := [] }.finalStep c)

/-- What a session comes to, once started and then moved. -/
inductive Reaches (c : Chart) (s₀ : Session) : Phase → Session → Prop where
  | go : Reaches c s₀ (.about none [c.initial]) { s₀.restart c with pending := [] }
  | move {p q : Phase} {s t : Session} (h : Reaches c s₀ p s) (hm : Move c p s q t) : Reaches c s₀ q t

/-- What a session comes to when it is started and then given events, one after the other. -/
inductive Run (c : Chart) (s₀ : Session) : Session → Prop where
  | go {fuel : Nat} {s : Session} (h : s₀.firstStep c fuel = some s) : Run c s₀ s
  | next {fuel : Nat} {e : Event} {s t : Session} (hr : Run c s₀ s)
      (h : s.nextStep c fuel e = some t) : Run c s₀ t
  | equip {s : Session} (hr : Run c s₀ s) (chart : Option Chart) (invokers : Dict String Invoker)
      (listeners : Listeners) (sink : Sink) (outbox : List (Sink × Event)) :
      Run c s₀ (s.equip chart invokers listeners sink outbox)

variable {c : Chart} {s₀ s t : Session} {e : Event} {event : Option Event} {ts : List TransitionId}

/-- A machine that still runs has nothing to leave. -/
theorem finalStep_of_running (h : s.running = true) : s.finalStep c = s := if_pos h

theorem follows_abandon (i : NodeId) :
    Follows s (s.abandon c i) ∧ (s.abandon c i).running = s.running := by
  obtain ⟨t, ht, e⟩ := abandon_parts (c := c) (s := s) i
  rw [e]
  split
  · exact ⟨ht.toFollows, ht.running⟩
  · exact ⟨ht.toFollows.trans ⟨.refl _, rfl, rfl, rfl⟩, ht.running⟩

/-- Leaving everything once the machine has stopped does not start it again. -/
theorem finalStep_spec : Follows s (s.finalStep c) ∧ (s.finalStep c).running = s.running := by
  have hall (ns : List NodeId) : Follows s (ns.foldl (abandon c) s) ∧
      (ns.foldl (abandon c) s).running = s.running := by
    refine List.foldlRecOn (motive := fun t => Follows s t ∧ t.running = s.running) ns (abandon c)
      ⟨.refl s, rfl⟩ fun t ⟨hf, hr⟩ n _ => ?_
    obtain ⟨hf', hr'⟩ := follows_abandon (c := c) (s := t) n
    exact ⟨hf.trans hf', hr'.trans hr⟩
  unfold finalStep
  split
  · exact ⟨.refl s, rfl⟩
  · obtain ⟨hf, hr⟩ := hall (c.sortReverse (s.store.active c))
    exact ⟨hf.trans quiet_publish.toFollows, hr⟩

theorem quiet_answer (e : Event) : Quiet s (s.answer c e) :=
  (quiet_present _).trans (worked_tellProcesses e).quiet

/-- What a machine that goes on by itself chooses to do: it takes transitions that need no event; or it
    takes the next event from its queue, which stops it or selects transitions, perhaps none. -/
inductive Choice (c : Chart) (s : Session) : Option Event → List TransitionId → Session → Prop where
  | eventless {ts : List TransitionId} {t : Session} (hs : s.select c none = (ts, t)) :
      ts ≠ [] → Choice c s none ts t
  | idle {t : Session} (hs : s.select c none = ([], t)) (hq : t.queue = []) : Choice c s none [] t
  | stop {e : Event} {queue : EventQueue} {u : Session} (hs : s.select c none = ([], u))
      (hq : u.queue = e :: queue) (he : e.isCancel = true) :
      Choice c s none [] { u with queue, running := false }
  | next {e : Event} {queue : EventQueue} {ts : List TransitionId} {t u : Session}
      (hs : s.select c none = ([], u)) (hq : u.queue = e :: queue) (he : e.isCancel = false)
      (ht : (({ u with queue } : Session).present (.ofEvent e true)).select c (some e.name) = (ts, t)) :
      Choice c s (some e) ts t

theorem choice_of_nextInternal (h : s.nextInternal c = (event, ts, t)) : Choice c s event ts t := by
  unfold nextInternal at h
  split at h
  case h_2 hne hs =>
    cases h
    exact .eventless hs fun e => hne e
  rename_i u hs
  split at h
  · rename_i hpop
    cases h
    exact .idle hs (EventQueue.eq_nil_of_pop hpop)
  rename_i e queue hpop
  have hq := EventQueue.eq_cons_of_pop hpop
  dsimp only at h
  split at h
  · rename_i he
    cases h
    exact .stop hs hq he
  · rename_i he
    cases h
    exact .next hs hq (Bool.eq_false_iff.2 he) rfl

/-- How a machine that goes on by itself goes through one round, with fuel for others. -/
inductive Round (c : Chart) (fuel : Nat) (s t : Session) : Prop where
  | halted (hr : s.running = false) (ht : t = s)
  | stopped {event : Option Event} (hr : s.running = true) (hn : s.nextInternal c = (event, [], t))
      (hr' : t.running = false)
  | rested {event : Option Event} {u : Session} (hr : s.running = true)
      (hn : s.nextInternal c = (event, [], u)) (hr' : u.running = true)
      (hq : (u.startPending c).queue = []) (ht : t = u.startPending c)
  | again {event : Option Event} {u : Session} (hr : s.running = true)
      (hn : s.nextInternal c = (event, [], u)) (hr' : u.running = true)
      (hq : (u.startPending c).queue ≠ []) (ht : (u.startPending c).macroStep c fuel = some t)
  | taken {event : Option Event} {i : TransitionId} {is : List TransitionId} {u v : Session}
      (hr : s.running = true) (hn : s.nextInternal c = (event, i :: is, u))
      (hm : u.microStep c event (i :: is) = some v) (ht : (v.publish c).macroStep c fuel = some t)

theorem round_of_macroStep {fuel : Nat} (h : s.macroStep c (fuel + 1) = some t) :
    Round c fuel s t := by
  rw [macroStep] at h
  split at h
  case isFalse hr =>
    cases h
    exact .halted (Bool.eq_false_iff.2 hr) rfl
  rename_i hr
  split at h
  · rename_i event u hn
    dsimp only at h
    cases hr' : u.running with
    | false =>
      simp only [hr', Bool.false_eq_true, if_false, Bool.false_and] at h
      cases h
      exact .stopped hr hn hr'
    | true =>
      have hrun : (u.startPending c).running = true := quiet_startPending.running.trans hr'
      simp only [hr', if_true, hrun, Bool.true_and] at h
      split at h <;> rename_i hq
      · exact .again hr hn hr' (by simpa using hq) h
      · cases h
        exact .rested hr hn hr' (by simpa using hq) rfl
  · rename_i event is u hne hn
    split at h
    · cases h
    · rename_i v hm
      obtain ⟨i, is, rfl⟩ := List.exists_cons_of_ne_nil hne
      exact .taken hr hn hm h

/-- Whether every move of a session that is under way leads on from what is the case before it to what is
    the case after it. -/
def Going (c : Chart) (P : Phase → Session → Prop) : Prop :=
  ∀ {p q : Phase} {s t : Session}, P p s → Move c p s q t → p ≠ .rest → P q t

namespace Going

variable {P : Phase → Session → Prop} (hP : Going c P)

include hP

/-- Going on by itself until nothing is left to do is a sequence of moves. -/
theorem macroStep {fuel : Nat} (h : P .busy s) (ht : s.macroStep c fuel = some t) :
    P .rest ({ t with pending := [] }.finalStep c) := by
  induction fuel generalizing s with
  | zero => cases ht
  | succ fuel ih =>
    cases round_of_macroStep ht with
    | halted hr ht => exact ht ▸ hP h (.halt hr) nofun
    | stopped hr hn hr' => exact hP h (.cancel hr hn hr') nofun
    | @rested event u hr hn hr' hq ht =>
      subst ht
      have hrun : (u.startPending c).running = true := quiet_startPending.running.trans hr'
      rw [finalStep_of_running (s := { u.startPending c with pending := [] }) hrun]
      exact hP h (.settle hr hn hr' hq) nofun
    | again hr hn hr' hq ht => exact ih (hP h (.pause hr hn hr' hq) nofun) ht
    | taken hr hn hm ht => exact ih (hP (hP h (.choose hr hn) nofun) (.take hm) nofun) ht

theorem takeAndSettle {fuel : Nat} (h : P (.about event ts) { s with pending := [] })
    (ht : s.takeAndSettle c fuel event ts = some t) : P .rest (t.finalStep c) := by
  unfold Session.takeAndSettle at ht
  obtain ⟨s₁, h₁, ht⟩ := Option.bind_eq_some_iff.1 ht
  obtain ⟨s₂, h₂, ht⟩ := Option.bind_eq_some_iff.1 ht
  cases ht
  exact hP.macroStep (hP h (.take h₁) nofun) h₂

end Going

/-- What becomes of a session that is given an event from outside. -/
inductive Stepped (c : Chart) (fuel : Nat) (e : Event) (s t : Session) : Prop where
  | idle (hr : s.running = false) (ht : t = s)
  | stopped (hr : s.running = true) (he : e.isCancel = true)
      (ht : t = { s with running := false }.finalStep c)
  | ignored {u : Session} (hr : s.running = true) (he : e.isCancel = false)
      (hs : (s.answer c e).select c (some e.name) = ([], u)) (ht : t = u.finalStep c)
  | taken {u v : Session} {i : TransitionId} {is : List TransitionId} (hr : s.running = true)
      (he : e.isCancel = false) (hs : (s.answer c e).select c (some e.name) = (i :: is, u))
      (hv : u.takeAndSettle c fuel (some e) (i :: is) = some v) (ht : t = v.finalStep c)

theorem stepped_of_nextStep {fuel : Nat} (ht : s.nextStep c fuel e = some t) :
    Stepped c fuel e s t := by
  unfold Session.nextStep at ht
  split at ht
  case isFalse hr =>
    cases ht
    exact .idle (Bool.eq_false_iff.2 hr) rfl
  rename_i hr
  split at ht
  · rename_i he
    cases ht
    exact .stopped hr he rfl
  rename_i he
  have he : e.isCancel = false := Bool.eq_false_iff.2 he
  obtain ⟨s₁, h₁, rfl⟩ := Option.map_eq_some_iff.1 ht
  unfold respond at h₁
  dsimp only at h₁
  split at h₁
  · rename_i s' hs
    cases h₁
    exact .ignored hr he hs rfl
  · rename_i ts s' hne hs
    obtain ⟨u, us, rfl⟩ := List.exists_cons_of_ne_nil hne
    exact .taken hr he hs h₁ rfl

/-- Whether every move leads on from what is the case before it to what is the case after it. -/
def Closed (c : Chart) (P : Phase → Session → Prop) : Prop :=
  ∀ {p q : Phase} {s t : Session}, P p s → Move c p s q t → P q t

namespace Closed

variable {P : Phase → Session → Prop} (hP : Closed c P)

include hP

theorem going : Going c P := fun h hm _ => hP h hm

theorem takeAndSettle {fuel : Nat} (h : P (.about event ts) { s with pending := [] })
    (ht : s.takeAndSettle c fuel event ts = some t) : P .rest (t.finalStep c) :=
  Going.takeAndSettle hP.going h ht

/-- Working off an event from outside is a sequence of moves. -/
theorem nextStep {fuel : Nat} (h : P .rest s) (ht : s.nextStep c fuel e = some t) : P .rest t := by
  cases stepped_of_nextStep ht with
  | idle hr ht => exact ht ▸ h
  | stopped hr he ht => exact ht ▸ hP h (.stop e hr he)
  | ignored hr he hs ht => exact ht ▸ hP h (.ignore e hr he hs)
  | taken hr he hs hv ht => exact ht ▸ hP.takeAndSettle (hP h (.accept e hr he hs)) hv

end Closed

/-- Every run is a sequence of moves. -/
theorem Run.reaches (h : Run c s₀ s) : Reaches c s₀ .rest s := by
  induction h with
  | go h =>
    obtain ⟨s₁, h₁, rfl⟩ := Option.map_eq_some_iff.1 h
    exact Closed.takeAndSettle .move .go h₁
  | next _ ht ih => exact Closed.nextStep .move ih ht
  | equip _ chart invokers listeners sink outbox ih =>
    exact ih.move (.equip chart invokers listeners sink outbox)

/-- Starts a session and gives it events, one after the other. -/
def play (c : Chart) (fuel : Nat) (es : List Event) (s₀ : Session) : Option Session :=
  (s₀.firstStep c fuel).bind fun s => es.foldlM (fun s e => s.nextStep c fuel e) s

theorem Run.of_play {fuel : Nat} {es : List Event} (h : s₀.play c fuel es = some t) :
    Run c s₀ t := by
  have hnext : ∀ (es : List Event) (s : Session), Run c s₀ s →
      es.foldlM (fun s e => s.nextStep c fuel e) s = some t → Run c s₀ t := by
    intro es
    induction es with
    | nil =>
      intro s hs ht
      cases ht
      exact hs
    | cons e es ih =>
      intro s hs ht
      rw [List.foldlM_cons] at ht
      obtain ⟨s', hs', ht⟩ := Option.bind_eq_some_iff.1 ht
      exact ih s' (hs.next hs') ht
  obtain ⟨s, hs, ht⟩ := Option.bind_eq_some_iff.1 h
  exact hnext es s (.go hs) ht

/-- A session at rest that finds transitions for an event is about to take them. -/
theorem Reaches.accepted (h : Reaches c s₀ .rest s) (hr : s.running = true) (he : e.isCancel = false)
    (hne : ((s.answer c e).select c (some e.name)).1 ≠ []) :
    Reaches c s₀ (.about (some e) ((s.answer c e).select c (some e.name)).1)
      { ((s.answer c e).select c (some e.name)).2 with pending := [] } := by
  obtain ⟨⟨us, s'⟩, hselect⟩ : ∃ r, (s.answer c e).select c (some e.name) = r := ⟨_, rfl⟩
  rw [hselect] at hne ⊢
  obtain ⟨t, ts, rfl⟩ := List.exists_cons_of_ne_nil hne
  exact h.move (.accept e hr he hselect)

/-! ### What every move keeps -/

/-- What is the case when a session has selected transitions: only events, reports and variables have
    come in between, and the transitions can be taken together. -/
structure Selected (c : Chart) (s t : Session) (ts : List TransitionId) : Prop where
  leaves : t.store.leaves = s.store.leaves
  histories : t.store.histories = s.store.histories
  evaluator : t.evaluator = s.evaluator
  journal : Continues (fun e => (∀ l ∈ s.store.leaves, (c.node l).isTopLevelFinal = false) → e.Sound)
    s.journal.toList t.journal.toList
  stopped : s.running = false → t.running = false
  running : ts ≠ [] → t.running = s.running
  chosen : Chosen c (s.store.active c) ts

namespace Selected

variable {u : Session}

theorem of_select (hc : c.WellFormed) {name : Option String} (h : s.select c name = (ts, t)) :
    Selected c s t ts := by
  obtain ⟨hch, -, n, hn⟩ := select_spec hc h
  exact ⟨by rw [hn.store], by rw [hn.store], hn.evaluator, hn.journal, fun hr => hn.running.trans hr,
    fun _ => hn.running, hch⟩

theorem after_quiet (hq : Quiet s t) (h : Selected c t u ts) : Selected c s u ts where
  leaves := h.leaves.trans hq.leaves
  histories := h.histories.trans hq.histories
  evaluator := h.evaluator.trans hq.evaluator
  journal := (hq.journal.imp fun _ he _ => he).trans (hq.leaves ▸ h.journal)
  stopped hr := h.stopped (hq.running.trans hr)
  running hne := (h.running hne).trans hq.running
  chosen := by
    have := h.chosen
    rwa [Store.active, hq.leaves] at this

theorem of_nextInternal (hc : c.WellFormed) (h : s.nextInternal c = (event, ts, t)) :
    Selected c s t ts := by
  cases choice_of_nextInternal h with
  | eventless hs => exact of_select hc hs
  | idle hs => exact of_select hc hs
  | stop hs =>
    exact { of_select hc hs with stopped := fun _ => rfl, running := fun hne => (hne rfl).elim }
  | @next e queue _ _ u hs _ _ ht =>
    -- the search goes on from where the event has been presented
    obtain ⟨-, -, n, hn⟩ := select_spec hc hs
    have h₁ := of_select hc hs
    have h₂ := of_select hc ht
    refine ⟨h₂.leaves.trans h₁.leaves, h₂.histories.trans h₁.histories,
      h₂.evaluator.trans h₁.evaluator, h₁.journal.trans (h₁.leaves ▸ h₂.journal),
      fun hr => h₂.stopped (hn.running.trans hr), fun hne => (h₂.running hne).trans hn.running, ?_⟩
    have := h₂.chosen
    rwa [Store.active, show (({ u with queue } : Session).present
      (.ofEvent e true)).store.leaves = s.store.leaves from h₁.leaves] at this

end Selected

/-- What is selected for an internal event, or for none, are transitions of states. -/
theorem declared_of_nextInternal (hc : c.WellFormed) (h : s.nextInternal c = (event, ts, t)) :
    ∀ i ∈ ts, ∃ n, i ∈ (c.node n).transitions := by
  have declared {name : Option String} {u v : Session} {us : List TransitionId}
      (h : u.select c name = (us, v)) : ∀ i ∈ us, ∃ n, i ∈ (c.node n).transitions := fun i hi => by
    obtain ⟨n, -, hn⟩ := (select_spec hc h).2.1 i hi
    exact ⟨n, hn⟩
  cases choice_of_nextInternal h with
  | eventless hs => exact declared hs
  | idle | stop => nofun
  | next _ _ _ ht => exact declared ht

/-- The transitions that a session is about to take are the chart's own, at the start, or those of
    states. -/
theorem declared_of_reaches (hc : c.WellFormed) (h : Reaches c s₀ (.about event ts) s) :
    ts = [c.initial] ∨ ∀ i ∈ ts, ∃ n, i ∈ (c.node n).transitions := by
  cases h with
  | go => exact .inl rfl
  | move _ hm =>
    cases hm with
    | go => exact .inl rfl
    | accept e _ _ h =>
      refine .inr fun i hi => ?_
      obtain ⟨n, -, hn⟩ := (select_spec hc h).2.1 i hi
      exact ⟨n, hn⟩
    | choose _ hn => exact .inr (declared_of_nextInternal hc hn)

end Session
end Statechart
