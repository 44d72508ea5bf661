import Mathlib.Logic.Relation
import Statechart.Proofs.ListenerReplay
import Statechart.Proofs.MicrostepOrder
import Statechart.Proofs.ObservableNumbering
import Statechart.Proofs.ProcessesAtRest

/-! Who hears of what happens to a machine.

    A notice tells of one part of the chart: of a state that is entered or left, or of a transition that
    is taken. It is given at the observable of that part, and whoever is registered there is told, and
    whoever is registered with the chart. Since observables tell the parts of a chart apart, and from the
    chart, a listener hears of the parts that it is registered with and of no others, whatever is asked
    of a machine and also while it is still on its way. -/

namespace Statechart

open Chart

/-- The observable at which a notice is given. -/
def Notice.observable : Notice → Nat
  | .entered state => state.observable
  | .exited state => state.observable
  | .taken _ _ t _ => t.observable

/-- Whether a notice tells of a part of a chart. -/
inductive Notice.About (c : Chart) : Element → Notice → Prop where
  | entered {n : NodeId} (hn : n < c.nodes.size) : About c (.node n) (.entered (c.node n))
  | exited {n : NodeId} (hn : n < c.nodes.size) : About c (.node n) (.exited (c.node n))
  | taken {i : TransitionId} (hi : i < c.transitions.size) (source target : NodeId)
      (event : Option String) :
      About c (.transition i) (.taken (c.node source) (c.node target) (c.transition i) event)

/-- The notices of a step whose states are left and entered in a certain order. -/
def Notice.ofStep (c : Chart) (step : Step) (left entered : List NodeId) : List Notice :=
  left.map (fun n => .exited (c.node n)) ++
    step.transitions.flatMap (Notice.ofTransition c step.eventName) ++
    entered.map fun n => .entered (c.node n)

/-- Whether someone is registered with some parts of a chart only: wherever it is registered, that is the
    observable of one of them. -/
def Listeners.Confined (c : Chart) (l : Listener) (P : Element → Prop) (ls : Listeners) : Prop :=
  ∀ observable, l ∈ ls.of observable → ∃ e, P e ∧ c.Contains e ∧ c.observable e = observable

namespace Notice

variable {c : Chart} {name : String} {version : Nat} {d : Definition} {e e' : Element}
  {notice : Notice}

theorem About.spec (h : notice.About c e) :
    c.Contains e ∧ notice.observable = c.observable e := by
  cases h with
  | entered hn => exact ⟨hn, rfl⟩
  | exited hn => exact ⟨hn, rfl⟩
  | taken hi => exact ⟨hi, rfl⟩

/-- A notice tells of one part only. -/
theorem About.unique (hc : compile name version d = .ok c) (h : notice.About c e) :
    notice.About c e' ↔ e' = e := by
  constructor
  · intro h'
    exact observable_inj hc h'.spec.1 h.spec.1 (h'.spec.2.symm.trans h.spec.2)
  · rintro rfl
    exact h

theorem about_of_transition {event : Option String} {i : TransitionId} (hi : i < c.transitions.size)
    (h : notice ∈ Notice.ofTransition c event i) : notice.About c (.transition i) := by
  unfold Notice.ofTransition at h
  dsimp only at h
  split at h
  · obtain ⟨target, -, rfl⟩ := List.mem_map.1 h
    exact .taken hi _ target event
  · cases h

section

variable {step : Step} {left entered : List NodeId}
  (hts : ∀ i ∈ step.transitions, i < c.transitions.size)

include hts

theorem about_of_step (hleft : ∀ n ∈ left, n < c.nodes.size)
    (hentered : ∀ n ∈ entered, n < c.nodes.size) (h : notice ∈ Notice.ofStep c step left entered) :
    ∃ e, notice.About c e := by
  rcases List.mem_append.1 h with h | h
  · rcases List.mem_append.1 h with h | h
    · obtain ⟨n, hn, rfl⟩ := List.mem_map.1 h
      exact ⟨_, .exited (hleft n hn)⟩
    · obtain ⟨i, hi, h⟩ := List.mem_flatMap.1 h
      exact ⟨_, about_of_transition (hts i hi) h⟩
  · obtain ⟨n, hn, rfl⟩ := List.mem_map.1 h
    exact ⟨_, .entered (hentered n hn)⟩

/-- The rounds of a step give its notices, each at its own observable. -/
theorem inform_ofStep (ls : Listeners) :
    (Beat.rounds c step left entered).flatMap (Beat.notices ls) =
      (Notice.ofStep c step left entered).flatMap fun notice => ls.inform notice.observable notice := by
  have htaken : (step.transitions.flatMap fun i =>
      (Notice.ofTransition c step.eventName i).flatMap (ls.inform (c.transition i).observable)) =
      (step.transitions.flatMap (Notice.ofTransition c step.eventName)).flatMap
        fun notice => ls.inform notice.observable notice := by
    rw [List.flatMap_assoc]
    refine List.flatMap_congr fun i hi => List.flatMap_congr fun notice h => ?_
    exact congrArg (ls.inform · notice) (about_of_transition (hts i hi) h).spec.2.symm
  rw [Session.notices_rounds, htaken, ofStep, List.flatMap_append, List.flatMap_append,
    List.flatMap_map, List.flatMap_map]
  rfl

end
end Notice

namespace Listeners

variable {c : Chart} {name : String} {version : Nat} {d : Definition} {l k : Listener}
  {P : Element → Prop} {ls : Listeners} {e : Element}

theorem of_mem_of_add {observable other : Nat} (h : l ∈ (ls.add observable k).of other) :
    k = l ∧ observable = other ∨ l ∈ ls.of other := by
  unfold add at h
  split at h
  · exact .inr h
  · by_cases ho : other = observable
    · subst ho
      rw [of_insert_self, List.mem_append, List.mem_singleton] at h
      exact h.symm.imp_left fun e => ⟨e.symm, rfl⟩
    · rw [of, Dict.get?_insert_of_ne ho] at h
      exact .inr h

theorem confined_nil : Confined c l P [] := fun _ h => absurd h List.not_mem_nil

/-- Registering someone with a part. -/
theorem Confined.add (h : ls.Confined c l P) (he : c.Contains e) (hk : k = l → P e) :
    (ls.add (c.observable e) k).Confined c l P := by
  intro observable hm
  obtain ⟨hkl, ho⟩ | hm := of_mem_of_add hm
  · exact ⟨e, hk hkl, he, ho⟩
  · exact h observable hm

theorem mem_of_times {observable : Nat} (h : ls.times l observable ≠ 0) :
    l ∈ ls.of observable ∨ l ∈ ls.of chart := by
  by_cases hm : l ∈ ls.of observable
  · exact .inl hm
  · rw [times, List.count_eq_zero.2 hm, Nat.zero_add] at h
    exact .inr (List.count_pos_iff.1 (Nat.pos_of_ne_zero h))

/-- Whoever is registered with some parts only is told at the observables of those only. -/
theorem Confined.of_times (hc : compile name version d = .ok c) (h : ls.Confined c l P)
    (he : c.Contains e) (ht : ls.times l (c.observable e) ≠ 0) : P e := by
  rcases mem_of_times ht with hm | hm
  · obtain ⟨e', hp, he', ho⟩ := h _ hm
    exact observable_inj hc he' he ho ▸ hp
  · obtain ⟨e', -, he', ho⟩ := h _ hm
    exact absurd ho (observable_ne_chart hc he')

end Listeners

namespace Session

variable {c : Chart} {s t u : Session} {p q : Phase} {n : NodeId} {event : Option Event}
  {ts : List TransitionId} {l : Listener} {P : Element → Prop}

/-! ### What no one hears

    A machine can have taken a snapshot that no run could have left. What is done with its processes
    then need not be right for the states that are active, so it cannot be counted here by deeds, and
    the journal is looked at instead. -/

/-- Whether listeners are told nothing, and stay as they are. -/
structure Unheard (s t : Session) : Prop where
  notices : t.notices = s.notices
  listeners : t.listeners = s.listeners

namespace Unheard

theorem refl (s : Session) : Unheard s s := ⟨rfl, rfl⟩

theorem trans (h : Unheard s t) (h' : Unheard t u) : Unheard s u :=
  ⟨h'.notices.trans h.notices, h'.listeners.trans h.listeners⟩

theorem of_aside (h : Aside s t) : Unheard s t := ⟨h.notices, h.listeners⟩

theorem of_silent (h : Silent s t) : Unheard s t := .of_aside h.aside

theorem foldl {α : Type} {f : Session → α → Session} (h : ∀ s a, Unheard s (f s a)) (as : List α)
    (s : Session) : Unheard s (as.foldl f s) :=
  List.foldlRecOn as f (.refl s) fun t ht a _ => ht.trans (h t a)

end Unheard

theorem unheard_stop : Unheard s { s with running := false } := ⟨rfl, rfl⟩

theorem unheard_settle : Unheard s { s with pending := [] } := ⟨rfl, rfl⟩

theorem unheard_call (p : Process) (how : Call) : Unheard s (s.call p how).1 := by
  refine ⟨?_, rfl⟩
  rw [notices_eq, notices_eq, marks_call, List.filter_append]
  exact List.append_nil _

theorem unheard_cancelProcess (i : InvokeId) : Unheard s (s.cancelProcess i) := by
  have hcall (p : Process) :
      Unheard s ({ s with live := Dict.erase i s.live }.call p .stop).1 :=
    have hcall : Unheard { s with live := Dict.erase i s.live }
      ({ s with live := Dict.erase i s.live }.call p .stop).1 := unheard_call ..
    ⟨hcall.notices, hcall.listeners⟩
  cases dismissed_cancelProcess (s := s) i with
  | absent _ ht => rw [ht]; exact .refl s
  | stopped _ _ ht => rw [ht]; exact hcall _
  | failed _ _ ht => rw [ht]; exact (hcall _).trans (.of_silent (silent_raise (.inl rfl)))

theorem unheard_cancelProcesses (is : List InvokeId) : Unheard s (s.cancelProcesses is) :=
  .foldl (fun _ i => unheard_cancelProcess i) is s

theorem unheard_restart : Unheard s { s.restart c with pending := [] } :=
  have h : Unheard s ({ s with running := false } : Session).cancelAll :=
    unheard_stop.trans (unheard_cancelProcesses _)
  ⟨h.notices, h.listeners⟩

theorem unheard_start (i : InvokeId) : Unheard s (s.start c i) := by
  have hready := Unheard.of_silent (silent_readied (c := c) (s := s) i)
  cases launched_start (c := c) (s := s) i with
  | unsourced ht => rw [ht]; exact .of_silent (silent_fail ..)
  | unmade _ ht => rw [ht]; exact .of_silent (silent_raise (.inl rfl))
  | @begun p source params _ _ ht =>
    have hcall := hready.trans (unheard_call p (.start source params))
    rw [ht]
    exact ⟨hcall.notices, hcall.listeners⟩
  | refused _ _ ht =>
    rw [ht]
    exact (hready.trans (unheard_call ..)).trans (.of_silent (silent_raise (.inl rfl)))

theorem unheard_tellProcess (e : Event) (entry : InvokeId × Process) :
    Unheard s (s.tellProcess c e entry) := by
  cases informed_tellProcess (c := c) (s := s) e entry with
  | completed _ ht =>
    have hrun := aside_run (c := c) (s := s) (some (c.invoke entry.1).owner) (c.invoke entry.1).finalize
    rw [ht]
    exact ⟨hrun.notices, hrun.listeners⟩
  | forwarded _ _ ht => rw [ht]; exact unheard_call ..
  | refused _ _ ht =>
    rw [ht]
    exact (unheard_call ..).trans (.of_silent ((silent_report ..).trans (silent_raise (.inl rfl))))
  | spared _ _ ht => rw [ht]; exact .refl s

theorem unheard_answer (e : Event) : Unheard s (s.answer c e) :=
  have hseen : Unheard s (s.present (.ofEvent e false)) := .of_silent (silent_mapStore rfl rfl)
  hseen.trans (.foldl (fun _ entry => unheard_tellProcess e entry) _ _)

theorem unheard_startPending : Unheard s (s.startPending c) := by
  have h : Unheard s (s.startAll c s.pending) :=
    .foldl (fun s n => .foldl (fun _ i => unheard_start i) _ s) _ s
  exact h.trans unheard_settle

/-! ### What is told of parts -/

/-- What listeners are told of parts of a chart: whoever is registered with the part, and then whoever is
    registered with the chart. -/
def Informs (c : Chart) (s t : Session) : Prop :=
  ∃ ns : List Notice, (∀ notice ∈ ns, ∃ e, notice.About c e) ∧
    t.notices = s.notices ++ ns.flatMap fun notice => s.listeners.inform notice.observable notice

theorem Informs.of_eq (h : t.notices = s.notices) : Informs c s t :=
  ⟨[], fun _ hn => absurd hn List.not_mem_nil, h.trans (List.append_nil _).symm⟩

/-- Whether listeners stay as they are and are told of parts of a chart. -/
structure Broadcasts (c : Chart) (s t : Session) : Prop where
  informs : Informs c s t
  listeners : t.listeners = s.listeners

theorem Unheard.broadcasts (h : Unheard s t) : Broadcasts c s t := ⟨.of_eq h.notices, h.listeners⟩

namespace Broadcasts

theorem refl (s : Session) : Broadcasts c s s := (Unheard.refl s).broadcasts

theorem trans (h : Broadcasts c s t) (h' : Broadcasts c t u) : Broadcasts c s u := by
  obtain ⟨⟨ns, hns, htold⟩, hls⟩ := h
  obtain ⟨⟨ms, hms, htold'⟩, hls'⟩ := h'
  refine ⟨⟨ns ++ ms, List.forall_mem_append.2 ⟨hns, hms⟩, ?_⟩, hls'.trans hls⟩
  rw [htold', htold, hls, List.flatMap_append, List.append_assoc]

theorem trans_unheard (h : Broadcasts c s t) (h' : Unheard t u) : Broadcasts c s u :=
  h.trans h'.broadcasts

theorem foldl {α : Type} {f : Session → α → Session} {as : List α}
    (h : ∀ s, ∀ a ∈ as, Broadcasts c s (f s a)) (s : Session) : Broadcasts c s (as.foldl f s) :=
  List.foldlRecOn as f (.refl s) fun t ht a ha => ht.trans (h t a ha)

end Broadcasts

theorem broadcasts_notify {notice : Notice} {e : Element} (h : notice.About c e) (s : Session) :
    Broadcasts c s (s.notify notice.observable notice) := by
  obtain ⟨htold, hls⟩ := notices_perform (c := c) (s := s) (.notify notice.observable notice)
  refine ⟨⟨[notice], fun _ hn => ⟨e, List.mem_singleton.1 hn ▸ h⟩, ?_⟩, hls⟩
  rw [List.flatMap_singleton]
  exact htold

section

variable (hc : c.WellFormed) (hn : c.Closed)

include hc hn

/-- A step tells of the states that it leaves, of its transitions and of the states that it enters. -/
theorem broadcasts_microStep (h : s.Held c) (hts : ∀ i ∈ ts, c.Has i)
    (ht : s.microStep c event ts = some t) : Broadcasts c s t := by
  obtain ⟨step, hb, rfl⟩ := Option.map_eq_some_iff.1 ht
  obtain ⟨hexit, hentry⟩ := h.within_build hc hn hb
  have htransitions : ∀ i ∈ step.transitions, i < c.transitions.size := by
    obtain ⟨plan, -, rfl⟩ := Option.map_eq_some_iff.1 hb
    exact fun i hi => (hts i hi).1
  rw [carryOut_eq_rounds hc step hentry.has]
  obtain ⟨htold, hls⟩ := notices_foldl (c := c)
    (Beat.rounds c step (c.sortReverse step.exit) (c.sortDocument step.plan.entry)) s
  refine ⟨⟨Notice.ofStep c step (c.sortReverse step.exit) (c.sortDocument step.plan.entry), ?_, ?_⟩,
    hls⟩
  · exact fun _ => Notice.about_of_step htransitions (fun n hm => hexit n (mem_stableSort.1 hm))
      fun n hm => hentry.has n (mem_stableSort.1 hm)
  · rw [htold, Notice.inform_ofStep htransitions]

end

/-- Leaving a state of a machine that has stopped tells of that state. -/
theorem broadcasts_abandon (hlt : n < c.nodes.size) (s : Session) :
    Broadcasts c s (s.abandon c n) := by
  have hexit : Unheard s ((c.node n).onExit.foldl (fun s b => s.run c (some n) b.actions) s) :=
    .foldl (fun _ b => .of_aside (aside_run ..)) _ s
  have hended := hexit.trans (unheard_cancelProcesses (c.node n).invokes)
  have hleft : Broadcasts c s _ := hended.broadcasts.trans (broadcasts_notify (.exited hlt) _)
  unfold abandon
  dsimp only
  split
  · exact hleft
  · exact hleft.trans_unheard (.of_silent (silent_mapStore rfl rfl))

theorem broadcasts_finalStep (hn : c.Closed) (h : s.Held c) : Broadcasts c s (s.finalStep c) := by
  unfold finalStep
  split
  · exact .refl s
  · have hall : Broadcasts c s ((c.sortReverse (s.store.active c)).foldl (abandon c) s) :=
      .foldl (fun s n hm => broadcasts_abandon (h.active hn n (mem_stableSort.1 hm)) s) s
    exact hall.trans_unheard (.of_silent silent_publish)

theorem Unheard.final (hn : c.Closed) (h : Unheard s t) (ht : t.Held c) :
    Broadcasts c s (t.finalStep c) := h.broadcasts.trans (broadcasts_finalStep hn ht)

/-! ### Moves -/

section

variable (hc : c.WellFormed) (hn : c.Closed)

include hc hn

/-- Having seen an event from outside, and selected transitions for it. -/
theorem unheard_told {e : Event} (hs : s.Held c)
    (h : (s.answer c e).select c (some e.name) = (ts, t)) : Unheard s t ∧ t.Held c :=
  ⟨(unheard_answer e).trans (.of_silent (silent_of_select h)),
    (stirs_told hc hn hs h).1.held hc hn hs⟩

theorem unheard_nextInternal (hs : s.Held c) (h : s.nextInternal c = (event, ts, t)) :
    Unheard s t ∧ t.Held c :=
  ⟨.of_silent (silent_nextInternal h), (stirs_nextInternal hc hn h).1.held hc hn hs⟩

/-- Every move tells of parts of the chart, but for those of others. -/
theorem broadcasts_move (h : Grounded c p s) (hm : Move c p s q t) : Broadcasts c s t ∨
    p = .rest ∧ ∃ chart invokers listeners sink outbox,
      t = s.equip chart invokers listeners sink outbox := by
  have hs := h.held
  cases hm with
  | equip chart invokers listeners sink outbox =>
    exact .inr ⟨rfl, chart, invokers, listeners, sink, outbox, rfl⟩
  | go => exact .inl unheard_restart.broadcasts
  | stop e hr he => exact .inl (unheard_stop.final hn (Stir.held hc hn .stop hs))
  | ignore e hr he hsel =>
    obtain ⟨hu, hheld⟩ := unheard_told hc hn hs hsel
    exact .inl (hu.final hn hheld)
  | accept e hr he hsel =>
    exact .inl ((unheard_told hc hn hs hsel).1.trans unheard_settle).broadcasts
  | take hm =>
    have hstep := broadcasts_microStep hc hn hs (h.has _ _ rfl) hm
    exact .inl (hstep.trans_unheard (.of_silent silent_publish))
  | choose hr hnext => exact .inl (unheard_nextInternal hc hn hs hnext).1.broadcasts
  | pause hr hnext =>
    exact .inl ((unheard_nextInternal hc hn hs hnext).1.trans unheard_startPending).broadcasts
  | settle hr hnext =>
    have hu := (unheard_nextInternal hc hn hs hnext).1.trans (unheard_startPending (c := c))
    exact .inl (hu.trans unheard_settle).broadcasts
  | cancel hr hnext =>
    obtain ⟨hu, hheld⟩ := unheard_nextInternal hc hn hs hnext
    exact .inl ((hu.trans unheard_settle).final hn (Stir.held hc hn .settle hheld))
  | halt => exact .inl (unheard_settle.final hn (Stir.held hc hn .settle hs))

theorem informs_move (h : Grounded c p s) (hm : Move c p s q t) : Informs c s t := by
  obtain hb | ⟨-, chart, invokers, listeners, sink, outbox, rfl⟩ := broadcasts_move hc hn h hm
  · exact hb.informs
  · exact .of_eq rfl

/-- So does a session that goes on by itself. -/
theorem broadcasts_going {s₀ : Session} : Going c fun p t => Broadcasts c s₀ t ∧ Grounded c p t := by
  intro p q s t ⟨hb, hg⟩ hm hp
  refine ⟨?_, (stirs_move hc hn hg hm).1⟩
  obtain h | ⟨hrest, -⟩ := broadcasts_move hc hn hg hm
  · exact hb.trans h
  · exact absurd hrest hp

theorem broadcasts_firstStep {fuel : Nat} (ht : s.firstStep c fuel = some t) : Broadcasts c s t := by
  obtain ⟨u, hu, rfl⟩ := Option.map_eq_some_iff.1 ht
  exact (Going.takeAndSettle (broadcasts_going hc hn)
    ⟨unheard_restart.broadcasts, grounded_restart hc hn⟩ hu).1

theorem broadcasts_nextStep {fuel : Nat} {e : Event} (h : Grounded c .rest s)
    (ht : s.nextStep c fuel e = some t) : Broadcasts c s t := by
  have hs := h.held
  cases stepped_of_nextStep ht with
  | idle hr ht =>
    subst ht
    exact .refl _
  | stopped hr he ht =>
    subst ht
    exact unheard_stop.final hn (Stir.held hc hn .stop hs)
  | ignored hr he hsel ht =>
    subst ht
    obtain ⟨hu, hheld⟩ := unheard_told hc hn hs hsel
    exact hu.final hn hheld
  | @taken u v i is hr he hsel hv ht =>
    subst ht
    obtain ⟨hu, hheld⟩ := unheard_told hc hn hs hsel
    have hg : Grounded c (.about (some e) (i :: is)) { u with pending := [] } := by
      refine ⟨Stir.held hc hn .settle hheld, ?_, nofun⟩
      rintro _ _ ⟨⟩
      exact (stirs_told hc hn hs hsel).2.2
    have hu : Unheard s { u with pending := [] } := hu.trans unheard_settle
    exact (Going.takeAndSettle (broadcasts_going hc hn) ⟨hu.broadcasts, hg⟩ hv).1

end

/-! ### Listeners -/

/-- A listener is told of a part as often as it is registered with it and with the chart. -/
theorem heard_inform (ns : List Notice) (ls : Listeners) :
    (ns.flatMap fun notice => ls.inform notice.observable notice).filterMap (Entry.heard? l) =
      ns.flatMap fun notice => List.replicate (ls.times l notice.observable) notice := by
  rw [List.filterMap_flatMap]
  exact List.flatMap_congr fun notice _ => heard_notify l notice.observable notice ls

theorem heard_eq (s : Session) : s.heard l = s.notices.filterMap (Entry.heard? l) := by
  rw [heard, notices, List.filterMap_filter]
  refine List.filterMap_congr fun e _ => ?_
  cases e <;> rfl

/-- Whoever is registered with some parts only is told of those only. -/
theorem Informs.confined {name : String} {version : Nat} {d : Definition}
    (hc : compile name version d = .ok c) (h : Informs c s t) (hl : s.listeners.Confined c l P) :
    ∃ ns, t.heard l = s.heard l ++ ns ∧ ∀ notice ∈ ns, ∃ e, P e ∧ notice.About c e := by
  obtain ⟨ns, hns, htold⟩ := h
  refine ⟨_, by rw [heard_eq, heard_eq, htold, List.filterMap_append, heard_inform], ?_⟩
  intro notice hm
  obtain ⟨notice, hnotice, hm⟩ := List.mem_flatMap.1 hm
  obtain ⟨htimes, rfl⟩ := List.mem_replicate.1 hm
  obtain ⟨e, he⟩ := hns notice hnotice
  rw [he.spec.2] at htimes
  exact ⟨e, hl.of_times hc he.spec.1 htimes, he⟩

end Session

namespace Machine

open Session

variable {c : Chart} {m m' : Machine} {fuel : Nat} {error : Option MachineError} {s t : Session}
  {l : Listener} {P : Element → Prop}

/-! ### Requests -/

theorem unheard_absorb (m : Machine) : Unheard m.session m.absorb.session := by
  rw [absorb_eq]
  exact ⟨rfl, rfl⟩

theorem broadcasts_reset (hl : c.Compiles) (hchart : m.session.chart = some c)
    (h : m.reset fuel = some (m', error)) :
    Broadcasts c m.session m'.session ∧ m'.session.chart = some c := by
  obtain ⟨name, version, d, hcompile⟩ := hl
  have hc := wellFormed_of_compile hcompile
  obtain ⟨s, hs, rfl⟩ := exists_of_reset hchart h
  have hfirst : Broadcasts c m.session s := broadcasts_firstStep hc (closed_of_compile hcompile) hs
  refine ⟨hfirst.trans_unheard (unheard_absorb ⟨s, []⟩), ?_⟩
  rw [absorb_eq]
  exact (chart_firstStep hc hs).trans hchart

theorem broadcasts_workOff (hm : Indexed m.session) (hchart : m.session.chart = some c)
    (h : m.workOff c fuel = some m') :
    Broadcasts c m.session m'.session ∧ m'.session.chart = some c := by
  have next {fuel : Nat} {s t : Session} {e : Event} {inbox : EventQueue} (hi : Indexed s)
      (hchart : s.chart = some c) (hb : Broadcasts c m.session s) (ht : s.nextStep c fuel e = some t) :
      Broadcasts c m.session (absorb ⟨t, inbox⟩).session := by
    obtain ⟨name, version, d, hcompile⟩ := hi.compiles c hchart
    have hone : Broadcasts c s t := broadcasts_nextStep (wellFormed_of_compile hcompile)
      (closed_of_compile hcompile) (hi.grounded c hchart) ht
    exact (hb.trans hone).trans_unheard (unheard_absorb ⟨t, inbox⟩)
  obtain ⟨-, hchart', hb⟩ := hm.workOff_keeps next hchart (.refl _) h
  exact ⟨hb, hchart'⟩

theorem broadcasts_triggerEvents (hm : Indexed m.session) (hchart : m.session.chart = some c)
    (h : m.triggerEvents fuel = some (m', error)) :
    Broadcasts c m.session m'.session ∧ m'.session.chart = some c := by
  rcases triggerEvents_cases h with rfl | ⟨d, hd, h⟩
  · exact ⟨.refl _, hchart⟩
  · obtain rfl : c = d := Option.some.inj (hchart.symm.trans hd)
    exact broadcasts_workOff hm hchart h

section

variable (hchart : m'.session.chart = some c)

include hchart

theorem informs_reset (hm : Indexed m.session) (h : m.reset fuel = some (m', error)) :
    Informs c m.session m'.session := by
  cases hm' : m.session.chart with
  | some d =>
    obtain ⟨hb, hd⟩ := broadcasts_reset (hm.compiles d hm') hm' h
    rw [hd] at hchart
    cases hchart
    exact hb.informs
  | none =>
    rw [eq_of_reset hm' h]
    exact .of_eq (unheard_absorb ⟨m.session, []⟩).notices

theorem informs_setChart {d : Chart} (hl : d.Compiles) (h : m.setChart d fuel = some (m', error)) :
    Informs c m.session m'.session := by
  rcases setChart_cases h with ⟨-, h⟩ | ⟨-, rfl⟩
  · obtain ⟨hb, hd⟩ := broadcasts_reset hl rfl h
    rw [hd] at hchart
    cases hchart
    obtain ⟨ns, hns, htold⟩ := hb.informs
    exact ⟨ns, hns, htold⟩
  · exact .of_eq rfl

theorem informs_triggerEvents (hm : Indexed m.session) (h : m.triggerEvents fuel = some (m', error)) :
    Informs c m.session m'.session := by
  rcases triggerEvents_cases h with rfl | ⟨d, hm', h⟩
  · exact .of_eq rfl
  · obtain ⟨hb, hd⟩ := broadcasts_workOff hm hm' h
    rw [hd] at hchart
    cases hchart
    exact hb.informs

/-- Whatever is asked of a machine, listeners are told of parts of the chart that it then has. -/
theorem informs_ask {op : Operation} (hm : Indexed m.session)
    (hl : ∀ c, op = .setChart c → c.Compiles) (h : m.ask fuel op = some m') : Informs c m.session m'.session := by
  have hclear : Unheard m.session (clear m.session) :=
    have hall := unheard_cancelProcesses (s := m.session) (Dict.keys m.session.live)
    ⟨hall.notices, hall.listeners⟩
  cases outcome_of_ask h with
  | setChart hr => exact informs_setChart hchart (hl _ rfl) hr
  | reset hr => exact informs_reset hchart hm hr
  | work hn hr =>
    have htold := informs_triggerEvents hchart (hn ▸ hm) hr
    rwa [hn] at htold
  | detach hr =>
    obtain ⟨d, -, rfl⟩ := exists_of_detach hr
    exact .of_eq ((unheard_absorb ⟨_, m.inbox⟩).notices.trans hclear.notices)
  | attach hr =>
    obtain ⟨d, store, -, -, rfl⟩ := exists_of_attach hr
    exact .of_eq ((unheard_absorb ⟨_, m.inbox⟩).notices.trans hclear.notices)
  | equip invokers listeners sink _ hr =>
    rw [hr]
    exact .of_eq rfl

end

/-- What happens to the session of a machine on a chart: it makes a move, on its way from a rest, or
    something is asked of the machine. -/
inductive Happens (c : Chart) : Session → Session → Prop where
  | move {m : Machine} {p q : Phase} {s t : Session} (hm : Handled m)
      (hchart : m.session.chart = some c) (ho : Onward c .rest m.session p s) (h : Move c p s q t) :
      Happens c s t
  | ask {m m' : Machine} {fuel : Nat} {op : Operation} (hm : Handled m)
      (hl : ∀ d, op = .setChart d → d.Compiles) (h : m.ask fuel op = some m')
      (hchart : m'.session.chart = some c) : Happens c m.session m'.session

theorem Happens.informs (h : Happens c s t) : Informs c s t := by
  cases h with
  | move hm hchart ho h =>
    obtain ⟨name, version, d, hcompile⟩ := hm.indexed.compiles c hchart
    have hc := wellFormed_of_compile hcompile
    have hn := closed_of_compile hcompile
    exact informs_move hc hn (wanders_onward hc hn (hm.indexed.grounded c hchart) ho).2 h
  | ask hm hl h hchart => exact informs_ask hchart hm.indexed hl h

/-- What happens while someone is registered with some parts of a chart only. -/
def HappensTo (c : Chart) (l : Listener) (P : Element → Prop) (s t : Session) : Prop :=
  s.listeners.Confined c l P ∧ Happens c s t

/-- Whoever is registered with some parts only is told of those only, whatever happens. -/
theorem heard_of_happens {name : String} {version : Nat} {d : Definition}
    (hc : compile name version d = .ok c) (h : Relation.ReflTransGen (HappensTo c l P) s t) :
    ∃ ns, t.heard l = s.heard l ++ ns ∧ ∀ notice ∈ ns, ∃ e, P e ∧ notice.About c e := by
  induction h with
  | refl => exact ⟨[], (List.append_nil _).symm, fun _ hm => absurd hm List.not_mem_nil⟩
  | tail _ hlast ih =>
    obtain ⟨ns, hheard, hns⟩ := ih
    obtain ⟨ms, hheard', hms⟩ := hlast.2.informs.confined hc hlast.1
    refine ⟨ns ++ ms, by rw [hheard', hheard, List.append_assoc], ?_⟩
    exact List.forall_mem_append.2 ⟨hns, hms⟩

/-- The observables of a chart that loads count its states, histories and transitions, each of them once,
    from one to as many as there are, in the order of a walk through it; so they tell all of them apart,
    and from the chart. Whoever is registered with some of them only hears of these and of no others,
    whatever happens. -/
theorem apart_of_load {name : String} {version : Nat} {v : Value}
    (hl : Chart.load name version v = .ok c) :
    (c.nodes.toList.map Node.observable ++ c.transitions.toList.map Transition.observable).Perm
      (List.range' 1 (c.nodes.size + c.transitions.size)) ∧
    (∃ es, c.Tour c.children es ∧ (.transition c.initial :: es).map c.observable =
        List.range' 1 (c.nodes.size + c.transitions.size) ∧
      ∀ e, e ∈ Element.transition c.initial :: es ↔ c.Contains e) ∧
    (∀ e, c.Contains e → c.observable e ≠ Listeners.chart ∧
      ∀ e', c.Contains e' → c.observable e' = c.observable e → e' = e) ∧
    ∀ l P s t, Relation.ReflTransGen (HappensTo c l P) s t → ∃ ns, t.heard l = s.heard l ++ ns ∧
      ∀ notice ∈ ns, ∃ e, P e ∧ ∀ e', notice.About c e' ↔ e' = e := by
  have hcompile := (compile_of_load hl).choose_spec
  refine ⟨?_, tour_of_compile hcompile, fun e he => ⟨observable_ne_chart hcompile he, fun e' he' =>
    observable_inj hcompile he' he⟩, fun l P s t h => ?_⟩
  · rw [← map_observable_elements]
    exact perm_observable hcompile
  · obtain ⟨ns, hheard, hns⟩ := heard_of_happens hcompile h
    refine ⟨ns, hheard, fun notice hm => ?_⟩
    obtain ⟨e, he, habout⟩ := hns notice hm
    exact ⟨e, he, fun e' => habout.unique hcompile⟩

/-- Someone who looks on. -/
def onlooker : Listener := .named "onlooker"

/-- Who listens to the lamp: the watcher is registered with its bright bulb, and the onlooker with the
    transition by which it is switched on. -/
def lampListeners : Listeners :=
  Listeners.add (lampChart.observable (.transition 0)) onlooker
    (Listeners.add (lampChart.observable (.node 5)) watcher [])

/-- The lamp when they have been registered. -/
def watchedLamp : Machine :=
  { session := newLamp.equip (some lampChart) [] lampListeners .own [], inbox := [] }

/-- The lamp when it has been started. -/
def startedLamp : Machine := ((watchedLamp.reset 10).get (by decide +kernel)).1

/-- How the lamp is used: it is switched on, turned bright, switched off and on again. -/
def lampUse : List Event := ["push", "turn", "push", "push"].map .signal

/-- The lamp when it has been used. -/
def pushedLamp : Machine := ((startedLamp.triggerAll lampUse 10).get (by decide +kernel)).1

theorem happens_lamp (h : lampListeners.Confined lampChart l P) :
    Relation.ReflTransGen (HappensTo lampChart l P) watchedLamp.session pushedLamp.session := by
  have hwatched : Handled watchedLamp :=
    .furnished (.of_load load_lamp) (.ofSeed 0 0) [] lampListeners .own
  have hstart : watchedLamp.ask 10 .reset = some startedLamp :=
    congrArg (Option.map Prod.fst) (Option.some_get _).symm
  have huse : startedLamp.ask 10 (.triggerAll lampUse) = some pushedLamp :=
    congrArg (Option.map Prod.fst) (Option.some_get _).symm
  have hstarted : Handled startedLamp := hwatched.ask .reset nofun hstart
  obtain ⟨hb, hchart⟩ := broadcasts_reset (.of_load load_lamp) rfl
    (show watchedLamp.reset 10 = some (startedLamp, _) from (Option.some_get _).symm)
  obtain ⟨-, hchart'⟩ := broadcasts_triggerEvents
    (m := lampUse.foldl (fun m e => m.enqueue e) startedLamp) hstarted.indexed hchart
    (show startedLamp.triggerAll lampUse 10 = some (pushedLamp, _) from (Option.some_get _).symm)
  have hls : startedLamp.session.listeners = lampListeners := hb.listeners
  exact .tail (.single ⟨h, .ask hwatched (by rintro _ ⟨⟩) hstart hchart⟩)
    ⟨hls.symm ▸ h, .ask hstarted (by rintro _ ⟨⟩) huse hchart'⟩

/-- The watcher hears that the bulb becomes bright, is no longer bright and is bright again; the onlooker
    hears twice that the lamp is switched on; and neither hears anything else. -/
theorem apart_lamp :
    (lampChart.nodes.toList.map Node.observable ++
      lampChart.transitions.toList.map Transition.observable).Perm (List.range' 1 16) ∧
    (pushedLamp.session.heard watcher).length = 3 ∧
    (∀ notice ∈ pushedLamp.session.heard watcher,
      ∀ e, notice.About lampChart e ↔ e = .node 5) ∧
    (pushedLamp.session.heard onlooker).length = 2 ∧
    ∀ notice ∈ pushedLamp.session.heard onlooker,
      ∀ e, notice.About lampChart e ↔ e = .transition 0 := by
  obtain ⟨hperm, -, -, hheard⟩ := apart_of_load load_lamp
  have only {l : Listener} {e : Element} (hl : lampListeners.Confined lampChart l (· = e))
      (hnew : watchedLamp.session.heard l = []) :
      ∀ notice ∈ pushedLamp.session.heard l, ∀ e', notice.About lampChart e' ↔ e' = e := by
    obtain ⟨ns, hns, hall⟩ := hheard l (· = e) _ _ (happens_lamp hl)
    rw [hnew, List.nil_append] at hns
    intro notice hm
    obtain ⟨_, rfl, habout⟩ := hall notice (hns ▸ hm)
    exact habout
  have hbright : lampChart.Contains (.node 5) := show 5 < lampChart.nodes.size by decide +kernel
  have hpush : lampChart.Contains (.transition 0) :=
    show 0 < lampChart.transitions.size by decide +kernel
  have hwatcher : lampListeners.Confined lampChart watcher (· = .node 5) :=
    .add (.add Listeners.confined_nil hbright fun _ => rfl) hpush (by decide)
  have honlooker : lampListeners.Confined lampChart onlooker (· = .transition 0) :=
    .add (.add Listeners.confined_nil hbright (by decide)) hpush fun _ => rfl
  have hsize : lampChart.nodes.size + lampChart.transitions.size = 16 := by decide +kernel
  rw [hsize] at hperm
  exact ⟨hperm, by decide +kernel, only hwatcher rfl, by decide +kernel, only honlooker rfl⟩

end Machine
end Statechart
