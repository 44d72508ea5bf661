import Statechart.Proofs.Legal

/-! What histories remember of a run.

    A chronicle tells the steps that a session has taken since it was last started, each with the store
    it was taken in, and every session that is ever reached has one. Leaving a state records its
    histories, and nothing else does; all states of a step are left while the old configuration still
    counts. So a history's record is what was active at the start of the last step that left its state,
    and there is none before. A machine that stopped has a chronicle too: what it leaves at the end is
    not recorded. -/

namespace Statechart

open Chart Session

namespace Session

variable {c : Chart} {store : Store} {s₀ s t : Session} {h n x : NodeId} {p q : Phase} {step : Step}
  {event : Option Event} {ts : List TransitionId} {kind : HistoryKind}

/-! ### Records -/

/-- What a history comes to have recorded when states are left. -/
def filed (c : Chart) (store : Store) (left : List NodeId) (h : NodeId) : Option NodeSet :=
  match (c.node h).kind, (c.node h).parent with
  | .history kind, some n => if n ∈ left then some (recordOf c store n kind) else none
  | _, _ => none

theorem filed_of_history (hk : (c.node h).kind = .history kind) (hp : (c.node h).parent = some n)
    (left : List NodeId) :
    filed c store left h = if n ∈ left then some (recordOf c store n kind) else none := by
  simp only [filed, hk, hp]

/-- Only histories of states that are left record something. -/
theorem filed_nil : filed c store [] h = none := by
  unfold filed
  split <;> simp

theorem filed_congr {a b : Store} (h : a.leaves = b.leaves) (left : List NodeId) (k : NodeId) :
    filed c a left k = filed c b left k := by
  unfold filed
  split
  · rw [recordOf_congr h]
  · rfl

theorem filed_perm {left left' : List NodeId} (h : ∀ n, n ∈ left ↔ n ∈ left') (k : NodeId) :
    filed c store left k = filed c store left' k := by
  unfold filed
  split
  · simp only [h]
  · rfl

/-- What is left later is recorded beside what was left before. -/
theorem filed_cons (left : List NodeId) (k : NodeId) :
    (filed c store left k).or (filed c store [n] k) = filed c store (n :: left) k := by
  unfold filed
  split
  · rename_i kind m _ _
    by_cases hn : m = n
    · subst hn
      by_cases hl : m ∈ left <;> simp [hl]
    · by_cases hl : m ∈ left <;> simp [hl, hn]
  · rfl

/-- Every history of a list records the same state. -/
theorem recorded_foldl : ∀ (hs : List NodeId) (store : Store),
    (∀ k ∈ hs, (c.node k).parent = some n) →
    (hs.foldl (recordHistory c n) store).recorded? h =
      if h ∈ hs then (filed c store [n] h).or (store.recorded? h) else store.recorded? h
  | [], _, _ => by simp
  | k :: hs, store, hmem => by
    have hleaves : (recordHistory c n store k).leaves = store.leaves := by
      unfold recordHistory
      split <;> rfl
    have hk : (recordHistory c n store k).recorded? h =
        if h = k then (filed c store [n] h).or (store.recorded? h) else store.recorded? h := by
      unfold recordHistory
      by_cases e : h = k
      · subst e
        rw [if_pos rfl]
        cases hkind : (c.node h).kind with
        | history kind =>
          rw [filed_of_history hkind (hmem h (by simp))]
          simp
        | _ => simp [filed, hkind]
      · rw [if_neg e]
        split
        · exact Dict.get?_insert_of_ne e _ _
        · rfl
    rw [List.foldl_cons, recorded_foldl hs _ fun k hk => hmem k (List.mem_cons_of_mem _ hk), hk,
      filed_congr hleaves]
    by_cases e : h = k <;> by_cases hh : h ∈ hs <;> simp [e, hh]
    all_goals subst e
    all_goals cases filed c store [n] h <;> simp [hh]

variable (hc : c.WellFormed)

include hc

theorem recorded_leave (n : NodeId) :
    (s.leave c n).store.recorded? h = (filed c s.store [n] h).or (s.store.recorded? h) := by
  have hq : Quiet (s.recordHistories c n) (s.leave c n) := by
    obtain ⟨t, ht, e⟩ := leave_parts (c := c) (s := s) n
    rw [e]
    exact ht.quiet.trans (endProcesses_spec n).1
  have hhist : (s.leave c n).store.recorded? h = (s.recordHistories c n).store.recorded? h :=
    congrArg (Dict.get? h) hq.histories
  rw [hhist]
  refine (recorded_foldl (c.node n).histories s.store fun k hk => (hc.mem_histories.1 hk).1).trans ?_
  split
  · rfl
  · rename_i hnot
    suffices h : filed c s.store [n] h = none by rw [h, Option.none_or]
    unfold filed
    split
    · rename_i kind m hk hp
      rw [if_neg]
      intro hm
      rw [List.mem_singleton.1 hm] at hp
      exact hnot (hc.mem_histories.2 ⟨hp, by simp [Node.isHistory, hk]⟩)
    · rfl

/-- While states are left one after the other, every record is made of what was active at first. -/
theorem recorded_leave_foldl : ∀ (ns : List NodeId) (s : Session),
    (ns.foldl (leave c) s).store.recorded? h = (filed c s.store ns h).or (s.store.recorded? h)
  | [], s => by rw [filed_nil, Option.none_or]; rfl
  | n :: ns, s => by
    rw [List.foldl_cons, recorded_leave_foldl ns, recorded_leave hc,
      filed_congr (left_leave n).leaves, ← Option.or_assoc, filed_cons]

/-- A step records what was active at its start, for the states that it leaves. -/
theorem recorded_carryOut (step : Step) : (s.carryOut c step).store.recorded? h =
    (filed c s.store step.exit h).or (s.store.recorded? h) := by
  have htake : Quiet (s.leaveAll c step.exit)
      (step.transitions.foldl (take c step.eventName) (s.leaveAll c step.exit)) :=
    (Worked.foldl (fun _ i => worked_take _ i) _ _).quiet
  have henter := arrived_foldl (c := c) step.plan (c.sortDocument step.plan.entry)
    (step.transitions.foldl (take c step.eventName) (s.leaveAll c step.exit))
  have hhist := congrArg (Dict.get? h) (henter.histories.trans htake.histories)
  refine hhist.trans ((recorded_leave_foldl hc (c.sortReverse step.exit) s).trans ?_)
  have hexit : ∀ n, n ∈ c.sortReverse step.exit ↔ n ∈ step.exit := fun n => by
    rw [Chart.sortReverse, mem_stableSort]
  rw [filed_perm hexit]

omit hc

/-- What a history keeps of a configuration: the active leaves below its state if it is deep, the active
    children if it is shallow. -/
def Kept (c : Chart) (active : NodeSet) (owner : NodeId) : HistoryKind → NodeId → Prop
  | .deep, x => x ∈ active ∧ (c.node x).isAtomic = true ∧ c.descends x owner = true
  | .shallow, x => x ∈ active ∧ (c.node x).parent = some owner

include hc in
/-- An active leaf is one of the store's. -/
theorem mem_leaves_iff (hs : store.Whole c) :
    x ∈ store.leaves ↔ x ∈ store.active c ∧ (c.node x).isAtomic = true :=
  hc.mem_leaves_iff_atomic hs.leaf

include hc in
theorem mem_recordOf (hs : store.Whole c) :
    x ∈ recordOf c store n kind ↔ Kept c (store.active c) n kind x := by
  cases kind with
  | deep =>
    rw [recordOf, List.mem_filter, mem_leaves_iff hc hs, and_assoc]
    rfl
  | shallow =>
    rw [recordOf, NodeSet.mem_ofList, List.mem_filter, hc.mem_children, List.contains_iff_mem]
    exact ⟨fun h => ⟨h.2, h.1.1⟩, fun h => ⟨⟨h.2, (hs.complete x h.1).state⟩, h.1⟩⟩

/-! ### Moves -/

/-- What a move does that neither starts the machine nor takes transitions: histories stay as they are,
    and if it leaves states then all but the final ones at the top. -/
structure Keeps (c : Chart) (s t : Session) : Prop where
  histories : t.store.histories = s.store.histories
  leaves : t.store.leaves = s.store.leaves ∨
    t.store.leaves = s.store.leaves.filter fun l => (c.node l).isTopLevelFinal

theorem Selected.keeps {u : Session} (h : Selected c s t ts)
    (hu : u.store.leaves = t.store.leaves ∧ u.store.histories = t.store.histories) : Keeps c s u :=
  ⟨hu.2.trans h.histories, .inl (hu.1.trans h.leaves)⟩

theorem abandon_store (i : NodeId) : (s.abandon c i).store.histories = s.store.histories ∧
    (s.abandon c i).store.leaves =
      s.store.leaves.filter fun l => l ≠ i || (c.node l).isTopLevelFinal := by
  obtain ⟨t, ht, e⟩ := abandon_parts (c := c) (s := s) i
  have hq := ht.quiet
  rw [e]
  split <;> rename_i htop
  · refine ⟨hq.histories, hq.leaves.trans (Eq.symm ?_)⟩
    refine List.filter_eq_self.2 fun l _ => ?_
    by_cases e : l = i <;> simp [e, htop]
  · refine ⟨hq.histories, ?_⟩
    rw [mapStore, Store.deactivate, hq.leaves, NodeSet.eraseAll]
    refine List.filter_congr fun l _ => ?_
    by_cases e : l = i <;> simp [e, htop]

/-- A machine that has stopped leaves all but the final states at the top, and records nothing. -/
theorem finalStep_store (h : s.running = false) :
    (s.finalStep c).store.histories = s.store.histories ∧ (s.finalStep c).store.leaves =
      s.store.leaves.filter fun l => (c.node l).isTopLevelFinal := by
  have hall : ∀ (ns : List NodeId) (s : Session),
      (ns.foldl (abandon c) s).store.histories = s.store.histories ∧
      (ns.foldl (abandon c) s).store.leaves =
        s.store.leaves.filter fun l => l ∉ ns || (c.node l).isTopLevelFinal := by
    intro ns
    induction ns with
    | nil => exact fun s => ⟨rfl, by simp [List.filter_eq_self.2]⟩
    | cons n ns ih =>
      intro s
      obtain ⟨hh, hl⟩ := abandon_store (c := c) (s := s) n
      obtain ⟨hh', hl'⟩ := ih (s.abandon c n)
      refine ⟨hh'.trans hh, ?_⟩
      rw [List.foldl_cons, hl', hl, List.filter_filter]
      refine List.filter_congr fun l _ => ?_
      by_cases e : l = n
      · subst e
        by_cases e' : l ∈ ns <;> simp [e']
      · by_cases e' : l ∈ ns <;> simp [e, e']
  rw [finalStep, if_neg (by simp [h])]
  obtain ⟨hh, hl⟩ := hall (c.sortReverse (s.store.active c)) s
  refine ⟨hh, hl.trans ?_⟩
  refine List.filter_congr fun l hl => ?_
  have : l ∈ c.sortReverse (s.store.active c) := by
    rw [Chart.sortReverse, mem_stableSort]
    exact mem_closure_of_mem hl
  simp [this]

theorem keeps_finalStep (h : s.running = false) : Keeps c s (s.finalStep c) :=
  ⟨(finalStep_store h).1, .inr (finalStep_store h).2⟩

/-- Whether a move between two phases neither starts the machine nor takes transitions. -/
def Phase.Plain : Phase → Phase → Prop
  | .about _ _, _ => False
  | .rest, .about none _ => False
  | _, _ => True

include hc in
theorem keeps_move (hm : Move c p s q t) (hp : p.Plain q) : Keeps c s t := by
  have final {u v : Session} (hv : v.store.leaves = u.store.leaves ∧
      v.store.histories = u.store.histories) (hr : v.running = false) :
      Keeps c u (v.finalStep c) := by
    have hk := keeps_finalStep (c := c) hr
    exact ⟨hk.histories.trans hv.2, by rw [← hv.1]; exact hk.leaves⟩
  cases hm with
  | equip => exact ⟨rfl, .inl rfl⟩
  | go => exact hp.elim
  | stop e hr he => exact final ⟨rfl, rfl⟩ rfl
  | @ignore s s' e hr he hsel =>
    have hs := (Selected.of_select hc hsel).after_quiet (quiet_answer e)
    cases hr' : s'.running with
    | true =>
      rw [finalStep_of_running hr']
      exact hs.keeps ⟨rfl, rfl⟩
    | false => exact final ⟨hs.leaves, hs.histories⟩ hr'
  | accept e hr he hsel =>
    exact ((Selected.of_select hc hsel).after_quiet (quiet_answer e)).keeps ⟨rfl, rfl⟩
  | take => exact hp.elim
  | choose hr hn => exact (Selected.of_nextInternal hc hn).keeps ⟨rfl, rfl⟩
  | @pause s s' event hr hn hr' hq =>
    have hq := quiet_startPending (c := c) (s := s')
    exact (Selected.of_nextInternal hc hn).keeps ⟨hq.leaves, hq.histories⟩
  | @settle s s' event hr hn hr' hq =>
    have hq := quiet_startPending (c := c) (s := s')
    exact (Selected.of_nextInternal hc hn).keeps ⟨hq.leaves, hq.histories⟩
  | cancel hr hn hr' =>
    have hs := Selected.of_nextInternal hc hn
    exact final ⟨hs.leaves, hs.histories⟩ hr'
  | halt hr => exact final ⟨rfl, rfl⟩ hr

include hc in
/-- What is left when a machine has stopped is whole. -/
theorem Keeps.whole (h : Keeps c s t) (hs : s.store.Whole c) : t.store.Whole c := by
  rcases h.leaves with hl | hl
  · exact hs.congr hl h.histories
  have hmem {l : NodeId} (hl' : l ∈ t.store.leaves) :
      l ∈ s.store.leaves ∧ (c.node l).isTopLevelFinal = true := by
    rw [hl] at hl'
    exact List.mem_filter.1 hl'
  refine ⟨⟨fun l hl => hs.leaf l (hmem hl).1, ?_⟩, by rw [hl]; exact hs.sorted.filter _, ?_⟩
  · intro k R hR
    exact hs.recalls k R (by rwa [Store.recorded?, h.histories] at hR)
  · intro n hn
    obtain ⟨l, hl, hw⟩ := mem_closure_iff_covers.1 hn
    obtain ⟨hl, htop⟩ := hmem hl
    obtain ⟨hatom, hpar⟩ := WellFormed.atomic_of_topLevelFinal htop
    obtain rfl : l = n := hw.resolve_right (hc.not_descends_of_top hpar)
    have hcomp := hs.complete l (mem_closure_of_mem hl)
    have hfin : (c.node l).isFinal = true := by
      rw [Node.isTopLevelFinal, Bool.and_eq_true] at htop
      exact htop.1
    refine ⟨hcomp.lt, hcomp.state, ?_, ?_⟩
    all_goals
      intro hkind
      cases hk : (c.node l).kind <;> simp [Node.isFinal, Node.isCompound, Node.isParallel, hk]
        at hfin hkind

include hc in
/-- Taking transitions keeps the store whole. -/
theorem whole_taken (hs : s.store.Whole c) (hch : Chosen c (s.store.active c) ts)
    (h : s.microStep c event ts = some t) : t.store.Whole c := by
  obtain ⟨step, u, -, hu, -, -, hcar, hmoved, hsane, -⟩ := microStep_spec hc event hs.toSane hch
  rw [h] at hu
  cases hu
  exact ⟨hsane, hcar.sorted hs.sorted, hmoved.complete_after hc hs.complete⟩

omit hc in
theorem whole_restart : (s.restart c).store.Whole c := (Store.settled_start rfl rfl).whole

/-! ### Chronicles -/

/-- A step that was taken, and the store it was taken in. -/
structure Stage where
  before : Store
  step : Step

/-- The steps that led a session from its last start to where it stands, the last one first. -/
inductive Chronicle (c : Chart) (s₀ : Session) : List Stage → Phase → Session → Prop where
  | go : Chronicle c s₀ [] (.about none [c.initial]) { s₀.restart c with pending := [] }
  | again {past : List Stage} {s : Session} (h : Chronicle c s₀ past .rest s) :
      Chronicle c s₀ [] (.about none [c.initial]) { s.restart c with pending := [] }
  | take {past : List Stage} {event : Option Event} {ts : List TransitionId} {s : Session}
      {step : Step} (h : Chronicle c s₀ past (.about event ts) s)
      (hb : Step.build c s.store event ts = some step) :
      Chronicle c s₀ (⟨s.store, step⟩ :: past) .busy ((s.carryOut c step).publish c)
  | pass {past : List Stage} {p q : Phase} {s t : Session} (h : Chronicle c s₀ past p s)
      (hm : Move c p s q t) (hp : p.Plain q) : Chronicle c s₀ past q t

namespace Chronicle

variable {past : List Stage}

theorem reaches (h : Chronicle c s₀ past p s) : Reaches c s₀ p s := by
  induction h with
  | go => exact .go
  | again _ ih => exact ih.move .go
  | @take past event ts s step _ hb ih =>
    refine ih.move (.take ?_)
    rw [microStep, hb]
    rfl
  | pass _ hm _ ih => exact ih.move hm

/-- Every session that is ever reached has a chronicle. -/
theorem of_reaches (h : Reaches c s₀ p s) : ∃ past, Chronicle c s₀ past p s := by
  induction h with
  | go => exact ⟨[], .go⟩
  | move _ hm ih =>
    obtain ⟨past, ih⟩ := ih
    cases hm with
    | go => exact ⟨[], .again ih⟩
    | take hm =>
      obtain ⟨step, hb, rfl⟩ := Option.map_eq_some_iff.1 hm
      exact ⟨_, .take ih hb⟩
    | equip chart invokers listeners sink outbox => exact ⟨past, ih.pass (.equip ..) trivial⟩
    | stop e hr he => exact ⟨past, ih.pass (.stop e hr he) trivial⟩
    | ignore e hr he hsel => exact ⟨past, ih.pass (.ignore e hr he hsel) trivial⟩
    | accept e hr he hsel => exact ⟨past, ih.pass (.accept e hr he hsel) trivial⟩
    | choose hr hn => exact ⟨past, ih.pass (.choose hr hn) trivial⟩
    | pause hr hn hr' hq => exact ⟨past, ih.pass (.pause hr hn hr' hq) trivial⟩
    | settle hr hn hr' hq => exact ⟨past, ih.pass (.settle hr hn hr' hq) trivial⟩
    | cancel hr hn hr' => exact ⟨past, ih.pass (.cancel hr hn hr') trivial⟩
    | halt hr => exact ⟨past, ih.pass (.halt hr) trivial⟩

include hc

theorem whole (h : Chronicle c s₀ past p s) : s.store.Whole c := by
  induction h with
  | go => exact whole_restart
  | again => exact whole_restart
  | @take past event ts s step h hb ih =>
    have hp : Prepared c ts s := holds_of_reaches hc h.reaches
    have hm : s.microStep c event ts = some (s.carryOut c step) := by
      rw [microStep, hb]
      rfl
    have hq := quiet_publish (c := c) (s := s.carryOut c step)
    exact (whole_taken hc ih hp.chosen hm).congr hq.leaves hq.histories
  | pass _ hm hp ih => exact (keeps_move hc hm hp).whole hc ih

/-- A step of the past was taken in a whole store, and left what was active in it. -/
theorem of_mem (h : Chronicle c s₀ past p s) : ∀ g ∈ past, g.before.Whole c ∧
    (c.HistoriesAlone → g.before.Settled c) ∧ ∀ n ∈ g.step.exit, n ∈ g.before.active c := by
  induction h with
  | go => simp
  | again => simp
  | @take past event ts s step h hb ih =>
    intro g hg
    rcases List.mem_cons.1 hg with rfl | hg
    · have hp : Prepared c ts s := holds_of_reaches hc h.reaches
      refine ⟨h.whole hc, fun ha => (hp.settled ha).1, ?_⟩
      intro n hn
      obtain ⟨p, -, rfl⟩ := Option.map_eq_some_iff.1 hb
      obtain ⟨t, -, hn⟩ := Step.mem_exitOf.1 hn
      exact (mem_exitSet.1 hn).1
    · exact ih g hg
  | pass _ _ _ ih => exact ih

/-- A history has recorded what the last step that left its state gave it to record. -/
theorem recorded_eq (h : Chronicle c s₀ past p s) (k : NodeId) :
    s.store.recorded? k = past.findSome? fun g => filed c g.before g.step.exit k := by
  induction h with
  | go => rfl
  | again => rfl
  | @take past event ts s step h hb ih =>
    rw [List.findSome?_cons, ← ih]
    refine (recorded_carryOut hc step).trans ?_
    cases filed c s.store step.exit k <;> rfl
  | pass _ hm hp ih =>
    exact (congrArg (Dict.get? k) (keeps_move hc hm hp).histories).trans ih

/-- Whatever a history has recorded it recorded of a configuration of the past, with its state in it. -/
theorem exists_stage (h : Chronicle c s₀ past p s) {k : NodeId} {R : NodeSet}
    (hR : s.store.recorded? k = some R) : ∃ g ∈ past, ∃ n kind, (c.node k).kind = .history kind ∧
      (c.node k).parent = some n ∧ n ∈ g.before.active c ∧ R = recordOf c g.before n kind := by
  rw [h.recorded_eq hc] at hR
  obtain ⟨g, hg, hfiled⟩ := List.exists_of_findSome?_eq_some hR
  unfold filed at hfiled
  split at hfiled
  · rename_i kind n hk hp
    split at hfiled
    · rename_i hn
      exact ⟨g, hg, n, kind, hk, hp, (h.of_mem hc g hg).2.2 n hn, (Option.some.inj hfiled).symm⟩
    · cases hfiled
  · cases hfiled

/-- In terms of the configuration: a history has no record as long as no step has left its state, and
    from then on it has recorded what it keeps of the configuration that the last such step found. -/
theorem recorded_spec (h : Chronicle c s₀ past p s) (hk : (c.node x).kind = .history kind)
    (hp : (c.node x).parent = some n) :
    match past.find? fun g => decide (n ∈ g.step.exit) with
    | none => s.store.recorded? x = none
    | some g => n ∈ g.before.active c ∧ ∃ R, s.store.recorded? x = some R ∧
        ∀ m, m ∈ R ↔ Kept c (g.before.active c) n kind m := by
  rw [h.recorded_eq hc]
  have hmem := h.of_mem hc
  clear h
  induction past with
  | nil => rfl
  | cons g past ih =>
    simp only [List.find?_cons, List.findSome?_cons, filed_of_history hk hp]
    by_cases hn : n ∈ g.step.exit
    · obtain ⟨hw, -, hexit⟩ := hmem g (by simp)
      simp only [hn, decide_true, if_true]
      exact ⟨hexit n hn, _, rfl, fun m => mem_recordOf hc hw⟩
    · simp only [hn, decide_false, if_false]
      have := ih fun g hg => hmem g (List.mem_cons_of_mem _ hg)
      simpa only [filed_of_history hk hp] using this

end Chronicle

end Session
end Statechart
