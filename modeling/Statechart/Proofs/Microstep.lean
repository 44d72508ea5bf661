import Statechart.Proofs.Regular

/-! Carrying out a step, as far as the configuration is concerned.

    While states are left the active leaves stay, so every record is made of the configuration before the
    step; then the leaves that are left go and the entered ones come. A step whose transitions can be
    taken together therefore changes the active states as `Moved` says, and if all is regular before and
    the records agree with it, so it is after. -/

namespace Statechart

open Chart

variable {c : Chart}

namespace Session

variable {s t u : Session} {h n : NodeId} {R : NodeSet}

/-! ### Leaving -/

/-- Whether a record is what a history records of a configuration. -/
def Recorded (c : Chart) (store : Store) (h : NodeId) (R : NodeSet) : Prop :=
  ∃ n kind, h ∈ (c.node n).histories ∧ (c.node h).kind = .history kind ∧ R = recordOf c store n kind

theorem recordOf_congr {a b : Store} (h : a.leaves = b.leaves) (n : NodeId) (kind : HistoryKind) :
    recordOf c a n kind = recordOf c b n kind := by
  cases kind <;> simp only [recordOf, Store.active, h]

theorem Recorded.congr {a b : Store} (h : a.leaves = b.leaves) {k : NodeId} (hR : Recorded c a k R) :
    Recorded c b k R := by
  obtain ⟨n, kind, hn, hk, e⟩ := hR
  exact ⟨n, kind, hn, hk, e.trans (recordOf_congr h n kind)⟩

/-- What leaving states does to a session: histories may record what is active. -/
structure Left (c : Chart) (s t : Session) : Prop where
  follows : Follows s t
  leaves : t.store.leaves = s.store.leaves
  running : t.running = s.running
  records : ∀ h R, t.store.recorded? h = some R →
    s.store.recorded? h = some R ∨ Recorded c s.store h R

namespace Left

theorem of_quiet (h : Quiet s t) : Left c s t where
  follows := h.toFollows
  leaves := h.leaves
  running := h.running
  records k R hR := .inl (by rwa [Store.recorded?, h.histories] at hR)

theorem trans (h : Left c s t) (h' : Left c t u) : Left c s u where
  follows := h.follows.trans h'.follows
  leaves := h'.leaves.trans h.leaves
  running := h'.running.trans h.running
  records k R hR := by
    rcases h'.records k R hR with hR | hR
    · exact h.records k R hR
    · exact .inr (hR.congr h.leaves)

theorem foldl {α : Type} {f : Session → α → Session} (h : ∀ s a, Left c s (f s a)) (as : List α)
    (s : Session) : Left c s (as.foldl f s) :=
  List.foldlRecOn as f (.of_quiet (.refl s)) fun t ht a _ => ht.trans (h t a)

end Left

/-- Recording histories one after the other. -/
theorem foldl_recordHistory : ∀ (hs : List NodeId) (store : Store),
    (∀ h ∈ hs, h ∈ (c.node n).histories) →
      (hs.foldl (recordHistory c n) store).leaves = store.leaves ∧
      ∀ h R, (hs.foldl (recordHistory c n) store).recorded? h = some R →
        store.recorded? h = some R ∨ Recorded c store h R
  | [], _, _ => ⟨rfl, fun _ _ hR => .inl hR⟩
  | k :: hs, store, hmem => by
    obtain ⟨hl, hr⟩ : (recordHistory c n store k).leaves = store.leaves ∧
        ∀ h R, (recordHistory c n store k).recorded? h = some R →
          store.recorded? h = some R ∨ Recorded c store h R := by
      unfold recordHistory
      split
      · rename_i kind hkind
        refine ⟨rfl, ?_⟩
        intro h R hR
        by_cases e : h = k
        · subst e
          rw [Store.recorded?_record] at hR
          exact .inr ⟨n, kind, hmem h (by simp), hkind, (Option.some.inj hR).symm⟩
        · exact .inl ((Dict.get?_insert_of_ne e _ _).symm.trans hR)
      · exact ⟨rfl, fun _ _ hR => .inl hR⟩
    obtain ⟨hl', hr'⟩ := foldl_recordHistory hs (recordHistory c n store k)
      fun h hh => hmem h (List.mem_cons_of_mem _ hh)
    refine ⟨hl'.trans hl, ?_⟩
    intro h R hR
    rcases hr' h R hR with hR | hR
    · exact hr h R hR
    · exact .inr (hR.congr hl)

theorem name_recordHistories (n : NodeId) :
    (s.recordHistories c n).store.sessionId = s.store.sessionId := by
  refine List.foldlRecOn (motive := fun store : Store => store.sessionId = s.store.sessionId) _ _ rfl
    fun store h k _ => ?_
  unfold recordHistory
  split <;> exact h

theorem left_leave (n : NodeId) : Left c s (s.leave c n) := by
  obtain ⟨hl, hr⟩ := foldl_recordHistory (c := c) (c.node n).histories s.store fun _ hh => hh
  have hrec : Left c s (s.recordHistories c n) :=
    ⟨⟨.refl _, rfl, rfl, name_recordHistories n⟩, hl, rfl, hr⟩
  obtain ⟨t, ht, e⟩ := leave_parts (c := c) (s := s) n
  rw [e]
  exact hrec.trans (.of_quiet (ht.quiet.trans (endProcesses_spec n).1))

/-- What leaving states and then forgetting them does to a session. -/
theorem leaveAll_spec (exit : NodeSet) :
    ∃ t, Left c s t ∧ s.leaveAll c exit = t.mapStore (Store.deactivate (c.sortReverse exit)) :=
  ⟨_, Left.foldl (fun _ n => left_leave n) _ s, rfl⟩

/-! ### Entering -/

/-- What entering states does to a session: leaves among them become active, and one that is final and
    at the top stops the machine. -/
structure Arrived (c : Chart) (ns : List NodeId) (s t : Session) : Prop where
  follows : Follows s t
  leaves : ∀ m, m ∈ t.store.leaves ↔
    m ∈ s.store.leaves ∨ m ∈ ns ∧ (c.node m).isAtomic = true
  sorted : s.store.leaves.Pairwise (· < ·) → t.store.leaves.Pairwise (· < ·)
  histories : t.store.histories = s.store.histories
  running : t.running = (s.running && !ns.any fun n => (c.node n).isTopLevelFinal)

theorem Arrived.trans {ms ns : List NodeId} (h : Arrived c ms s t) (h' : Arrived c ns t u) :
    Arrived c (ms ++ ns) s u where
  follows := h.follows.trans h'.follows
  leaves m := by
    rw [h'.leaves, h.leaves, List.mem_append, or_and_right, or_assoc]
  sorted hs := h'.sorted (h.sorted hs)
  histories := h'.histories.trans h.histories
  running := by rw [h'.running, h.running, List.any_append, Bool.not_or, Bool.and_assoc]

theorem arrived_finish (i : NodeId) :
    Follows s (s.finish c (c.node i)) ∧ (s.finish c (c.node i)).store.leaves = s.store.leaves ∧
      (s.finish c (c.node i)).store.histories = s.store.histories ∧
      (s.finish c (c.node i)).running = (s.running && !(c.node i).isTopLevelFinal) := by
  unfold finish
  cases hf : (c.node i).isFinal with
  | false => exact ⟨.refl s, rfl, rfl, by simp [Node.isTopLevelFinal, hf]⟩
  | true =>
    rw [if_pos rfl]
    cases hp : (c.node i).parent with
    | none => exact ⟨⟨.refl _, rfl, rfl, rfl⟩, rfl, rfl, by simp [Node.isTopLevelFinal, hf, hp]⟩
    | some parent =>
      have h := (worked_raiseDone (c := c) (s := s) parent).quiet
      refine ⟨h.toFollows, h.leaves, h.histories, h.running.trans ?_⟩
      simp [Node.isTopLevelFinal, hp]

/-- Making a state an active leaf if it is one. -/
def light (c : Chart) (i : NodeId) (s : Session) : Session :=
  if (c.node i).isAtomic then s.mapStore (Store.activate i) else s

theorem arrived_light (i : NodeId) :
    Follows s (s.light c i) ∧ (s.light c i).store.histories = s.store.histories ∧
      (s.light c i).running = s.running ∧
      (s.store.leaves.Pairwise (· < ·) → (s.light c i).store.leaves.Pairwise (· < ·)) ∧
      ∀ m, m ∈ (s.light c i).store.leaves ↔
        m ∈ s.store.leaves ∨ m ∈ [i] ∧ (c.node m).isAtomic = true := by
  unfold light
  split
  · rename_i ha
    refine ⟨⟨.refl _, rfl, rfl, rfl⟩, rfl, rfl, NodeSet.pairwise_insert, ?_⟩
    intro m
    rw [mapStore, Store.mem_leaves_activate, List.mem_singleton, or_comm]
    exact or_congr_right ⟨fun e => ⟨e, e ▸ ha⟩, And.left⟩
  · rename_i ha
    refine ⟨.refl s, rfl, rfl, id, fun m => ⟨.inl, ?_⟩⟩
    rintro (hm | ⟨hm, hma⟩)
    · exact hm
    · rw [List.mem_singleton.1 hm] at hma
      exact absurd hma ha

/-- Between its leaf and its end, the entry of a state gives it its variables and runs content. -/
theorem enterState_parts (plan : EntryPlan) (i : NodeId) :
    ∃ t u, Quiet (s.light c i) t ∧ t.store = (s.light c i).store.ensureContext c i ∧ Worked t u ∧
      s.enterState c plan i = u.finish c (c.node i) := by
  have hstore : Quiet (s.light c i) ((s.light c i).mapStore (Store.ensureContext c i)) := by
    refine quiet_mapStore ?_
    unfold Store.ensureContext
    split <;> exact ⟨rfl, rfl, rfl⟩
  refine ⟨_, _, hstore.trans ?_, ?_, (worked_runBlocks ..).trans
    ((worked_notify ..).trans (worked_runDefaults plan (c.node i))), rfl⟩
  · split
    · exact .refl _
    · exact .of_eq ⟨rfl, rfl, rfl⟩ rfl rfl rfl rfl rfl
  · split <;> rfl

theorem arrived_enterState (plan : EntryPlan) (i : NodeId) :
    Arrived c [i] s (s.enterState c plan i) := by
  obtain ⟨hf, hh, hr, hsort, hmem⟩ := arrived_light (c := c) (s := s) i
  obtain ⟨u, t, hu, -, hw, e⟩ := enterState_parts (c := c) (s := s) plan i
  have hq := hu.trans hw.quiet
  obtain ⟨hf', hl', hh', hr'⟩ := arrived_finish (c := c) (s := t) i
  rw [e]
  refine ⟨hf.trans (hq.toFollows.trans hf'), ?_, ?_, ?_, ?_⟩
  · intro m
    rw [hl', hq.leaves, hmem]
  · intro hs
    rw [hl', hq.leaves]
    exact hsort hs
  · rw [hh', hq.histories, hh]
  · rw [hr', hq.running, hr, List.any_cons, List.any_nil, Bool.or_false]

/-- Entering states one after the other. -/
theorem arrived_foldl (plan : EntryPlan) : ∀ (ns : List NodeId) (s : Session),
    Arrived c ns s (ns.foldl (enterState c plan) s)
  | [], s => ⟨.refl s, by simp, id, rfl, by simp⟩
  | n :: ns, s => (arrived_enterState plan n).trans (arrived_foldl plan ns _)

/-! ### The whole step -/

/-- What carrying out a step does to a session. -/
structure Carried (c : Chart) (step : Step) (s t : Session) : Prop where
  follows : Follows s t
  leaves : ∀ m, m ∈ t.store.leaves ↔
    m ∈ s.store.leaves ∧ m ∉ step.exit ∨ m ∈ step.plan.entry ∧ (c.node m).isAtomic = true
  sorted : s.store.leaves.Pairwise (· < ·) → t.store.leaves.Pairwise (· < ·)
  records : ∀ h R, t.store.recorded? h = some R →
    s.store.recorded? h = some R ∨ Recorded c s.store h R
  running : t.running = (s.running && !step.plan.entry.any fun n => (c.node n).isTopLevelFinal)

/-- Once its transitions have been taken the leaves that a step leaves are gone. -/
theorem leaves_taken (step : Step) : (step.transitions.foldl (take c step.eventName)
    (s.leaveAll c step.exit)).store.leaves = NodeSet.eraseAll s.store.leaves (c.sortReverse step.exit) := by
  obtain ⟨t, hleft, e⟩ := leaveAll_spec (c := c) (s := s) step.exit
  have htake : Quiet (s.leaveAll c step.exit)
      (step.transitions.foldl (take c step.eventName) (s.leaveAll c step.exit)) :=
    (Worked.foldl (fun _ i => worked_take _ i) _ _).quiet
  rw [htake.leaves, e, mapStore, Store.deactivate, hleft.leaves]

theorem carried_carryOut (step : Step) : Carried c step s (s.carryOut c step) := by
  obtain ⟨t, hleft, e⟩ := leaveAll_spec (c := c) (s := s) step.exit
  have htake : Quiet (s.leaveAll c step.exit)
      (step.transitions.foldl (take c step.eventName) (s.leaveAll c step.exit)) :=
    (Worked.foldl (fun _ i => worked_take _ i) _ _).quiet
  have henter := arrived_foldl (c := c) step.plan (c.sortDocument step.plan.entry)
    (step.transitions.foldl (take c step.eventName) (s.leaveAll c step.exit))
  have hany : ((c.sortDocument step.plan.entry).any fun n => (c.node n).isTopLevelFinal) =
      step.plan.entry.any fun n => (c.node n).isTopLevelFinal := (stableSort_perm _ _).any_eq
  have hleave : Follows s (s.leaveAll c step.exit) := by
    rw [e]
    exact hleft.follows.trans ⟨.refl _, rfl, rfl, rfl⟩
  have hleaves := leaves_taken (c := c) (s := s) step
  refine ⟨hleave.trans (htake.toFollows.trans henter.follows), ?_, ?_,
    ?_, ?_⟩
  · intro m
    refine (henter.leaves m).trans ?_
    rw [hleaves, NodeSet.mem_eraseAll, Chart.sortReverse, Chart.sortDocument, mem_stableSort,
      mem_stableSort]
  · intro hs
    refine henter.sorted ?_
    rw [hleaves]
    exact hs.filter _
  · intro h R hR
    refine hleft.records h R ?_
    have hh : (s.leaveAll c step.exit).store.histories = t.store.histories := by
      rw [e]
      rfl
    have hh := henter.histories.trans (htake.histories.trans hh)
    exact (congrArg (Dict.get? h) hh).symm.trans hR
  · refine henter.running.trans ?_
    rw [hany, htake.running, e, mapStore, hleft.running]

end Session
end Statechart
