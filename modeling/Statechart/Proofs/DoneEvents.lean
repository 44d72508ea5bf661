import Statechart.Proofs.ExclusiveTargets
import Statechart.Proofs.Naming

/-! What a step tells about states that are done.

    Entering a final state tells that its parent is done, and looks one level further: if the parent is
    a region of a parallel state and all its regions are done by now, it tells that too. So a parallel
    state without final or parallel regions is said to be done exactly when it comes to be. One that has
    a final state among its regions is said to be done whenever that is entered, and one that becomes
    done within a region that is itself parallel is never said to be. -/

namespace Statechart

open Chart Session

/-! ### Done states -/

namespace Chart

variable {c : Chart} {A B : NodeId → Prop} {n m : NodeId} {active : NodeSet}

/-- Whether a state is done when some states are active: a compound one if a final child is active, a
    parallel one if all its regions are done, and a final one if it is active itself. -/
inductive Done (c : Chart) (A : NodeId → Prop) : NodeId → Prop where
  | compound {n m : NodeId} (hn : (c.node n).isCompound = true) (hm : m ∈ (c.node n).children)
      (hf : (c.node m).isFinal = true) (ha : A m) : Done c A n
  | parallel {n : NodeId} (hn : (c.node n).isParallel = true)
      (h : ∀ m ∈ (c.node n).children, Done c A m) : Done c A n
  | final {n : NodeId} (hn : (c.node n).isFinal = true) (ha : A n) : Done c A n

/-- What the machine looks at instead, for which a final state itself does not count. -/
inductive Ended (c : Chart) (A : NodeId → Prop) : NodeId → Prop where
  | compound {n m : NodeId} (hn : (c.node n).isCompound = true) (hm : m ∈ (c.node n).children)
      (hf : (c.node m).isFinal = true) (ha : A m) : Ended c A n
  | parallel {n : NodeId} (hn : (c.node n).isParallel = true)
      (h : ∀ m ∈ (c.node n).children, Ended c A m) : Ended c A n

theorem Ended.done (h : c.Ended A n) (hAB : ∀ m, A m → B m) : c.Done B n := by
  induction h with
  | compound hn hm hf ha => exact .compound hn hm hf (hAB _ ha)
  | parallel hn _ ih => exact .parallel hn ih

/-- With fuel for all nodes that may lie below, the machine's test is right. -/
theorem isDone_iff (hc : c.WellFormed) : ∀ (fuel n : Nat), c.nodes.size ≤ n + fuel →
    (isDone c active fuel n = true ↔ c.Ended (· ∈ active) n)
  | 0, n, hle => by
    have hnode : c.node n = default := NodeTable.node_of_le hle
    constructor
    · exact nofun
    · rintro (⟨hn, -, -, -⟩ | ⟨hn, -⟩) <;> rw [hnode] at hn <;> cases hn
  | fuel + 1, n, hle => by
    have hchild : ∀ m ∈ (c.node n).children, c.nodes.size ≤ m + fuel := fun m hm => by
      have hlt : n < m := hc.parent_lt (hc.mem_children.1 hm).1
      have hle : c.nodes.size ≤ n + 1 + fuel := by omega
      exact Nat.le_trans hle (Nat.add_le_add_right hlt fuel)
    rw [isDone]
    split
    · rename_i hn
      simp only [List.any_eq_true, Bool.and_eq_true, List.contains_iff_mem]
      constructor
      · rintro ⟨m, hm, hf, ha⟩
        exact .compound hn hm hf ha
      · rintro (⟨-, hm, hf, ha⟩ | ⟨hn', -⟩)
        · exact ⟨_, hm, hf, ha⟩
        · rw [WellFormed.not_compound_of_parallel hn'] at hn
          cases hn
    rename_i hn
    split
    · rename_i hn'
      rw [List.all_eq_true]
      constructor
      · exact fun h => .parallel hn' fun m hm => (isDone_iff hc fuel m (hchild m hm)).1 (h m hm)
      · rintro (⟨hn'', -⟩ | ⟨-, h⟩)
        · exact absurd hn'' hn
        · exact fun m hm => (isDone_iff hc fuel m (hchild m hm)).2 (h m hm)
    · rename_i hn'
      constructor
      · exact nofun
      · rintro (⟨hn'', -⟩ | ⟨hn'', -⟩)
        · exact absurd hn'' hn
        · exact absurd hn'' hn'

/-- A state that is done without being final or parallel has a final child that is active. -/
theorem Done.final_child (h : c.Done A n) (hf : (c.node n).isFinal = false)
    (hp : (c.node n).isParallel = false) : (c.node n).isCompound = true ∧
      ∃ m ∈ (c.node n).children, (c.node m).isFinal = true ∧ A m := by
  cases h with
  | compound hr hm hf ha => exact ⟨hr, _, hm, hf, ha⟩
  | parallel hp' => rw [hp] at hp'; cases hp'
  | final hf' => rw [hf] at hf'; cases hf'

/-- A parallel state that is done has all its regions done. -/
theorem Done.regions (h : c.Done A n) (hp : (c.node n).isParallel = true) :
    ∀ r ∈ (c.node n).children, c.Done A r := by
  cases h with
  | compound hn =>
    rw [WellFormed.not_compound_of_parallel hp] at hn
    cases hn
  | parallel _ hr => exact hr
  | final hn =>
    cases hk : (c.node n).kind <;> simp [Node.isFinal, Node.isParallel, hk] at hn hp

theorem atomic_of_final (h : (c.node n).isFinal = true) : (c.node n).isAtomic = true := by
  cases hk : (c.node n).kind <;> simp [Node.isFinal, Node.isAtomic, hk] at h ⊢

end Chart

/-! ### Telling -/

/-- The event that tells that a state of a name is done. -/
def Event.done (id : String) : Event := .change ("done.state." ++ id)

/-- Whether an event tells that a state is done. -/
def Event.TellsDone (e : Event) : Prop := ∃ id, e = .done id

namespace Event

theorem done_inj {i j : String} (h : done i = done j) : i = j := by
  have h := congrArg (fun e => e.name.toList) h
  exact String.toList_inj.1 (by simpa [done, change, String.toList_append] using h)

theorem not_tellsDone_of_kind {e : Event} (h : e.kind ≠ .change) : ¬e.TellsDone := by
  rintro ⟨id, rfl⟩
  exact h rfl

theorem not_tellsDone_entry (id : String) : ¬(change ("entry.state." ++ id)).TellsDone := by
  rintro ⟨i, h⟩
  have h := congrArg (fun e => e.name.toList.head?) h
  simp [done, change, String.toList_append] at h

theorem not_tellsDone_exit (id : String) : ¬(change ("exit.state." ++ id)).TellsDone := by
  rintro ⟨i, h⟩
  have h := congrArg (fun e => e.name.toList.head?) h
  simp [done, change, String.toList_append] at h

end Event

namespace Session

variable {c : Chart} {s t u : Session} {n i : NodeId}

/-- Whether a session goes on without telling that a state is done. -/
def Mute (s t : Session) : Prop := Continues (fun e => ¬e.TellsDone) s.queue t.queue

namespace Mute

theorem of_queue (h : t.queue = s.queue) : Mute s t := by
  rw [Mute, h]
  exact .refl _

theorem trans (h : Mute s t) (h' : Mute t u) : Mute s u := Continues.trans h h'

theorem foldl {α : Type} {f : Session → α → Session} (h : ∀ s a, Mute s (f s a)) (as : List α)
    (s : Session) : Mute s (as.foldl f s) :=
  List.foldlRecOn as f (.of_queue rfl) fun _ ht a _ => ht.trans (h _ a)

end Mute

theorem mute_raise {e : Event} (h : ¬e.TellsDone) : Mute s (s.raise e) :=
  Continues.append fun _ he => List.mem_singleton.1 he ▸ h

theorem mute_notify (observable : Nat) (notice : Notice) : Mute s (s.notify observable notice) :=
  .of_queue rfl

theorem mute_fail (code : ErrorCode) (detail : String) (place : Option String) :
    Mute s (s.fail code detail place) :=
  mute_raise (s := s.report code detail place) (Event.not_tellsDone_of_kind (by decide))

theorem mute_perform (owner : Option NodeId) (a : Action) : Mute s (s.perform c owner a).1 := by
  cases a with
  | log label expr =>
    cases expr with
    | none => exact .of_queue rfl
    | some expr =>
      rw [perform]
      split <;> exact .of_queue rfl
  | raise event => exact mute_raise (Event.not_tellsDone_of_kind (by simp [Event.signal]))
  | assign location expr =>
    rw [perform]
    split <;> exact .of_queue rfl
  | send id target kind event delay params =>
    rw [perform]
    split
    · split
      · exact mute_raise (Event.not_tellsDone_of_kind (by simp [Event.signal]))
      · exact .of_queue rfl
    · exact .of_queue rfl
  | cancel sendId => exact .of_queue rfl

theorem mute_act (owner : Option NodeId) (a : Action) : Mute s (s.act c owner a) := by
  have h : Mute s (s.perform c owner a).1 := mute_perform owner a
  unfold act
  split <;> rename_i e
  · rwa [e] at h
  · rw [e] at h
    exact h.trans (mute_fail ..)

theorem mute_run (owner : Option NodeId) (as : List Action) : Mute s (s.run c owner as) :=
  Mute.foldl (fun _ a => mute_act owner a) as s

theorem mute_runBlocks {announcement : String} (h : ¬(Event.change announcement).TellsDone) (n : NodeId) :
    ∀ (bs : List Block) (announced : Bool) {s : Session},
      Mute s (s.runBlocks c n announcement bs announced)
  | [], _, _ => .of_queue rfl
  | b :: bs, announced, s => by
    rw [runBlocks]
    split
    · exact (mute_run _ _).trans ((mute_raise h).trans (mute_runBlocks h n bs _))
    · exact (mute_run _ _).trans (mute_runBlocks h n bs _)

theorem mute_cancelProcess (i : InvokeId) : Mute s (s.cancelProcess i) := by
  have hcall (p : Process) :
      Mute s (call p .stop { s with live := Dict.erase i s.live }).1 := .of_queue rfl
  cases dismissed_cancelProcess (s := s) i with
  | absent _ ht => rw [ht]; exact .of_queue rfl
  | stopped _ _ ht => rw [ht]; exact hcall _
  | failed _ _ ht => rw [ht]; exact (hcall _).trans (mute_raise (Event.not_tellsDone_of_kind nofun))

theorem mute_leave (n : NodeId) : Mute s (s.leave c n) := by
  have hblocks : Mute (s.recordHistories c n) ((s.recordHistories c n).runBlocks c n
      ("exit.state." ++ (c.node n).id) (c.node n).onExit false) :=
    mute_runBlocks (Event.not_tellsDone_exit _) n _ _
  have hend (t : Session) : Mute t (t.endProcesses c n) := by
    unfold endProcesses
    split
    · exact .of_queue rfl
    · exact Mute.foldl (fun _ i => mute_cancelProcess i) _ _
  exact Mute.trans (.of_queue rfl) (hblocks.trans (Mute.trans (.of_queue rfl) (hend _)))

theorem mute_leaveAll (exit : NodeSet) : Mute s (s.leaveAll c exit) :=
  (Mute.foldl (fun _ n => mute_leave n) _ _).trans (.of_queue rfl)

theorem mute_take (event : Option String) (i : TransitionId) : Mute s (s.take c event i) := by
  unfold take
  dsimp only
  split
  · exact (mute_run _ _).trans (Mute.foldl (fun _ _ => mute_notify ..) _ _)
  · exact mute_run _ _

theorem mute_runDefaults (plan : EntryPlan) (n : Node) : Mute s (s.runDefaults c plan n) := by
  rw [runDefaults_eq]
  exact .foldl (fun _ _ => mute_run _ _) _ _

/-! ### What is told while states are entered -/

/-- What the entry of a state tells. -/
def told (c : Chart) (active : NodeSet) (f : NodeId) : List Event :=
  match (c.node f).isFinal, (c.node f).parent with
  | true, some q =>
    .done (c.node q).id :: (match (c.node q).parent with
      | some p =>
        if (c.node p).isParallel && (c.node p).children.all (isDone c active c.nodes.size) then
          [.done (c.node p).id]
        else []
      | none => [])
  | _, _ => []

theorem queue_finish : (s.finish c (c.node i)).queue = s.queue ++ told c (s.store.active c) i := by
  unfold finish told
  cases (c.node i).isFinal with
  | false => simp
  | true =>
    cases (c.node i).parent with
    | none => simp
    | some q =>
      show (s.raiseDone c q).queue = _
      unfold raiseDone
      dsimp only
      have hstore : (s.raise (.change ("done.state." ++ (c.node q).id))).store = s.store := rfl
      cases (c.node q).parent with
      | none => rfl
      | some p =>
        rw [hstore]
        dsimp only
        split
        · exact List.append_assoc ..
        · rfl

/-- Whether the entry of a state, when some states are active, tells that another one is done: it is a
    final child of that, or of one of its regions, and then all of them are done. -/
def Tells (c : Chart) (A : NodeId → Prop) (f p : NodeId) : Prop :=
  (c.node f).isFinal = true ∧ ((c.node f).parent = some p ∨ (c.node p).isParallel = true ∧
    (∃ q, (c.node f).parent = some q ∧ (c.node q).parent = some p) ∧
      ∀ r ∈ (c.node p).children, c.Ended A r)

theorem mem_told (hc : c.WellFormed) (hn : c.Named) {active : NodeSet} {f p : NodeId}
    (hp : p < c.nodes.size) :
    .done (c.node p).id ∈ told c active f ↔ Tells c (· ∈ active) f p := by
  have hid {q : NodeId} (hq : q < c.nodes.size) (h : Event.done (c.node p).id = .done (c.node q).id) :
      p = q := hn.eq_of_id hp hq (Event.done_inj h)
  unfold told Tells
  cases hf : (c.node f).isFinal with
  | false => simp
  | true =>
    cases hq : (c.node f).parent with
    | none => simp
    | some q =>
      have hqs : q < c.nodes.size := Nat.lt_trans (hc.parent_lt hq) (lt_size_of_parent hq)
      have hfirst : Event.done (c.node p).id = .done (c.node q).id ↔ some q = some p :=
        ⟨fun h => by rw [hid hqs h], fun h => by rw [Option.some.inj h]⟩
      simp only [List.mem_cons, hfirst, true_and, Option.some.injEq, exists_eq_left']
      refine or_congr_right ?_
      cases hg : (c.node q).parent with
      | none => simp
      | some g =>
        have hgs : g < c.nodes.size := Nat.lt_trans (hc.parent_lt hg) hqs
        have hdone : (c.node g).children.all (isDone c active c.nodes.size) = true ↔
            ∀ r ∈ (c.node g).children, c.Ended (· ∈ active) r := by
          simp only [List.all_eq_true, isDone_iff hc _ _ (Nat.le_add_left _ _)]
        dsimp only
        constructor
        · intro h
          split at h
          · rename_i hcond
            obtain rfl := hid hgs (List.mem_singleton.1 h)
            rw [Bool.and_eq_true, hdone] at hcond
            exact ⟨hcond.1, rfl, hcond.2⟩
          · cases h
        · rintro ⟨hpar, e, hall⟩
          cases e
          rw [if_pos (by rw [Bool.and_eq_true, hdone]; exact ⟨hpar, hall⟩)]
          exact List.mem_singleton.2 rfl

/-- The leaves that are active once some states have been entered. -/
def lit (c : Chart) (leaves entered : List NodeId) : List NodeId :=
  leaves ++ entered.filter fun n => (c.node n).isAtomic

theorem mem_lit {leaves entered : List NodeId} {m : NodeId} :
    m ∈ lit c leaves entered ↔ m ∈ leaves ∨ m ∈ entered ∧ (c.node m).isAtomic = true := by
  rw [lit, List.mem_append, List.mem_filter]

theorem covers_congr {as bs : List NodeId} (h : ∀ m, m ∈ as ↔ m ∈ bs) : c.Covers as = c.Covers bs :=
  funext fun _ => propext ⟨Covers.mono fun m => (h m).1, Covers.mono fun m => (h m).2⟩

theorem leaves_ensureContext (i : NodeId) (store : Store) :
    (store.ensureContext c i).leaves = store.leaves := by
  unfold Store.ensureContext
  split <;> rfl

/-- Entering a state tells what its entry tells, when it is active itself. -/
theorem queue_enterState (hc : c.WellFormed) (hn : c.Named) (plan : EntryPlan) (i : NodeId) :
    ∃ added, (s.enterState c plan i).queue = s.queue ++ added ∧ ∀ p < c.nodes.size,
      (.done (c.node p).id ∈ added ↔ Tells c (c.Covers (lit c s.store.leaves [i])) i p) := by
  obtain ⟨u, hmute, hleaves, e⟩ : ∃ u, Mute s u ∧ u.store.leaves = (s.light c i).store.leaves ∧
      s.enterState c plan i = u.finish c (c.node i) := by
    refine ⟨_, ?_, ?_, rfl⟩
    · refine Mute.trans (.of_queue ?_) ((mute_runBlocks (Event.not_tellsDone_entry _) i _ _).trans
        ((mute_notify ..).trans (mute_runDefaults plan _)))
      split <;> split <;> rfl
    · refine ((worked_runBlocks ..).trans
        ((worked_notify ..).trans (worked_runDefaults plan (c.node i)))).quiet.leaves.trans ?_
      split
      · exact leaves_ensureContext i _
      · exact leaves_ensureContext i _
  obtain ⟨xs, hxs, hsilent⟩ := hmute
  refine ⟨xs ++ told c (u.store.active c) i, by rw [e, queue_finish, hxs, List.append_assoc],
    fun p hp => ?_⟩
  have hactive : (· ∈ u.store.active c) = c.Covers (lit c s.store.leaves [i]) := by
    have hmem : c.Covers u.store.leaves = c.Covers (lit c s.store.leaves [i]) :=
      covers_congr fun m => by rw [hleaves, (arrived_light i).2.2.2.2, mem_lit]
    exact (funext fun _ => propext mem_closure_iff_covers).trans hmem
  rw [List.mem_append, mem_told hc hn hp, hactive]
  exact ⟨fun h => h.resolve_left fun hx => hsilent _ hx ⟨_, rfl⟩, .inr⟩

/-- Entering states one after the other tells what each entry tells, when those before it are active. -/
theorem queue_foldl (hc : c.WellFormed) (hn : c.Named) (plan : EntryPlan) :
    ∀ (ns : List NodeId) (s : Session), ∃ added,
      (ns.foldl (enterState c plan) s).queue = s.queue ++ added ∧ ∀ p < c.nodes.size,
        (.done (c.node p).id ∈ added ↔ ∃ before f behind, ns = before ++ f :: behind ∧
          Tells c (c.Covers (lit c s.store.leaves (before ++ [f]))) f p)
  | [], s => ⟨[], (List.append_nil _).symm, by simp⟩
  | n :: ns, s => by
    obtain ⟨xs, hxs, hfirst⟩ := queue_enterState (s := s) hc hn plan n
    obtain ⟨ys, hys, hrest⟩ := queue_foldl hc hn plan ns (s.enterState c plan n)
    refine ⟨xs ++ ys, by rw [List.foldl_cons, hys, hxs, List.append_assoc], fun p hp => ?_⟩
    have hlit (ms : List NodeId) : c.Covers (lit c (s.enterState c plan n).store.leaves ms) =
        c.Covers (lit c s.store.leaves (n :: ms)) := by
      refine covers_congr fun m => ?_
      rw [mem_lit, (arrived_enterState plan n).leaves, mem_lit, List.mem_singleton, List.mem_cons,
        or_and_right, or_assoc]
    rw [List.mem_append, hfirst p hp, hrest p hp]
    constructor
    · rintro (h | ⟨before, f, behind, rfl, h⟩)
      · exact ⟨[], n, ns, rfl, h⟩
      · exact ⟨n :: before, f, behind, rfl, hlit _ ▸ h⟩
    · rintro ⟨_ | ⟨b, before⟩, f, behind, e, h⟩
      · cases e
        exact .inl h
      · cases e
        exact .inr ⟨before, f, behind, rfl, (hlit _).symm ▸ h⟩

/-- The leaves that are active once some of the states of a step have been entered. -/
def litBy (c : Chart) (step : Step) (s : Session) (entered : List NodeId) : List NodeId :=
  lit c (s.store.leaves.filter fun l => !step.exit.contains l) entered

theorem mem_litBy {step : Step} {entered : List NodeId} {m : NodeId} :
    m ∈ s.litBy c step entered ↔ (m ∈ s.store.leaves ∧ m ∉ step.exit) ∨
      m ∈ entered ∧ (c.node m).isAtomic = true := by
  rw [litBy, mem_lit, List.mem_filter]
  simp

/-- Carrying out a step tells what the entries of its states tell. -/
theorem queue_carryOut (hc : c.WellFormed) (hn : c.Named) (step : Step) :
    ∃ added, (s.carryOut c step).queue = s.queue ++ added ∧ ∀ p < c.nodes.size,
      (.done (c.node p).id ∈ added ↔ ∃ before f behind,
        c.sortDocument step.plan.entry = before ++ f :: behind ∧
          Tells c (c.Covers (s.litBy c step (before ++ [f]))) f p) := by
  have hmute : Mute s (step.transitions.foldl (take c step.eventName) (s.leaveAll c step.exit)) :=
    (mute_leaveAll _).trans (Mute.foldl (fun _ i => mute_take _ i) _ _)
  obtain ⟨xs, hxs, hsilent⟩ := hmute
  obtain ⟨ys, hys, hmem⟩ := queue_foldl hc hn step.plan (c.sortDocument step.plan.entry)
    (step.transitions.foldl (take c step.eventName) (s.leaveAll c step.exit))
  refine ⟨xs ++ ys, ?_, fun p hp => ?_⟩
  · rw [carryOut, enterAll]
    exact hys.trans (by rw [hxs, List.append_assoc])
  have hlit (ms : List NodeId) : c.Covers (lit c (step.transitions.foldl (take c step.eventName)
      (s.leaveAll c step.exit)).store.leaves ms) = c.Covers (s.litBy c step ms) := by
    refine covers_congr fun m => ?_
    rw [mem_lit, mem_litBy, leaves_taken, NodeSet.mem_eraseAll, sortReverse, mem_stableSort]
  simp only [hlit] at hmem
  rw [List.mem_append, hmem p hp]
  exact ⟨fun h => h.resolve_left fun hx => hsilent _ hx ⟨_, rfl⟩, .inr⟩

/-! ### What has been told afterwards -/

/-- A list with a member of some kind has a last one. -/
theorem exists_last {α : Type} {P : α → Prop} : ∀ {as : List α}, (∃ a ∈ as, P a) →
    ∃ before a behind, as = before ++ a :: behind ∧ P a ∧ ∀ b ∈ behind, ¬P b
  | [], h => by simp at h
  | a :: as, h => by
    by_cases hmore : ∃ b ∈ as, P b
    · obtain ⟨before, b, behind, rfl, hb, hlast⟩ := exists_last hmore
      exact ⟨a :: before, b, behind, rfl, hb, hlast⟩
    · have ha : P a := by
        obtain ⟨b, hb, hP⟩ := h
        rcases List.mem_cons.1 hb with rfl | hb
        · exact hP
        · exact absurd ⟨b, hb, hP⟩ hmore
      exact ⟨[], a, as, rfl, ha, fun b hb hP => hmore ⟨b, hb, hP⟩⟩

section

variable {step : Step} {p : NodeId} {added : List Event}

/-- What is active after a step is what its leaves make active. -/
theorem mem_active_carried (h : Carried c step s t) : n ∈ t.store.active c ↔
    c.Covers (s.litBy c step (c.sortDocument step.plan.entry)) n := by
  have hleaves : c.Covers t.store.leaves = c.Covers (s.litBy c step (c.sortDocument step.plan.entry)) :=
    covers_congr fun m => by rw [h.leaves, mem_litBy, sortDocument, mem_stableSort]
  rw [← hleaves]
  exact mem_closure_iff_covers

/-- A parallel state is told to be done only if it is, or if one of its regions is final and entered. -/
theorem done_of_told (h : Carried c step s t) (hp : (c.node p).isParallel = true)
    (htold : ∃ before f behind, c.sortDocument step.plan.entry = before ++ f :: behind ∧
      Tells c (c.Covers (s.litBy c step (before ++ [f]))) f p) :
    c.Done (· ∈ t.store.active c) p ∨
      ∃ f ∈ step.plan.entry, (c.node f).isFinal = true ∧ (c.node f).parent = some p := by
  obtain ⟨before, f, behind, he, hf, hregion | ⟨-, -, hall⟩⟩ := htold
  · have hmem : f ∈ c.sortDocument step.plan.entry := he ▸ (by simp)
    exact .inr ⟨f, mem_stableSort.1 hmem, hf, hregion⟩
  · refine .inl (.parallel hp fun r hr => (hall r hr).done fun m hm => ?_)
    rw [mem_active_carried h, he]
    refine Covers.mono (fun l hl => ?_) hm
    rw [mem_litBy] at hl ⊢
    refine hl.imp_right (And.imp_left fun hl => ?_)
    rw [List.append_cons]
    exact List.mem_append_left _ hl

/-- A parallel state whose regions are neither final nor parallel is told to be done when it comes to
    be. -/
theorem told_of_done (hc : c.WellFormed) (hs : ∀ l ∈ t.store.leaves, (c.node l).isAtomic = true)
    (h : Carried c step s t) (hp : (c.node p).isParallel = true)
    (hregions : ∀ r ∈ (c.node p).children, (c.node r).isFinal = false ∧ (c.node r).isParallel = false)
    (hdone : c.Done (· ∈ t.store.active c) p)
    (hnew : ¬(p ∈ s.store.active c ∧ c.Done (· ∈ s.store.active c) p)) :
    ∃ before f behind, c.sortDocument step.plan.entry = before ++ f :: behind ∧
      Tells c (c.Covers (s.litBy c step (before ++ [f]))) f p := by
  have hends : ∀ r ∈ (c.node p).children, (c.node r).isCompound = true ∧
      ∃ m ∈ (c.node r).children, (c.node m).isFinal = true ∧ m ∈ t.store.active c := fun r hr =>
    (hdone.regions hp r hr).final_child (hregions r hr).1 (hregions r hr).2
  -- a final child that is active now was active before and has not been left, or is entered
  have hlit {m : NodeId} (hf : (c.node m).isFinal = true) (hm : m ∈ t.store.active c) :
      (m ∈ s.store.leaves ∧ m ∉ step.exit) ∨ m ∈ c.sortDocument step.plan.entry := by
    have hleaf := (h.leaves m).1 ((hc.mem_leaves_iff_atomic hs).2 ⟨hm, atomic_of_final hf⟩)
    exact hleaf.imp_right fun he => mem_stableSort.2 he.1
  let Ends (f : NodeId) : Prop := (c.node f).isFinal = true ∧
    ∃ q, (c.node f).parent = some q ∧ (c.node q).parent = some p
  have hEnds {r m : NodeId} (hr : r ∈ (c.node p).children) (hm : m ∈ (c.node r).children)
      (hf : (c.node m).isFinal = true) : Ends m :=
    ⟨hf, r, (hc.mem_children.1 hm).1, (hc.mem_children.1 hr).1⟩
  have hentered : ∃ f ∈ c.sortDocument step.plan.entry, Ends f := by
    refine Decidable.byContradiction fun hnone => hnew ?_
    have hbefore : ∀ r ∈ (c.node p).children, ∃ m ∈ (c.node r).children,
        (c.node m).isFinal = true ∧ m ∈ s.store.active c := fun r hr => by
      obtain ⟨-, m, hm, hf, ha⟩ := hends r hr
      rcases hlit hf ha with hkept | he
      · exact ⟨m, hm, hf, mem_closure_of_mem hkept.1⟩
      · exact absurd ⟨m, he, hEnds hr hm hf⟩ hnone
    refine ⟨?_, .parallel hp fun r hr => ?_⟩
    · obtain ⟨r, rs, e⟩ := List.exists_cons_of_ne_nil ((hc.shaped p).parallel hp)
      have hr : r ∈ (c.node p).children := by simp [e]
      obtain ⟨m, hm, -, ha⟩ := hbefore r hr
      exact hc.mem_closure_up ha (.inr (hc.descends_of_descends_within
        (hc.descends_parent (hc.mem_children.1 hm).1)
        (.inr (hc.descends_parent (hc.mem_children.1 hr).1))))
    · obtain ⟨m, hm, hf, ha⟩ := hbefore r hr
      exact .compound (hends r hr).1 hm hf ha
  -- at the entry of the last of them all regions have ended
  obtain ⟨before, f, behind, he, ⟨hf, hq⟩, hlast⟩ := exists_last hentered
  refine ⟨before, f, behind, he, hf, .inr ⟨hp, hq, fun r hr => ?_⟩⟩
  obtain ⟨hcompound, m, hm, hfinal, ha⟩ := hends r hr
  refine .compound hcompound hm hfinal (.of_mem (mem_litBy.2 ?_))
  refine (hlit hfinal ha).imp_right fun hentry => ⟨?_, atomic_of_final hfinal⟩
  rw [he, List.append_cons] at hentry
  exact (List.mem_append.1 hentry).resolve_right fun hbehind => hlast m hbehind (hEnds hr hm hfinal)

end

/-- Wherever a run takes transitions, a parallel state is told to be done exactly when a final state is
    entered that is one of its regions, or that is a child of one of them with all of them ended by then.
    So it is done if that is told, unless one of its regions is final and entered; and if it comes to be
    done that is told, unless one of its regions is final or parallel. -/
theorem told_of_reaches {name : String} {version : Nat} {v : Value}
    (hl : Chart.load name version v = .ok c) (s₀ : Session) :
    ∀ event ts s, Reaches c s₀ (.about event ts) s → ∃ step t added,
      Step.build c s.store event ts = some step ∧ s.microStep c event ts = some t ∧
      t.queue = s.queue ++ added ∧ ∀ p, (c.node p).isParallel = true →
        (.done (c.node p).id ∈ added ↔ ∃ before f behind,
          c.sortDocument step.plan.entry = before ++ f :: behind ∧
            Tells c (c.Covers (s.litBy c step (before ++ [f]))) f p) ∧
        (.done (c.node p).id ∈ added → c.Done (· ∈ t.store.active c) p ∨
          ∃ f ∈ step.plan.entry, (c.node f).isFinal = true ∧ (c.node f).parent = some p) ∧
        (c.Done (· ∈ t.store.active c) p →
          ¬(p ∈ s.store.active c ∧ c.Done (· ∈ s.store.active c) p) →
          .done (c.node p).id ∈ added ∨
            ∃ r ∈ (c.node p).children, (c.node r).isFinal = true ∨ (c.node r).isParallel = true) := by
  have hc := wellFormed_of_load hl
  intro event ts s hreach
  have hprepared : Prepared c ts s := holds_of_reaches hc hreach
  obtain ⟨step, t, hb, ht, rfl, -, hcarried, -, hsane, -⟩ :=
    microStep_spec hc event hprepared.sane hprepared.chosen
  obtain ⟨added, hq, htold⟩ := queue_carryOut (s := s) hc (named_of_load hl) step
  refine ⟨step, _, added, hb, ht, hq, fun p hp => ?_⟩
  have hlt : p < c.nodes.size := NodeTable.lt_of_ne_default fun e => by
    rw [Chart.node, e] at hp
    cases hp
  refine ⟨htold p hlt, fun h => done_of_told hcarried hp ((htold p hlt).1 h), fun hdone hnew => ?_⟩
  by_cases hregions : ∃ r ∈ (c.node p).children,
      (c.node r).isFinal = true ∨ (c.node r).isParallel = true
  · exact .inr hregions
  · refine .inl ((htold p hlt).2 (told_of_done hc hsane.leaf hcarried hp (fun r hr => ?_) hdone hnew))
    exact ⟨Bool.eq_false_iff.2 fun h => hregions ⟨r, hr, .inl h⟩,
      Bool.eq_false_iff.2 fun h => hregions ⟨r, hr, .inr h⟩⟩

/-- A trip that is over once a room is booked and everything is packed. -/
def trip : Value :=
  .object [("states", .array [
    .object [("id", .string "Trip"), ("kind", .string "parallel"),
      ("states", .array [
        .object [("id", .string "Booking"), ("kind", .string "parallel"), ("states", .array [
          .object [("id", .string "Hotel"), ("states", .array [
            .object [("id", .string "Looking"), ("transitions", .array [
              .object [("event", .string "book"), ("target", .string "Booked")]])],
            .object [("id", .string "Booked"), ("kind", .string "final")]])]])],
        .object [("id", .string "Packing"), ("states", .array [
          .object [("id", .string "Open"), ("transitions", .array [
            .object [("event", .string "pack"), ("target", .string "Packed")]])],
          .object [("id", .string "Packed"), ("kind", .string "final")]])]]),
      ("transitions", .array [
        .object [("event", .string "done.state.Trip"), ("target", .string "Home")]])],
    .object [("id", .string "Home")]])]

/-- The chart of the trip. -/
def tripChart : Chart := (Chart.load "trip" 1 trip).toOption.get (by decide +kernel)

theorem load_trip : Chart.load "trip" 1 trip = .ok tripChart := load_eq_ok _

/-- The trip before it is begun. -/
def newTrip : Session := .fresh (some tripChart) (.ofSeed 0 0)

/-- The trip with everything packed. -/
def packedTrip : Session := (newTrip.play tripChart 10 [.signal "pack"]).get (by decide +kernel)

/-- The transitions that booking a room asks for, and the trip then. -/
def booking : List TransitionId × Session :=
  (packedTrip.answer tripChart (.signal "book")).select tripChart (some (Event.signal "book").name)

/-- The trip at the moment when a room is to be booked. -/
def bookingTrip : Session := { booking.2 with pending := [] }

theorem reaches_bookingTrip :
    Reaches tripChart newTrip (.about (some (.signal "book")) booking.1) bookingTrip := by
  have hrun : Run tripChart newTrip packedTrip := Run.of_play (Option.some_get _).symm
  have hreach := hrun.reaches.accepted (e := .signal "book") (by decide +kernel) rfl (by decide +kernel)
  unfold bookingTrip booking
  exact hreach

/-- A trip is over with all its regions, of which Booking has regions itself. -/
theorem trip_regions : (tripChart.node 0).isParallel = true ∧ (tripChart.node 0).children = [1, 5] ∧
    (tripChart.node 1).isParallel = true ∧ (tripChart.node 1).children = [2] ∧
    ((tripChart.node 2).isFinal = false ∧ (tripChart.node 2).isParallel = false) ∧
    ∀ n ∈ [(2, 4), (5, 7)], (tripChart.node n.1).isCompound = true ∧
      n.2 ∈ (tripChart.node n.1).children ∧ (tripChart.node n.2).isFinal = true := by
  decide +kernel

/-- Once the room is booked the trip is over, since Booking, a region of it that is parallel itself, is
    done with its last region. Only Booking is told to be done, not the trip. -/
theorem untold_trip : ∃ t added,
    bookingTrip.microStep tripChart (some (.signal "book")) booking.1 = some t ∧
    t.queue = bookingTrip.queue ++ added ∧ (tripChart.node 0).isParallel = true ∧
    .done (tripChart.node 1).id ∈ added ∧ .done (tripChart.node 0).id ∉ added ∧
    tripChart.Done (· ∈ t.store.active tripChart) 0 ∧
    ¬tripChart.Done (· ∈ bookingTrip.store.active tripChart) 0 := by
  obtain ⟨step, t, added, -, ht, hq, htold⟩ :=
    told_of_reaches load_trip newTrip _ _ _ reaches_bookingTrip
  obtain ⟨hparallel, hchildren, hparallel', hchildren', hhotel, hends⟩ := trip_regions
  obtain ⟨hnow, hqueue, hlooking⟩ : (bookingTrip.microStep tripChart (some (.signal "book"))
        booking.1).map (fun t => (t.queue.map Event.name, t.store.active tripChart)) =
        some (["done.state.Hotel", "done.state.Booking"], [0, 1, 2, 4, 5, 7]) ∧
      bookingTrip.queue = [] ∧ ∀ m ∈ (tripChart.node 2).children, (tripChart.node m).isFinal = true →
        m ∉ bookingTrip.store.active tripChart := by decide +kernel
  rw [ht] at hnow
  obtain ⟨hnames, hactive⟩ := Prod.mk.inj (Option.some.inj hnow)
  rw [hq, hqueue, List.nil_append] at hnames
  have hended {n m : NodeId} (hn : (n, m) ∈ [(2, 4), (5, 7)]) (ha : m ∈ [0, 1, 2, 4, 5, 7]) :
      tripChart.Done (· ∈ t.store.active tripChart) n := by
    obtain ⟨hcompound, hm, hf⟩ := hends (n, m) hn
    exact .compound hcompound hm hf (hactive ▸ ha)
  have hbooking : tripChart.Done (· ∈ t.store.active tripChart) 1 := by
    refine .parallel hparallel' fun m hm => ?_
    rw [hchildren', List.mem_singleton] at hm
    exact hm ▸ hended (m := 4) (by decide) (by decide)
  have htrip : tripChart.Done (· ∈ t.store.active tripChart) 0 := by
    refine .parallel hparallel fun m hm => ?_
    rw [hchildren, List.mem_cons, List.mem_singleton] at hm
    rcases hm with rfl | rfl
    · exact hbooking
    · exact hended (m := 7) (by decide) (by decide)
  -- before, Hotel has no final child that is active
  have hbooked : ¬tripChart.Done (· ∈ bookingTrip.store.active tripChart) 1 := fun h => by
    obtain ⟨-, m, hm, hf, ha⟩ :=
      (h.regions hparallel' 2 (by simp [hchildren'])).final_child hhotel.1 hhotel.2
    exact hlooking m hm hf ha
  have hover : ¬tripChart.Done (· ∈ bookingTrip.store.active tripChart) 0 := fun h =>
    hbooked (h.regions hparallel 1 (by simp [hchildren]))
  refine ⟨t, added, ht, by rw [hqueue, hq, hqueue], hparallel, ?_, fun htrip => ?_, htrip, hover⟩
  · refine ((htold 1 hparallel').2.2 hbooking fun h => hbooked h.2).resolve_right ?_
    simp [hchildren', hhotel]
  · have hmem := List.mem_map_of_mem (f := Event.name) htrip
    rw [hnames] at hmem
    revert hmem
    decide +kernel

end Session
end Statechart
