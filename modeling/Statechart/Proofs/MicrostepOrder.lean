import Statechart.Proofs.Conflict
import Statechart.Proofs.Operations

/-! In which order a step is carried out.

    A step goes by rounds: one for every state that is left, then one for every transition that is
    taken, then one for every state that is entered. Places in the document decide which round comes
    first, and since a state stands before what lies below it, states are left from the inside out and
    entered from the outside in. What is left stops being active between the first rounds and the others,
    all of it at once; so nothing that is run for a state on its way out can tell that another one has
    been left. -/

namespace Statechart

open Chart

/-- One thing done while a step is carried out. -/
inductive Beat where
  | record (n : NodeId)
  | act (owner : Option NodeId) (a : Action)
  | announce (change : String)
  | notify (observable : Nat) (notice : Notice)
  | dismiss (n : NodeId)
  | quit (ns : List NodeId)
  | join (n : NodeId)
  | finish (n : NodeId)

/-- Whether an entry is a notice. -/
def Entry.isNotice : Entry → Bool
  | .noticed _ _ => true
  | _ => false

/-- What is written into the journal when a notice is given at an observable: whoever listens to it is
    told, and then whoever listens to the chart. -/
def Listeners.inform (observable : Nat) (notice : Notice) (ls : Listeners) : List Entry :=
  ls.tell observable notice ++ ls.tell Listeners.chart notice

/-- Whoever is registered with an observable is told once of a notice there, whoever is registered with
    the chart is told once for that, and nobody else is told. -/
theorem Listeners.Distinct.heard_inform {ls : Listeners} (h : ls.Distinct) (l : Listener)
    (observable : Nat) (notice : Notice) : (ls.inform observable notice).filterMap (Entry.heard? l) =
      (if l ∈ ls.of observable then [notice] else []) ++
        if l ∈ ls.of Listeners.chart then [notice] else [] := by
  rw [inform, List.filterMap_append, (h.heard_tell observable notice).2,
    (h.heard_tell Listeners.chart notice).2]

/-- The notices of a transition that is taken: one for each state that it leads to, if it is a state's
    own. -/
def Notice.ofTransition (c : Chart) (event : Option String) (i : TransitionId) : List Notice :=
  let t := c.transition i
  match t.origin, t.source with
  | .event, some source => (Session.destinations t source).map fun target =>
    .taken (c.node source) (c.node target) t event
  | _, _ => []

namespace Beat

/-- Does one thing: what is active changes only when states quit, all of them at once, and when one
    joins. -/
def perform (c : Chart) (s : Session) : Beat → Session
  | .record n => s.recordHistories c n
  | .act owner a => s.act c owner a
  | .announce change => s.raise (.change change)
  | .notify observable notice => s.notify observable notice
  | .dismiss n => s.endProcesses c n
  | .quit ns => s.mapStore (Store.deactivate ns)
  | .join n =>
    let s := (s.light c n).mapStore (Store.ensureContext c n)
    if (c.node n).invokes.isEmpty then s else { s with pending := NodeSet.insert n s.pending }
  | .finish n => s.finish c (c.node n)

/-- The notices that are written into the journal. -/
def notices (ls : Listeners) : Beat → List Entry
  | .notify observable notice => ls.inform observable notice
  | _ => []

/-- Running content. -/
def content (owner : Option NodeId) (as : List Action) : List Beat := as.map (.act owner)

/-- Running the blocks of an entry or exit; the first block that announces it does so. -/
def blocks (n : NodeId) (change : String) : List Block → (announced : Bool) → List Beat
  | [], _ => []
  | b :: bs, announced =>
    content (some n) b.actions ++
      if b.announce && !announced then .announce change :: blocks n change bs true
      else blocks n change bs announced

/-- The round of a state that is left. -/
def exits (c : Chart) (n : NodeId) : List Beat :=
  let node := c.node n
  .record n :: (blocks n ("exit.state." ++ node.id) node.onExit false ++
    [.notify node.observable (.exited node), .dismiss n])

/-- The round of a transition. -/
def takes (c : Chart) (event : Option String) (i : TransitionId) : List Beat :=
  let t := c.transition i
  content t.source t.actions ++ (Notice.ofTransition c event i).map (.notify t.observable)

/-- The round of a state that is entered. -/
def enters (c : Chart) (plan : EntryPlan) (n : NodeId) : List Beat :=
  let node := c.node n
  .join n :: (blocks n ("entry.state." ++ node.id) node.onEntry false ++
    [.notify node.observable (.entered node)] ++
    (Deed.defaults c plan n).flatMap (fun t => content (some n) (c.transition t).actions) ++
    [.finish n])

/-- All that is done in a step whose states are left and entered in a certain order. -/
def rounds (c : Chart) (step : Step) (left entered : List NodeId) : List Beat :=
  left.flatMap (exits c) ++ .quit left :: step.transitions.flatMap (takes c step.eventName) ++
    entered.flatMap (enters c step.plan)

/-- Whether what is done may change which states are active. -/
def isMove : Beat → Bool
  | .quit _ => true
  | .join _ => true
  | _ => false

end Beat

namespace Chart.Numbered

variable {c : Chart} (hn : c.Numbered) {ns : List NodeId}

include hn

theorem order_ne {m n : NodeId} (hm : m < c.nodes.size) (hlt : n < c.nodes.size) (hne : m ≠ n) :
    (c.node m).order ≠ (c.node n).order := by
  rcases Nat.lt_or_gt_of_ne hne with h | h
  · exact Nat.ne_of_lt (hn.order_lt h hlt)
  · exact Nat.ne_of_gt (hn.order_lt h hm)

/-- States stand in strict document order once they are sorted. -/
theorem pairwise_sortDocument (hd : ns.Nodup) (hlt : ∀ n ∈ ns, n < c.nodes.size) :
    (c.sortDocument ns).Pairwise fun m n => (c.node m).order < (c.node n).order := by
  have hnodup : (c.sortDocument ns).Nodup := (stableSort_perm _ _).nodup_iff.2 hd
  have hle := pairwise_stableSort_le (fun n => (c.node n).order) ns
  refine (hle.and hnodup).imp_of_mem fun hm hm' h => ?_
  exact Nat.lt_of_le_of_ne h.1
    (hn.order_ne (hlt _ (mem_stableSort.1 hm)) (hlt _ (mem_stableSort.1 hm')) h.2)

/-- And in the opposite order once they are sorted the other way. -/
theorem pairwise_sortReverse (hd : ns.Nodup) (hlt : ∀ n ∈ ns, n < c.nodes.size) :
    (c.sortReverse ns).Pairwise fun m n => (c.node n).order < (c.node m).order := by
  have hnodup : (c.sortReverse ns).Nodup := (stableSort_perm _ _).nodup_iff.2 hd
  have hge := pairwise_stableSort_ge (fun n => (c.node n).order) ns
  refine (hge.and hnodup).imp_of_mem fun hm hm' h => ?_
  exact Nat.lt_of_le_of_ne h.1
    (hn.order_ne (hlt _ (mem_stableSort.1 hm')) (hlt _ (mem_stableSort.1 hm)) h.2.symm)

/-- A state stands before what lies below it. -/
theorem not_descends (hc : c.WellFormed) {m n : NodeId} (hm : m < c.nodes.size)
    (h : (c.node m).order < (c.node n).order) : c.descends m n = false := by
  refine Bool.eq_false_iff.2 fun hd => Nat.lt_asymm h ?_
  exact hn.order_lt (hc.lt_of_descends hd) hm

end Chart.Numbered

namespace Session

variable {c : Chart} {s t : Session} {b : Beat} {bs : List Beat} {n : NodeId} {step : Step}
  {event : Option Event} {ts : List TransitionId} {p q : Phase}

/-- The notices so far. -/
def notices (s : Session) : List Entry := s.journal.toList.filter Entry.isNotice

/-! ### A step as a list -/

theorem foldl_content (owner : Option NodeId) (as : List Action) :
    (Beat.content owner as).foldl (Beat.perform c) s = s.run c owner as := by
  rw [Beat.content, List.foldl_map]
  rfl

theorem foldl_blocks (change : String) : ∀ (bs : List Block) (announced : Bool) {s : Session},
    (Beat.blocks n change bs announced).foldl (Beat.perform c) s = s.runBlocks c n change bs announced
  | [], _, _ => rfl
  | b :: bs, announced, s => by
    rw [Beat.blocks, runBlocks, List.foldl_append, foldl_content]
    split
    · exact foldl_blocks change bs true
    · exact foldl_blocks change bs announced

theorem foldl_exits (n : NodeId) : (Beat.exits c n).foldl (Beat.perform c) s = s.leave c n := by
  rw [Beat.exits, List.foldl_cons, List.foldl_append, foldl_blocks]
  rfl

theorem foldl_takes (name : Option String) (i : TransitionId) :
    (Beat.takes c name i).foldl (Beat.perform c) s = s.take c name i := by
  unfold Beat.takes take Notice.ofTransition
  dsimp only
  rw [List.foldl_append, foldl_content]
  generalize (c.transition i).source = source
  cases (c.transition i).origin <;> cases source <;> try rfl
  rw [List.map_map, List.foldl_map]
  rfl

theorem foldl_enters (plan : EntryPlan) (hi : (c.node n).index = n) :
    (Beat.enters c plan n).foldl (Beat.perform c) s = s.enterState c plan n := by
  have hdefaults (s : Session) : ((Deed.defaults c plan n).flatMap fun t =>
      Beat.content (some n) (c.transition t).actions).foldl (Beat.perform c) s =
        s.runDefaults c plan (c.node n) := by
    simp only [List.foldl_flatMap, foldl_content, runDefaults_eq, hi, Deed.defaults]
  rw [Beat.enters, List.foldl_cons, List.foldl_append, List.foldl_append, List.foldl_append,
    foldl_blocks, hdefaults]
  rfl

/-- Carrying out a step is doing what its rounds say. -/
theorem carryOut_eq_rounds (hc : c.WellFormed) (step : Step)
    (hentry : ∀ n ∈ step.plan.entry, n < c.nodes.size) (s : Session) :
    s.carryOut c step = (Beat.rounds c step (c.sortReverse step.exit)
      (c.sortDocument step.plan.entry)).foldl (Beat.perform c) s := by
  have henter (s : Session) : ((c.sortDocument step.plan.entry).flatMap
      (Beat.enters c step.plan)).foldl (Beat.perform c) s = s.enterAll c step.plan := by
    rw [List.foldl_flatMap]
    exact List.foldl_rel (r := Eq) rfl fun n hn s t e => e ▸
      foldl_enters step.plan (hc.index_eq (hentry n (mem_stableSort.1 hn)))
  simp only [Beat.rounds, List.foldl_append, List.foldl_cons, henter, List.foldl_flatMap, foldl_exits,
    foldl_takes]
  rfl

/-! ### What listeners are told -/

theorem notices_eq (s : Session) : s.notices = s.marks.filter Entry.isNotice := by
  rw [notices, marks, List.filter_filter]
  refine List.filter_congr fun e _ => ?_
  cases e <;> rfl

/-- What is not seen is no notice. -/
theorem Aside.notices (h : Aside s t) : t.notices = s.notices := by
  rw [notices_eq, notices_eq, h.marks]

/-- Nor is what is done with processes. -/
theorem Shows.notices {x y : Scene} (h : Shows c x s [] y t) :
    t.notices = s.notices ∧ t.listeners = s.listeners := by
  obtain ⟨ds, hds, hdoes⟩ := h
  refine ⟨?_, hdoes.listeners⟩
  rw [notices_eq, notices_eq, hdoes.marks, List.filter_append, List.filter_flatMap,
    List.flatMap_eq_nil_iff.2, List.append_nil]
  intro d hd
  have hd : d.shows = false := by simpa using List.filter_eq_nil_iff.1 hds d hd
  cases d <;> first | rfl | cases hd

/-- Listeners are told, by what is done, what it says, and stay as they are. -/
theorem notices_perform (b : Beat) : (b.perform c s).notices = s.notices ++ b.notices s.listeners ∧
    (b.perform c s).listeners = s.listeners := by
  have unseen {t : Session} (h : Aside s t) : t.notices = s.notices ++ [] ∧
      t.listeners = s.listeners := ⟨h.notices.trans (List.append_nil _).symm, h.listeners⟩
  cases b with
  | record n => exact unseen (silent_recordHistories n).aside
  | act owner a => exact unseen (aside_run owner [a])
  | announce change => exact unseen (silent_raise (.inr rfl)).aside
  | notify observable notice =>
    have htold : ∀ e ∈ s.listeners.tell observable notice ++ s.listeners.tell Listeners.chart notice,
        e.isNotice = true := by
      intro e he
      rw [List.mem_append, Listeners.tell, Listeners.tell, List.mem_map, List.mem_map] at he
      rcases he with ⟨l, -, rfl⟩ | ⟨l, -, rfl⟩ <;> rfl
    refine ⟨?_, rfl⟩
    rw [notices_eq, notices_eq, Beat.perform, marks_notify, List.filter_append,
      List.filter_eq_self.2 htold]
    rfl
  | dismiss n =>
    have hcancel := (shows_cancelProcesses (c := c) (x := ⟨[], s.live, none, true⟩) (s := s)
      (c.node n).invokes rfl fun _ _ => .inr rfl).notices
    unfold Beat.perform endProcesses
    dsimp only
    split
    · have hdrop : Silent s { s with pending := NodeSet.erase n s.pending } :=
        .of_eq rfl rfl rfl rfl rfl rfl rfl
      exact unseen hdrop.aside
    · exact ⟨hcancel.1.trans (List.append_nil _).symm, hcancel.2⟩
  | quit ns => exact unseen (silent_mapStore rfl rfl).aside
  | join n =>
    have hjoin : Silent s (Beat.perform c s (.join n)) := by
      refine ((silent_light (c := c) n).trans (silent_ensureContext (c := c) n)).trans ?_
      unfold Beat.perform
      dsimp only
      split
      · exact .refl _
      · exact .of_eq rfl rfl rfl rfl rfl rfl rfl
    exact unseen hjoin.aside
  | finish n => exact unseen (silent_finish (c.node n)).aside

theorem notices_foldl (bs : List Beat) : ∀ s : Session,
    (bs.foldl (Beat.perform c) s).notices = s.notices ++ bs.flatMap (Beat.notices s.listeners) ∧
      (bs.foldl (Beat.perform c) s).listeners = s.listeners := by
  induction bs with
  | nil => simp
  | cons b bs ih =>
    intro s
    obtain ⟨hone, hls⟩ := notices_perform (c := c) (s := s) b
    obtain ⟨hall, hls'⟩ := ih (b.perform c s)
    rw [hls] at hall hls'
    rw [List.foldl_cons, hall, hone, List.flatMap_cons, List.append_assoc]
    exact ⟨rfl, hls'⟩

/-- Nothing that content does is a notice. -/
theorem notices_content (ls : Listeners) (owner : Option NodeId) (as : List Action) :
    (Beat.content owner as).flatMap (Beat.notices ls) = [] := by
  rw [Beat.content, List.flatMap_map]
  exact List.flatMap_eq_nil_iff.2 fun _ _ => rfl

theorem notices_blocks (ls : Listeners) (change : String) : ∀ (bs : List Block) (announced : Bool),
    (Beat.blocks n change bs announced).flatMap (Beat.notices ls) = []
  | [], _ => rfl
  | b :: bs, announced => by
    rw [Beat.blocks, List.flatMap_append, notices_content, List.nil_append]
    split
    · rw [List.flatMap_cons, notices_blocks ls change bs true]
      rfl
    · exact notices_blocks ls change bs announced

theorem notices_exits (ls : Listeners) (n : NodeId) : (Beat.exits c n).flatMap (Beat.notices ls) =
    ls.inform (c.node n).observable (.exited (c.node n)) := by
  rw [Beat.exits, List.flatMap_cons, List.flatMap_append, notices_blocks]
  exact List.append_nil _

theorem notices_takes (ls : Listeners) (name : Option String) (i : TransitionId) :
    (Beat.takes c name i).flatMap (Beat.notices ls) =
      (Notice.ofTransition c name i).flatMap (ls.inform (c.transition i).observable) := by
  rw [Beat.takes, List.flatMap_append, notices_content, List.nil_append, List.flatMap_map]
  rfl

theorem notices_enters (ls : Listeners) (plan : EntryPlan) (n : NodeId) :
    (Beat.enters c plan n).flatMap (Beat.notices ls) =
      ls.inform (c.node n).observable (.entered (c.node n)) := by
  have hdefaults : ((Deed.defaults c plan n).flatMap fun t =>
      Beat.content (some n) (c.transition t).actions).flatMap (Beat.notices ls) = [] := by
    rw [List.flatMap_assoc]
    exact List.flatMap_eq_nil_iff.2 fun t _ => notices_content ls _ _
  rw [Beat.enters, List.flatMap_cons, List.flatMap_append, List.flatMap_append, List.flatMap_append,
    notices_blocks, hdefaults]
  simp [Beat.notices]

/-- One notice for each state that is left, those of the transitions, and one for each state that is
    entered. -/
theorem notices_rounds (ls : Listeners) (left entered : List NodeId) :
    (Beat.rounds c step left entered).flatMap (Beat.notices ls) =
      (left.flatMap fun n => ls.inform (c.node n).observable (.exited (c.node n))) ++
      (step.transitions.flatMap fun i => (Notice.ofTransition c step.eventName i).flatMap
        (ls.inform (c.transition i).observable)) ++
      entered.flatMap fun n => ls.inform (c.node n).observable (.entered (c.node n)) := by
  simp only [Beat.rounds, List.flatMap_append, List.flatMap_cons, List.flatMap_assoc, notices_exits,
    notices_takes, notices_enters]
  rfl

/-! ### What stays active -/

/-- Whether the same states are active, and content sees the same ones. -/
def Unmoved (s t : Session) : Prop :=
  t.store.leaves = s.store.leaves ∧ t.store.published = s.store.published

theorem Unmoved.of_revised (h : s.store.Revised t.store) : Unmoved s t := by
  refine ⟨h.leaves.1, h.keeps (P := fun store => store.published = s.store.published) ?_ rfl⟩
  intro c store owner location v e
  refine Eq.trans ?_ e
  unfold Store.assign
  split
  · rfl
  · split
    · rfl
    · rename_i scope _
      cases scope <;> rfl

/-- What is done changes what is active only if it says so. -/
theorem unmoved_perform (h : b.isMove = false) : Unmoved s (b.perform c s) := by
  cases b with
  | record n =>
    refine List.foldlRecOn (motive := fun store : Store => store.leaves = s.store.leaves ∧
      store.published = s.store.published) _ _ ⟨rfl, rfl⟩ fun store hstore k _ => ?_
    unfold recordHistory
    split <;> exact hstore
  | act owner a => exact .of_revised (worked_act owner a).store
  | announce change => exact ⟨rfl, rfl⟩
  | notify observable notice => exact ⟨rfl, rfl⟩
  | dismiss n => exact .of_revised (endProcesses_spec n).2
  | quit ns => cases h
  | join n => cases h
  | finish n =>
    unfold Beat.perform finish
    dsimp only
    split
    · split
      · exact ⟨rfl, rfl⟩
      · exact .of_revised (worked_raiseDone _).store
    · exact ⟨rfl, rfl⟩

theorem unmoved_foldl (h : ∀ b ∈ bs, b.isMove = false) : Unmoved s (bs.foldl (Beat.perform c) s) := by
  refine List.foldlRecOn bs (Beat.perform c) ⟨rfl, rfl⟩ fun t ht b hb => ?_
  have hone : Unmoved t (b.perform c t) := unmoved_perform (h b hb)
  exact ⟨hone.1.trans ht.1, hone.2.trans ht.2⟩

theorem isMove_blocks (change : String) : ∀ (bs : List Block) (announced : Bool),
    ∀ b ∈ Beat.blocks n change bs announced, b.isMove = false
  | [], _, b, hb => by cases hb
  | block :: bs, announced, b, hb => by
    rw [Beat.blocks, List.mem_append] at hb
    rcases hb with hb | hb
    · obtain ⟨a, -, rfl⟩ := List.mem_map.1 hb
      rfl
    · split at hb
      · rcases List.mem_cons.1 hb with rfl | hb
        · rfl
        · exact isMove_blocks change bs true b hb
      · exact isMove_blocks change bs announced b hb

/-- Nothing in the round of a state that is left changes what is active. -/
theorem isMove_exits : ∀ b ∈ Beat.exits c n, b.isMove = false := by
  intro b hb
  simp only [Beat.exits, List.mem_cons, List.mem_append, List.not_mem_nil, or_false] at hb
  rcases hb with rfl | hb | rfl | rfl
  · rfl
  · exact isMove_blocks _ _ _ b hb
  · rfl
  · rfl

/-! ### The order of transitions -/

/-- Whether transitions stand in strict document order. -/
def Ordered (c : Chart) (ts : List TransitionId) : Prop :=
  ts.Pairwise fun t u => (c.transition t).order < (c.transition u).order

theorem ordered_of_select (hc : c.WellFormed) (hn : c.Numbered) {name : Option String}
    (h : s.select c name = (ts, t)) : Ordered c ts := by
  obtain ⟨-, -, hfound⟩ := searchLeaves_spec hc name s.store (c.sortDocument s.store.leaves)
    ⟨[], [], s⟩ (fun l hl => mem_stableSort.1 hl) (by simp)
  obtain ⟨rfl, rfl⟩ := Prod.mk.inj h
  exact (kept_resolveConflicts hc hn fun i hi => (hfound i hi).imp fun _ h => h.2).order

theorem ordered_of_nextInternal (hc : c.WellFormed) (hn : c.Numbered)
    (h : s.nextInternal c = (event, ts, t)) : Ordered c ts := by
  cases choice_of_nextInternal h with
  | eventless hs => exact ordered_of_select hc hn hs
  | idle | stop => exact .nil
  | next _ _ _ ht => exact ordered_of_select hc hn ht

/-- Whatever is about to be taken stands in document order. -/
theorem ordered_of_move (hc : c.WellFormed) (hn : c.Numbered) (h : Move c p s (.about event ts) t) :
    Ordered c ts := by
  cases h with
  | go => exact List.pairwise_singleton _ _
  | accept e hr he hs => exact ordered_of_select hc hn hs
  | choose hr hs => exact ordered_of_nextInternal hc hn hs

/-! ### Micro-steps -/

/-- Whether transitions are taken by rounds, certain states being left in one order and others entered
    in another. -/
structure ByRounds (c : Chart) (ts : List TransitionId) (step : Step) (left entered : List NodeId)
    (s t : Session) : Prop where
  exits : left.Perm step.exit
  outward : left.Pairwise fun m n =>
    (c.node n).order < (c.node m).order ∧ c.descends n m = false
  taken : step.transitions = ts
  ordered : Ordered c ts
  entries : entered.Perm step.plan.entry
  inward : entered.Pairwise fun m n =>
    (c.node m).order < (c.node n).order ∧ c.descends m n = false
  done : t = (Beat.rounds c step left entered).foldl (Beat.perform c) s
  told : t.notices = s.notices ++
    ((left.flatMap fun n => s.listeners.inform (c.node n).observable (.exited (c.node n))) ++
    (ts.flatMap fun i => (Notice.ofTransition c step.eventName i).flatMap
      (s.listeners.inform (c.transition i).observable)) ++
    entered.flatMap fun n => s.listeners.inform (c.node n).observable (.entered (c.node n)))
  unmoved : ∀ bs, bs <+: left.flatMap (Beat.exits c) → Unmoved s (bs.foldl (Beat.perform c) s)

/-- A session that holds what lies in the tables takes transitions by rounds. -/
theorem byRounds_microStep (hc : c.WellFormed) (hn : c.Numbered) (hin : c.Closed) (h : s.Held c)
    (hts : Ordered c ts) (ht : s.microStep c event ts = some t) : ∃ step left entered,
      Step.build c s.store event ts = some step ∧ ByRounds c ts step left entered s t := by
  obtain ⟨step, hb, rfl⟩ := Option.map_eq_some_iff.1 ht
  obtain ⟨hexit, hentry⟩ := h.within_build hc hin hb
  obtain ⟨plan, -, rfl⟩ := Option.map_eq_some_iff.1 hb
  have hout := hn.pairwise_sortReverse (NodeSet.nodup_of_pairwise (pairwise_exitOf s.store ts)) hexit
  have hinto := hn.pairwise_sortDocument (NodeSet.nodup_of_pairwise hentry.sorted) hentry.has
  have hdone := carryOut_eq_rounds hc ⟨event, ts, Step.exitOf c s.store ts, plan⟩ hentry.has s
  refine ⟨_, c.sortReverse _, c.sortDocument _, hb, stableSort_perm _ _, ?_, rfl, hts,
    stableSort_perm _ _, ?_, hdone, ?_, ?_⟩
  · exact hout.imp_of_mem fun _ hm h =>
      ⟨h, hn.not_descends hc (hexit _ (mem_stableSort.1 hm)) h⟩
  · exact hinto.imp_of_mem fun hm _ h =>
      ⟨h, hn.not_descends hc (hentry.has _ (mem_stableSort.1 hm)) h⟩
  · rw [hdone, (notices_foldl _ s).1, notices_rounds]
  · intro bs hbs
    refine unmoved_foldl fun b hb => ?_
    obtain ⟨n, -, hb⟩ := List.mem_flatMap.1 (hbs.subset hb)
    exact isMove_exits b hb

/-- Whenever a machine takes transitions, in whatever run and on its way from whatever was asked of it:
    it is done by rounds. First come the rounds of the states that are left, in the opposite order of the
    document and so from the inside out, and until all of them are over the same states count as active;
    then those of the transitions, in the order of the document; and then those of the states that are
    entered, in the order of the document and so from the outside in. Listeners are told in this order. -/
theorem byRounds_of_load {name : String} {version : Nat} {v : Value}
    (hl : Chart.load name version v = .ok c) :
    (∀ s₀ event ts s, Reaches c s₀ (.about event ts) s → ∃ step left entered t,
      Step.build c s.store event ts = some step ∧ s.microStep c event ts = some t ∧
        ByRounds c ts step left entered s t) ∧
    ∀ m event ts s t, Machine.Handled m → m.session.chart = some c →
      Onward c .rest m.session (.about event ts) s → s.microStep c event ts = some t →
      ∃ step left entered, Step.build c s.store event ts = some step ∧
        ByRounds c ts step left entered s t := by
  have hc := wellFormed_of_load hl
  have hn := numbered_of_load hl
  have hin : c.Closed := closed_of_compile (compile_of_load hl).choose_spec
  refine ⟨fun s₀ event ts s h => ?_, fun m event ts s t hm hchart ho ht => ?_⟩
  · have hp : Prepared c ts s := holds_of_reaches hc h
    obtain ⟨-, t, -, ht, -⟩ := microStep_spec hc event hp.sane hp.chosen
    have hts : Ordered c ts := by
      cases h with
      | go => exact List.pairwise_singleton _ _
      | move _ hm => exact ordered_of_move hc hn hm
    obtain ⟨step, left, entered, hb, hrounds⟩ :=
      byRounds_microStep hc hn hin (wanders_reaches hc hin h).2.held hts ht
    exact ⟨step, left, entered, t, hb, ht, hrounds⟩
  · have hg := (wanders_onward hc hin (hm.indexed.grounded c hchart) ho).2
    have hts : Ordered c ts := by
      cases ho with
      | move _ hmove => exact ordered_of_move hc hn hmove
    exact byRounds_microStep hc hn hin hg.held hts ht

/-- A block that logs a label. -/
def logging (label : String) : Value :=
  .object [("actions", .array [.object [("label", .string label), ("type", .string "log")]])]

/-- A hatch that is bolted while it is shut and wide when it is open. Whatever is left, taken or entered
    when it is pushed has something to say. -/
def hatch : Value :=
  .object [("states", .array [
    .object [("id", .string "Shut"), ("on_exit", .array [logging "unlatched"]),
      ("states", .array [
        .object [("id", .string "Bolted"), ("on_exit", .array [logging "unbolted"])]]),
      ("transitions", .array [
        .object [("actions", .array [.object [("label", .string "creaking"), ("type", .string "log")]]),
          ("event", .string "push"), ("target", .string "Wide")]])],
    .object [("id", .string "Open"), ("on_entry", .array [logging "swinging"]),
      ("states", .array [
        .object [("id", .string "Wide"), ("on_entry", .array [logging "still"])]])]])]

/-- The chart of the hatch. -/
def hatchChart : Chart := (Chart.load "hatch" 1 hatch).toOption.get (by decide +kernel)

theorem load_hatch : Chart.load "hatch" 1 hatch = .ok hatchChart := load_eq_ok _

/-- Someone who listens to the hatch. -/
def keeper : Listener := .named "keeper"

/-- Someone who listens to its being wide only. -/
def guest : Listener := .named "guest"

/-- The hatch before it is started, with the two who listen. -/
def newHatch : Session :=
  { Session.fresh (some hatchChart) (.ofSeed 0 0) with
    listeners := Listeners.add (hatchChart.node 3).observable guest
      (Listeners.add Listeners.chart keeper []) }

/-- The hatch, shut and bolted. -/
def shutHatch : Session := (newHatch.play hatchChart 10 []).get (by decide +kernel)

/-- What the shut hatch selects when it is pushed. -/
def pushed : List TransitionId × Session :=
  (shutHatch.answer hatchChart (.signal "push")).select hatchChart (some "push")

/-- The hatch at the moment when it is to be opened. -/
def pushedHatch : Session := { pushed.2 with pending := [] }

/-- What an entry says of a hatch: what is logged, or who is told of which states. -/
def gist : Entry → List String
  | .logged (some label) _ => [label]
  | .noticed (.named who) (.exited n) => [who, "exit", n.id]
  | .noticed (.named who) (.taken m n _ _) => [who, m.id, n.id]
  | .noticed (.named who) (.entered n) => [who, "entry", n.id]
  | _ => []

/-- What the opening of the hatch adds to the journal: two rounds for what is left, one for the transition
    and two for what is entered. -/
def openingOfHatch : List (List String) :=
  [["unbolted"], ["keeper", "exit", "Bolted"],
    ["unlatched"], ["keeper", "exit", "Shut"],
    ["creaking"], ["keeper", "Shut", "Wide"],
    ["swinging"], ["keeper", "entry", "Open"],
    ["still"], ["guest", "entry", "Wide"], ["keeper", "entry", "Wide"]]

/-- When the hatch is pushed, the bolt goes first and then the latch; the hatch creaks, swings, and is
    still. Content runs and the two who listen are told round by round, each of what it listens to. -/
theorem byRounds_pushedHatch : ∃ step left entered t,
    Step.build hatchChart pushedHatch.store (some (.signal "push")) [0] = some step ∧
    pushedHatch.microStep hatchChart (some (.signal "push")) [0] = some t ∧
    ByRounds hatchChart [0] step left entered pushedHatch t ∧ left = [1, 0] ∧ entered = [2, 3] ∧
    (t.journal.toList.drop pushedHatch.journal.size).map gist = openingOfHatch := by
  have hpushed : pushed.1 = [0] := by decide +kernel
  have hreach : Reaches hatchChart newHatch (.about (some (.signal "push")) pushed.1) pushedHatch :=
    (Run.of_play (Option.some_get _).symm).reaches.accepted (by decide +kernel) rfl
      (show pushed.1 ≠ [] by rw [hpushed]; exact List.cons_ne_nil _ _)
  rw [hpushed] at hreach
  obtain ⟨step, left, entered, t, hb, ht, hrounds⟩ :=
    (byRounds_of_load load_hatch).1 newHatch _ _ _ hreach
  have hplan : (Step.build hatchChart pushedHatch.store (some (.signal "push")) [0]).map
      (fun step => (step.exit, step.plan.entry)) = some ([0, 1], [2, 3]) := by decide +kernel
  have hgist : (pushedHatch.microStep hatchChart (some (.signal "push")) [0]).map
      (fun t => (t.journal.toList.drop pushedHatch.journal.size).map gist) =
        some openingOfHatch := by decide +kernel
  rw [hb] at hplan
  rw [ht] at hgist
  obtain ⟨hexit, hentry⟩ := Prod.mk.inj (Option.some.inj hplan)
  refine ⟨step, left, entered, t, hb, ht, hrounds, ?_, ?_, Option.some.inj hgist⟩
  · have hperm : left.Perm [1, 0] := hrounds.exits.trans (hexit ▸ List.reverse_perm [1, 0])
    exact hperm.eq_of_pairwise (fun _ _ _ _ h h' => absurd h.1 (Nat.lt_asymm h'.1)) hrounds.outward
      (by decide +kernel)
  · have hperm : entered.Perm [2, 3] := hentry ▸ hrounds.entries
    exact hperm.eq_of_pairwise (fun _ _ _ _ h h' => absurd h.1 (Nat.lt_asymm h'.1)) hrounds.inward
      (by decide +kernel)

end Session
end Statechart
