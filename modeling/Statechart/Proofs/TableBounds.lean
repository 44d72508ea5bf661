import Statechart.Proofs.Numbering
import Statechart.Proofs.RunTrace
import Statechart.Proofs.StoreInvariants

/-! Indices that a session holds.

    States, transitions and processes are held by their index in the tables of a chart, so what is held
    means something only as long as it lies in them. What the tables of a chart that was compiled refer
    to lies in them. A stir is one thing that a session does with what it holds, done with indices that
    lie in the tables, and it leaves such indices behind, whatever a snapshot said that histories
    recorded. Everything that a session does, up to runs that never end, is one stir after the other, and
    so it never holds an index that means nothing. -/

namespace Statechart

open Chart

namespace Chart

variable {c : Chart} {n : NodeId}

/-- Whether what the tables of a chart refer to lies in them. -/
structure Closed (c : Chart) : Prop where
  top_lt : ∀ {m}, m ∈ c.children → m < c.nodes.size
  parent_lt : ∀ {n p}, (c.node n).parent = some p → p < c.nodes.size
  ancestor_lt : ∀ {n a}, a ∈ (c.node n).ancestors → a < c.nodes.size
  child_lt : ∀ {n m}, m ∈ (c.node n).children → m < c.nodes.size
  history_lt : ∀ {n h}, h ∈ (c.node n).histories → h < c.nodes.size
  start_lt : c.initial < c.transitions.size
  transition_lt : ∀ {n t}, t ∈ (c.node n).transitions → t < c.transitions.size
  initial_lt : ∀ {n t}, (c.node n).isCompound = true ∨ (c.node n).isHistory = true →
    (c.node n).initial = some t → t < c.transitions.size
  invoke_lt : ∀ {n i}, i ∈ (c.node n).invokes → i < c.invokes.size
  source_lt : ∀ {n t s}, t ∈ (c.node n).transitions → (c.transition t).source = some s →
    s < c.nodes.size
  target_lt : ∀ {t x}, x ∈ (c.transition t).targets → x < c.nodes.size
  domain_lt : ∀ {t d}, (c.transition t).domain = some d → d < c.nodes.size
  owner_lt : ∀ {n i}, i ∈ (c.node n).invokes → (c.invoke i).owner < c.nodes.size

theorem transition_of_le {t : TransitionId} (h : c.transitions.size ≤ t) : c.transition t = default := by
  rw [Chart.transition, Array.getElem?_eq_none h, Option.getD_none]

theorem lt_of_targets {t : TransitionId} (h : (c.transition t).targets ≠ []) :
    t < c.transitions.size := by
  refine Nat.lt_of_not_le fun hle => h ?_
  rw [transition_of_le hle]
  rfl

theorem lt_of_source {t : TransitionId} (h : (c.transition t).source = some n) :
    t < c.transitions.size := by
  refine Nat.lt_of_not_le fun hle => ?_
  rw [transition_of_le hle] at h
  cases h

/-- The processes of a state are declared in the chart. -/
theorem invoke_lt_of_compile {name : String} {version : Nat} {d : Definition}
    (h : compile name version d = .ok c) {i : InvokeId} (hi : i ∈ (c.node n).invokes) :
    i < c.invokes.size := by
  obtain ⟨o, k, targets, hb⟩ := built_of_compile h
  obtain ⟨v, hv, -⟩ := hb.numbered_outline.owner_eq hb.laid hb.nodes hi
  rw [hb.invokes]
  exact (List.getElem?_eq_some_iff.1 hv).1

/-- A transition through which a compound state or a history is entered is declared in the chart. -/
theorem WellFormed.initial_lt (hc : c.WellFormed) {t : TransitionId}
    (hkind : (c.node n).isCompound = true ∨ (c.node n).isHistory = true)
    (ht : (c.node n).initial = some t) : t < c.transitions.size := by
  rcases hkind with hcomp | hhist
  · obtain ⟨u, hu, hne, -⟩ := hc.initial hcomp
    obtain rfl : t = u := Option.some.inj (ht.symm.trans hu)
    exact lt_of_targets hne
  · obtain ⟨p, hp⟩ := Option.isSome_iff_exists.1 ((hc.shaped n).top hhist)
    cases hk : (c.node n).kind <;> simp [Node.isHistory, hk] at hhist
    obtain ⟨u, hu, hne, -⟩ := hc.default hk hp
    obtain rfl : t = u := Option.some.inj (ht.symm.trans hu)
    exact lt_of_targets hne

/-- What the tables of a chart that a definition compiles to refer to lies in them. -/
theorem closed_of_compile {name : String} {version : Nat} {d : Definition}
    (h : compile name version d = .ok c) : c.Closed := by
  have hc := wellFormed_of_compile h
  have hn := numbered_of_compile h
  constructor
  case top_lt => exact fun hm => (hc.mem_top.1 hm).1
  case parent_lt => exact fun hp => Nat.lt_trans (hc.parent_lt hp) (lt_size_of_parent hp)
  case ancestor_lt =>
    intro n a ha
    have hd : c.descends n a = true := descends_iff.2 ha
    exact Nat.lt_trans (hc.lt_of_descends hd) (hc.lt_size_of_descends hd)
  case child_lt => exact fun hm => lt_size_of_parent (hc.mem_children.1 hm).1
  case history_lt => exact fun hm => lt_size_of_parent (hc.mem_histories.1 hm).1
  case start_lt => exact lt_of_targets hc.start.2.1
  case transition_lt => exact fun ht => lt_of_source (hc.source_eq ht).1
  case initial_lt => exact hc.initial_lt
  case invoke_lt => exact fun hi => invoke_lt_of_compile h hi
  case source_lt =>
    intro n t s ht hs
    rw [(hc.source_eq ht).1] at hs
    cases hs
    exact lt_size_of_transition ht
  case target_lt => exact hc.target_lt
  case domain_lt => exact fun hd => NodeTable.lt_size_of_compound (hc.of_domain hd).1
  case owner_lt =>
    intro n i hi
    rw [hn.owner hi]
    exact NodeTable.lt_size_of_invoke hi

/-- Whether a transition and the state that it is from lie in the tables. -/
def Has (c : Chart) (t : TransitionId) : Prop :=
  t < c.transitions.size ∧ ∀ n, (c.transition t).source = some n → n < c.nodes.size

theorem Closed.has (hn : c.Closed) {t : TransitionId} (h : t ∈ (c.node n).transitions) : c.Has t :=
  ⟨hn.transition_lt h, fun _ => hn.source_lt h⟩

theorem Closed.has_initial (hn : c.Closed) (hc : c.WellFormed) : c.Has c.initial := by
  refine ⟨hn.start_lt, fun n h => ?_⟩
  rw [hc.start.1] at h
  cases h

end Chart

namespace Store

variable {c : Chart}

/-- Whether what a store holds lies in the tables of a chart: the active leaves, the states that have
    scopes, and what histories have recorded. -/
structure Inside (c : Chart) (s : Store) : Prop where
  leaves : ∀ n ∈ s.leaves, n < c.nodes.size
  scopes : ∀ n ∈ Dict.keys s.contexts, n < c.nodes.size
  records : ∀ r ∈ s.histories, r.1 < c.nodes.size ∧ ∀ n ∈ r.2, n < c.nodes.size

theorem inside_empty : Store.empty.Inside c := ⟨nofun, nofun, nofun⟩

theorem lt_of_resolve {id : String} {n : NodeId} (h : resolve c id = .ok n) : n < c.nodes.size :=
  find?_lt (resolve_eq_ok.1 h)

theorem lt_of_resolveStates : ∀ {ids : List String} {ns : NodeSet}, resolveStates c ids = .ok ns →
    ∀ n ∈ ns, n < c.nodes.size
  | [], ns, h => by
    cases h
    exact nofun
  | id :: ids, ns, h => by
    rw [resolveStates] at h
    split at h
    · cases h
    rename_i n hn
    cases hrest : resolveStates c ids with
    | error e =>
      rw [hrest] at h
      cases h
    | ok rest =>
      rw [hrest] at h
      cases h
      intro m hm
      rcases NodeSet.mem_insert.1 hm with rfl | hm
      · exact lt_of_resolve hn
      · exact lt_of_resolveStates hrest m hm

theorem lt_of_resolveHistories : ∀ {hs : List (String × List String)} {rs : Dict NodeId NodeSet},
    resolveHistories c hs = .ok rs → ∀ r ∈ rs, r.1 < c.nodes.size ∧ ∀ n ∈ r.2, n < c.nodes.size
  | [], rs, h => by
    cases h
    exact nofun
  | (id, ids) :: hs, rs, h => by
    rw [resolveHistories] at h
    split at h
    · cases h
    rename_i k hk
    split at h
    case isFalse => cases h
    split at h
    · cases h
    rename_i ns hns
    cases hrest : resolveHistories c hs with
    | error e =>
      rw [hrest] at h
      cases h
    | ok rest =>
      rw [hrest] at h
      cases h
      intro r hr
      rcases Dict.mem_of_mem_insert hr with rfl | hr
      · exact ⟨lt_of_resolve hk, lt_of_resolveStates hns⟩
      · exact lt_of_resolveHistories hrest r hr

theorem lt_of_resolveContexts : ∀ {xs : List (String × Object)} {scopes : Dict NodeId Object},
    resolveContexts c xs = .ok scopes → ∀ n ∈ Dict.keys scopes, n < c.nodes.size
  | [], scopes, h => by
    cases h
    exact nofun
  | (id, vars) :: xs, scopes, h => by
    rw [resolveContexts] at h
    split at h
    · cases h
    rename_i n hn
    cases hrest : resolveContexts c xs with
    | error e =>
      rw [hrest] at h
      cases h
    | ok rest =>
      rw [hrest] at h
      cases h
      intro m hm
      rcases Dict.mem_keys_insert.1 hm with rfl | hm
      · exact lt_of_resolve hn
      · exact lt_of_resolveContexts hrest m hm

/-- A snapshot speaks of states by name, so a store that is restored holds states of the chart. -/
theorem inside_of_restore {snap : Snapshot} {store : Store} (h : restore c snap = .ok store) :
    store.Inside c := by
  unfold restore at h
  split at h
  · cases h
  split at h
  · cases h
  rename_i leaves hl
  split at h
  · cases h
  split at h
  · cases h
  rename_i histories hh
  split at h
  · cases h
  rename_i contexts hx
  cases h
  exact ⟨fun n hn => ((of_resolveLeaves hl).2 n hn).1, lt_of_resolveContexts hx,
    lt_of_resolveHistories hh⟩

end Store

namespace Session

variable {c : Chart} {s t u : Session} {n : NodeId} {p q : Phase} {event : Option Event}
  {ts : List TransitionId}

/-- Whether what a session holds lies in the tables of a chart: its store, the states whose processes are
    to be started, and the processes that run with the states that declare them. -/
structure Held (c : Chart) (s : Session) : Prop extends s.store.Inside c where
  pending : ∀ n ∈ s.pending, n < c.nodes.size
  live : ∀ i ∈ Dict.keys s.live, i < c.invokes.size ∧ (c.invoke i).owner < c.nodes.size

/-- One thing that a session does, with indices that lie in the tables. -/
inductive Stir (c : Chart) (s : Session) : Session → Prop where
  | restart : Stir c s { s.restart c with pending := [] }
  | stop : Stir c s { s with running := false }
  | queue (queue : EventQueue) : Stir c s { s with queue }
  | notify (observable : Nat) (notice : Notice) : Stir c s (s.notify observable notice)
  | present (e : EventVariable) : Stir c s (s.present e)
  | publish : Stir c s (s.publish c)
  | select (event : Option String) : Stir c s (s.select c event).2
  | act {owner : Option NodeId} (h : ∀ n, owner = some n → n < c.nodes.size) (a : Action) :
      Stir c s (s.act c owner a)
  | record {n h : NodeId} (hn : n < c.nodes.size) (hh : h < c.nodes.size) :
      Stir c s (s.mapStore fun store => recordHistory c n store h)
  | deactivate {ns : List NodeId} (h : ∀ n ∈ ns, n < c.nodes.size) :
      Stir c s (s.mapStore (Store.deactivate ns))
  | activate {n : NodeId} (hn : n < c.nodes.size) : Stir c s (s.mapStore (Store.activate n))
  | ensureContext {n : NodeId} (hn : n < c.nodes.size) : Stir c s (s.mapStore (Store.ensureContext c n))
  | wait {n : NodeId} (hn : n < c.nodes.size) : Stir c s { s with pending := NodeSet.insert n s.pending }
  | giveUp (n : NodeId) : Stir c s { s with pending := NodeSet.erase n s.pending }
  | settle : Stir c s { s with pending := [] }
  | cancel {i : InvokeId} (hi : i < c.invokes.size) : Stir c s (s.cancelProcess i)
  | start {i : InvokeId} (hi : i < c.invokes.size) (ho : (c.invoke i).owner < c.nodes.size) :
      Stir c s (s.start c i)
  | tell (e : Event) (h : ∀ i ∈ Dict.keys s.live,
      i < c.invokes.size ∧ (c.invoke i).owner < c.nodes.size) : Stir c s (s.tellProcesses c e)

/-- One stir after the other. -/
def Stirs (c : Chart) : Session → Session → Prop := Relation.ReflTransGen (Stir c)

/-- One stir after the other, where in between others may change what the session works with. -/
def Wanders (c : Chart) : Session → Session → Prop :=
  Relation.ReflTransGen fun s t => Stir c s t ∨ ∃ chart invokers listeners sink outbox,
    t = s.equip chart invokers listeners sink outbox

/-! ### What stirs leave behind -/

namespace Held

/-- Content and processes give nothing new to hold, but for the processes themselves. -/
theorem worked (h : s.Held c) (hw : Worked s t) (hl : ∀ i ∈ Dict.keys t.live,
    i < c.invokes.size ∧ (c.invoke i).owner < c.nodes.size) : t.Held c where
  leaves := hw.store.leaves.1 ▸ h.leaves
  scopes := hw.store.keeps (P := fun store => ∀ n ∈ Dict.keys store.contexts, n < c.nodes.size)
    (fun _ _ _ _ _ hs n hn => hs n (Store.mem_keys_of_assign hn)) h.scopes
  records := hw.store.leaves.2 ▸ h.records
  pending := hw.pending ▸ h.pending
  live := hl

/-- The active states lie in the tables as the leaves do. -/
theorem active (h : s.Held c) (hn : c.Closed) : ∀ n ∈ s.store.active c, n < c.nodes.size := by
  intro n ha
  obtain ⟨l, hl, rfl | ha⟩ := mem_closure.1 ha
  · exact h.leaves _ hl
  · exact hn.ancestor_lt ha

/-- So does what a history records. -/
theorem recordOf (h : s.Held c) (hn : c.Closed) {kind : HistoryKind} {m : NodeId}
    (hm : m ∈ recordOf c s.store n kind) : m < c.nodes.size := by
  cases kind with
  | deep => exact h.leaves m (List.mem_filter.1 hm).1
  | shallow => exact hn.child_lt (List.mem_filter.1 (NodeSet.mem_ofList.1 hm)).1

end Held

theorem live_cancelProcess (i : InvokeId) : (s.cancelProcess i).initialized = s.initialized ∧
    ∀ j ∈ Dict.keys (s.cancelProcess i).live, j ∈ Dict.keys s.live := by
  have herase : ∀ j ∈ Dict.keys (Dict.erase i s.live), j ∈ Dict.keys s.live :=
    List.map_subset _ List.filter_sublist.subset
  cases dismissed_cancelProcess (s := s) i with
  | absent _ ht => rw [ht]; exact ⟨rfl, fun _ h => h⟩
  | stopped _ _ ht | failed _ _ ht => rw [ht]; exact ⟨rfl, herase⟩

theorem live_start (i : InvokeId) : (s.start c i).initialized = s.initialized ∧
    ∀ j ∈ Dict.keys (s.start c i).live, j = i ∨ j ∈ Dict.keys s.live := by
  have hready := silent_readied (c := c) (s := s) i
  cases launched_start (c := c) (s := s) i with
  | unsourced ht | unmade _ ht => rw [ht]; exact ⟨rfl, fun _ => .inr⟩
  | begun _ _ ht =>
    rw [ht]
    refine ⟨hready.initialized, fun j hj => ?_⟩
    rw [← hready.live]
    exact Dict.mem_keys_insert.1 hj
  | refused _ _ ht =>
    rw [ht]
    refine ⟨hready.initialized, fun j hj => .inr ?_⟩
    rw [← hready.live]
    exact hj

theorem live_tellProcess (e : Event) (i : InvokeId) (p : Process) :
    (s.tellProcess c e (i, p)).initialized = s.initialized ∧
      ∀ j ∈ Dict.keys (s.tellProcess c e (i, p)).live, j ∈ Dict.keys s.live := by
  cases informed_tellProcess (c := c) (s := s) e (i, p) with
  | completed _ ht =>
    have hrun := aside_run (c := c) (s := s) (some (c.invoke i).owner) (c.invoke i).finalize
    rw [ht]
    refine ⟨hrun.initialized, fun j hj => ?_⟩
    rw [← hrun.live]
    exact List.map_subset _ List.filter_sublist.subset hj
  | forwarded _ _ ht | refused _ _ ht | spared _ _ ht => rw [ht]; exact ⟨rfl, fun _ h => h⟩

theorem live_tellProcesses (e : Event) : (s.tellProcesses c e).initialized = s.initialized ∧
    ∀ j ∈ Dict.keys (s.tellProcesses c e).live, j ∈ Dict.keys s.live := by
  refine List.foldlRecOn (motive := fun t : Session => t.initialized = s.initialized ∧
    ∀ j ∈ Dict.keys t.live, j ∈ Dict.keys s.live) s.live (tellProcess c e) ⟨rfl, fun _ h => h⟩ ?_
  intro t ⟨hi, hl⟩ entry _
  obtain ⟨hi', hl'⟩ := live_tellProcess (c := c) (s := t) e entry.1 entry.2
  exact ⟨hi'.trans hi, fun j hj => hl j (hl' j hj)⟩

/-- A session that starts anew holds nothing yet. -/
theorem held_restart : Held c { s.restart c with pending := [] } where
  leaves := nofun
  scopes := nofun
  records := nofun
  pending := nofun
  live := by
    rw [live_restart (c := c)]
    exact nofun

section

variable (hc : c.WellFormed) (hn : c.Closed)

include hc hn

/-- What is held before a stir and lies in the tables does so after it. -/
theorem Stir.held (h : Stir c s t) (hs : s.Held c) : t.Held c := by
  cases h with
  | restart => exact held_restart
  | stop => exact ⟨hs.toInside, hs.pending, hs.live⟩
  | queue => exact ⟨hs.toInside, hs.pending, hs.live⟩
  | notify => exact ⟨hs.toInside, hs.pending, hs.live⟩
  | present => exact ⟨⟨hs.leaves, hs.scopes, hs.records⟩, hs.pending, hs.live⟩
  | publish => exact ⟨⟨hs.leaves, hs.scopes, hs.records⟩, hs.pending, hs.live⟩
  | select event =>
    obtain ⟨-, -, k, hk⟩ := select_spec hc (Prod.eta (s.select c event)).symm
    rw [show (s.select c event).2 = _ from hk.same]
    exact ⟨hs.toInside, hs.pending, hs.live⟩
  | @act owner _ a =>
    have hlive : (s.act c owner a).live = s.live := (aside_run (c := c) owner [a]).live
    exact hs.worked (worked_act owner a) (hlive ▸ hs.live)
  | @record n h _ hh =>
    show Held c { s with store := recordHistory c n s.store h }
    unfold recordHistory
    split
    · refine { hs with records := fun r hr => ?_ }
      rcases Dict.mem_of_mem_insert hr with rfl | hr
      · exact ⟨hh, fun m hm => hs.recordOf hn hm⟩
      · exact hs.records r hr
    · exact hs
  | deactivate h =>
    exact { hs with leaves := fun n hn => hs.leaves n (Store.mem_leaves_deactivate.1 hn).1 }
  | activate hn =>
    refine { hs with leaves := fun m hm => ?_ }
    exact (Store.mem_leaves_activate.1 hm).elim (fun e => e ▸ hn) (hs.leaves m)
  | @ensureContext n hn =>
    show Held c { s with store := s.store.ensureContext c n }
    unfold Store.ensureContext
    split
    · exact hs
    · refine { hs with scopes := fun m hm => ?_ }
      exact (Dict.mem_keys_insert.1 hm).elim (fun e => e ▸ hn) (hs.scopes m)
  | wait hn =>
    refine { hs with pending := fun m hm => ?_ }
    exact (NodeSet.mem_insert.1 hm).elim (fun e => e ▸ hn) (hs.pending m)
  | giveUp => exact { hs with pending := fun m hm => hs.pending m (NodeSet.mem_erase.1 hm).1 }
  | settle => exact { hs with pending := fun _ hm => absurd hm List.not_mem_nil }
  | cancel =>
    exact hs.worked (worked_cancelProcess _) fun i hi => hs.live i ((live_cancelProcess _).2 i hi)
  | @start i hi ho =>
    refine hs.worked (worked_start i) fun j hj => ?_
    rcases (live_start i).2 j hj with rfl | hj
    · exact ⟨hi, ho⟩
    · exact hs.live j hj
  | tell e =>
    exact hs.worked (worked_tellProcesses e) fun i hi => hs.live i ((live_tellProcesses e).2 i hi)

end

/-- No session that was started forgets that it was. -/
theorem Stir.initialized (h : Stir c s t) (hi : s.initialized = true) : t.initialized = true := by
  cases h with
  | restart => rfl
  | stop => exact hi
  | queue => exact hi
  | notify => exact hi
  | present => exact hi
  | publish => exact hi
  | select event => exact (silent_select event).initialized.trans hi
  | @act owner _ a => exact (aside_run (c := c) owner [a]).initialized.trans hi
  | record => exact hi
  | deactivate => exact hi
  | activate => exact hi
  | ensureContext => exact hi
  | wait => exact hi
  | giveUp => exact hi
  | settle => exact hi
  | cancel => exact (live_cancelProcess _).1.trans hi
  | start => exact (live_start _).1.trans hi
  | tell e => exact (live_tellProcesses e).1.trans hi

namespace Stirs

theorem refl (s : Session) : Stirs c s s := Relation.ReflTransGen.refl

theorem single (h : Stir c s t) : Stirs c s t := Relation.ReflTransGen.single h

theorem trans (h : Stirs c s t) (h' : Stirs c t u) : Stirs c s u := Relation.ReflTransGen.trans h h'

theorem tail (h : Stirs c s t) (h' : Stir c t u) : Stirs c s u := Relation.ReflTransGen.tail h h'

theorem foldl {α : Type} {f : Session → α → Session} {as : List α}
    (h : ∀ s, ∀ a ∈ as, Stirs c s (f s a)) (s : Session) : Stirs c s (as.foldl f s) :=
  List.foldlRecOn as f (.refl s) fun t ht a ha => ht.trans (h t a ha)

/-- What is held lies in the tables, however long a session stirs. -/
theorem held (hc : c.WellFormed) (hn : c.Closed) (h : Stirs c s t) (hs : s.Held c) : t.Held c := by
  induction h with
  | refl => exact hs
  | tail _ hstir ih => exact hstir.held hc hn ih

theorem initialized (h : Stirs c s t) (hi : s.initialized = true) : t.initialized = true := by
  induction h with
  | refl => exact hi
  | tail _ hstir ih => exact hstir.initialized ih

theorem wanders (h : Stirs c s t) : Wanders c s t :=
  Relation.ReflTransGen.mono (fun _ _ hs => Or.inl hs) _ _ h

end Stirs

/-! ### Steps, stir by stir -/

theorem stirs_run {owner : Option NodeId} (h : ∀ n, owner = some n → n < c.nodes.size)
    (as : List Action) (s : Session) : Stirs c s (s.run c owner as) :=
  .foldl (fun _ a _ => .single (.act h a)) s

/-- Content of a state in the tables. -/
theorem stirs_runFor (hn : n < c.nodes.size) (as : List Action) (s : Session) :
    Stirs c s (s.run c (some n) as) :=
  stirs_run (fun _ e => Option.some.inj e ▸ hn) as s

theorem stirs_runBlocks (hn : n < c.nodes.size) (announcement : String) :
    ∀ (bs : List Block) (announced : Bool) (s : Session),
      Stirs c s (s.runBlocks c n announcement bs announced)
  | [], _, s => .refl s
  | b :: bs, announced, s => by
    have hrun : Stirs c s (s.run c (some n) b.actions) := stirs_runFor hn b.actions s
    rw [runBlocks]
    split
    · exact (hrun.tail (.queue _)).trans (stirs_runBlocks hn announcement bs true _)
    · exact hrun.trans (stirs_runBlocks hn announcement bs announced _)

theorem stirs_recordHistories (hn : c.Closed) (hlt : n < c.nodes.size) (s : Session) :
    Stirs c s (s.recordHistories c n) := by
  have h : ∀ (hs : List NodeId), (∀ k ∈ hs, k < c.nodes.size) → ∀ s : Session,
      Stirs c s (s.mapStore fun store => hs.foldl (recordHistory c n) store) := by
    intro hs
    induction hs with
    | nil => exact fun _ s => .refl s
    | cons k hs ih =>
      intro hks s
      have hrest := ih (fun j hj => hks j (List.mem_cons_of_mem _ hj))
        (s.mapStore fun store => recordHistory c n store k)
      exact (Stirs.single (.record hlt (hks k List.mem_cons_self))).trans hrest
  exact h _ (fun _ => hn.history_lt) s

theorem stirs_cancelProcesses (hn : c.Closed) (s : Session) :
    Stirs c s (s.cancelProcesses (c.node n).invokes) :=
  .foldl (fun _ _ hi => .single (.cancel (hn.invoke_lt hi))) s

theorem stirs_leave (hn : c.Closed) (hlt : n < c.nodes.size) (s : Session) :
    Stirs c s (s.leave c n) := by
  have hexit := ((stirs_recordHistories hn hlt s).trans
    (stirs_runBlocks hlt ("exit.state." ++ (c.node n).id) (c.node n).onExit false _)).tail
    (.notify (c.node n).observable (.exited (c.node n)))
  refine hexit.trans ?_
  show Stirs c _ (endProcesses c n _)
  unfold endProcesses
  split
  · exact .single (.giveUp n)
  · exact stirs_cancelProcesses hn _

theorem stirs_leaveAll (hn : c.Closed) {exit : NodeSet} (h : ∀ n ∈ exit, n < c.nodes.size)
    (s : Session) : Stirs c s (s.leaveAll c exit) := by
  have horder : ∀ n ∈ c.sortReverse exit, n < c.nodes.size := fun n hm => h n (mem_stableSort.1 hm)
  exact (Stirs.foldl (fun s n hm => stirs_leave hn (horder n hm) s) s).tail (.deactivate horder)

theorem stirs_take {i : TransitionId} (hi : c.Has i) (event : Option String) (s : Session) :
    Stirs c s (s.take c event i) := by
  have hrun : Stirs c s (s.run c (c.transition i).source (c.transition i).actions) :=
    stirs_run hi.2 _ s
  unfold take
  dsimp only
  split
  · exact hrun.trans (.foldl (fun _ _ _ => .single (.notify ..)) _)
  · exact hrun

theorem stirs_finish (m : Node) (s : Session) : Stirs c s (s.finish c m) := by
  unfold finish
  split
  · split
    · exact .single .stop
    · unfold raiseDone
      dsimp only
      split
      · exact .single (.queue _)
      split
      · exact (Stirs.single (.queue _)).tail (.queue _)
      · exact .single (.queue _)
  · exact .refl s

theorem stirs_runDefaults (plan : EntryPlan) {m : Node} (hlt : m.index < c.nodes.size) (s : Session) :
    Stirs c s (s.runDefaults c plan m) := by
  rw [runDefaults_eq]
  exact .foldl (fun s t _ => stirs_runFor hlt (c.transition t).actions s) s

theorem stirs_enterState (hc : c.WellFormed) (plan : EntryPlan) (hlt : n < c.nodes.size) (s : Session) :
    Stirs c s (s.enterState c plan n) := by
  have hlight : Stirs c s (s.light c n) := by
    unfold light
    split
    · exact .single (.activate hlt)
    · exact .refl s
  let lit := (s.light c n).mapStore (Store.ensureContext c n)
  have hscope : Stirs c s lit := hlight.tail (.ensureContext hlt)
  have hwait : Stirs c s (if (c.node n).invokes.isEmpty then lit
      else { lit with pending := NodeSet.insert n lit.pending }) := by
    split
    · exact hscope
    · exact hscope.tail (.wait hlt)
  have hentered := (hwait.trans
    (stirs_runBlocks hlt ("entry.state." ++ (c.node n).id) (c.node n).onEntry false _)).tail
    (.notify (c.node n).observable (.entered (c.node n)))
  have hindex : (c.node n).index < c.nodes.size := (hc.index_eq hlt).symm ▸ hlt
  exact (hentered.trans (stirs_runDefaults plan hindex _)).trans (stirs_finish (c.node n) _)

/-- Histories of a session stand for states in the tables, wherever they are entered. -/
theorem Held.trusted (h : s.Held c) : EntryPlan.Trusted c (· < c.nodes.size) s.store :=
  fun _ _ hR x hx =>
    (h.records _ (Dict.mem_of_get? (Store.recorded?_of_remembered? hR).1)).2 x hx

/-- A step is carried out stir by stir. -/
theorem stirs_carryOut (hc : c.WellFormed) (hn : c.Closed) {step : Step}
    (hexit : ∀ n ∈ step.exit, n < c.nodes.size) (htake : ∀ i ∈ step.transitions, c.Has i)
    (hentry : ∀ n ∈ step.plan.entry, n < c.nodes.size) (s : Session) :
    Stirs c s (s.carryOut c step) := by
  have hleft : Stirs c s (s.leaveAll c step.exit) := stirs_leaveAll hn hexit s
  have htaken := hleft.trans (.foldl (f := take c step.eventName)
    (fun s i hi => stirs_take (htake i hi) _ s) _)
  exact htaken.trans (.foldl (fun s n hm => stirs_enterState hc _ (hentry n (mem_stableSort.1 hm)) s) _)

/-- What a step leaves and enters lies in the tables. -/
theorem Held.within_build (hc : c.WellFormed) (hn : c.Closed) (h : s.Held c) {step : Step}
    (hb : Step.build c s.store event ts = some step) :
    (∀ n ∈ step.exit, n < c.nodes.size) ∧ step.plan.Drawn (· < c.nodes.size) := by
  obtain ⟨plan, hplan, rfl⟩ := Option.map_eq_some_iff.1 hb
  have htree : c.OfTrees (· < c.nodes.size) :=
    fun hp => iff_of_true (lt_size_of_parent hp) (hn.parent_lt hp)
  refine ⟨fun n hm => ?_,
    EntryPlan.drawn_ofTransitions hc htree h.trusted (fun _ _ _ hx => hn.target_lt hx) hplan⟩
  obtain ⟨i, -, hm⟩ := Step.mem_exitOf.1 hm
  exact h.active hn n (mem_exitSet.1 hm).1

theorem stirs_microStep (hc : c.WellFormed) (hn : c.Closed) (h : s.Held c) (hts : ∀ i ∈ ts, c.Has i)
    (ht : s.microStep c event ts = some t) : Stirs c s t := by
  obtain ⟨step, hb, rfl⟩ := Option.map_eq_some_iff.1 ht
  obtain ⟨hexit, hentry⟩ := h.within_build hc hn hb
  obtain ⟨plan, -, rfl⟩ := Option.map_eq_some_iff.1 hb
  exact stirs_carryOut hc hn hexit hts hentry.has s

/-! ### Runs, stir by stir -/

/-- The transitions that are selected, and their sources, lie in the tables. -/
theorem has_of_select (hc : c.WellFormed) (hn : c.Closed) {name : Option String}
    (h : s.select c name = (ts, t)) : ∀ i ∈ ts, c.Has i := by
  intro i hi
  obtain ⟨-, hown, -⟩ := select_spec hc h
  obtain ⟨m, -, hm⟩ := hown i hi
  exact hn.has hm

theorem stirs_select {name : Option String} (h : s.select c name = (ts, t)) : Stirs c s t := by
  have := Stirs.single (Stir.select (c := c) (s := s) name)
  rwa [h] at this

theorem stirs_startPending (hn : c.Closed) (s : Session) : Stirs c s (s.startPending c) := by
  have hall : Stirs c s (s.startAll c s.pending) :=
    .foldl (fun s n _ => .foldl (fun _ i hi => .single (.start (hn.invoke_lt hi) (hn.owner_lt hi))) s) s
  exact hall.tail .settle

theorem stirs_answer (h : s.Held c) (e : Event) : Stirs c s (s.answer c e) := by
  have hpresent : Stirs c s (s.present (.ofEvent e false)) := .single (.present _)
  exact hpresent.tail (.tell e h.live)

theorem stirs_nextInternal (hc : c.WellFormed) (hn : c.Closed) (h : s.nextInternal c = (event, ts, t)) :
    Stirs c s t ∧ ∀ i ∈ ts, c.Has i := by
  cases choice_of_nextInternal h with
  | eventless hs => exact ⟨stirs_select hs, has_of_select hc hn hs⟩
  | idle hs => exact ⟨stirs_select hs, nofun⟩
  | @stop e queue _ hs => exact ⟨((stirs_select hs).tail (.queue queue)).tail .stop, nofun⟩
  | @next e queue _ _ _ hs _ _ ht =>
    have hpresent := ((stirs_select hs).tail (.queue queue)).tail (.present (.ofEvent e true))
    exact ⟨hpresent.trans (stirs_select ht), has_of_select hc hn ht⟩

theorem stirs_finalStep (hn : c.Closed) (h : s.Held c) : Stirs c s (s.finalStep c) := by
  have habandon {n : NodeId} (hlt : n < c.nodes.size) (s : Session) : Stirs c s (s.abandon c n) := by
    have hexit : Stirs c s ((c.node n).onExit.foldl (fun s b => s.run c (some n) b.actions) s) :=
      .foldl (fun s b _ => stirs_runFor hlt b.actions s) s
    have hleft := (hexit.trans (stirs_cancelProcesses (n := n) hn _)).tail
      (.notify (c.node n).observable (.exited (c.node n)))
    unfold abandon
    dsimp only
    split
    · exact hleft
    · exact hleft.tail (.deactivate (by simpa using hlt))
  unfold finalStep
  split
  · exact .refl s
  · have hall : Stirs c s ((c.sortReverse (s.store.active c)).foldl (abandon c) s) :=
      .foldl (fun s n hm => habandon (h.active hn n (mem_stableSort.1 hm)) s) s
    exact hall.tail .publish

/-- What is the case of a session between two moves: in the tables lies also what it is about to take,
    and at rest no process is still to be started. -/
structure Grounded (c : Chart) (p : Phase) (s : Session) : Prop where
  held : s.Held c
  has : ∀ event ts, p = .about event ts → ∀ i ∈ ts, c.Has i
  pending : p = .rest → s.pending = []

/-- Others may change what a session works with. -/
theorem Grounded.equip (h : Grounded c p s) (chart : Option Chart) (invokers : Dict String Invoker)
    (listeners : Listeners) (sink : Sink) (outbox : List (Sink × Event)) :
    Grounded c p (s.equip chart invokers listeners sink outbox) :=
  ⟨⟨h.held.toInside, h.held.pending, h.held.live⟩, h.has, h.pending⟩

section

variable (hc : c.WellFormed) (hn : c.Closed)

include hc hn

/-- A session that has come to rest stir by stir. -/
theorem Grounded.of_stirs (hs : s.Held c) (hst : Stirs c s t) (hp : t.pending = []) :
    Grounded c .rest t :=
  ⟨hst.held hc hn hs, nofun, fun _ => hp⟩

/-- A session that is about to take the first step on a chart. -/
theorem grounded_restart : Grounded c (.about none [c.initial]) { s.restart c with pending := [] } := by
  refine ⟨held_restart, ?_, nofun⟩
  rintro _ _ ⟨⟩ i hi
  exact List.mem_singleton.1 hi ▸ hn.has_initial hc

/-- Having seen an event from outside, and selected transitions for it. -/
theorem stirs_told {e : Event} (hs : s.Held c) (h : (s.answer c e).select c (some e.name) = (ts, t)) :
    Stirs c s t ∧ t.pending = s.pending ∧ ∀ i ∈ ts, c.Has i := by
  obtain ⟨-, -, k, hk⟩ := select_spec hc h
  have hw : Worked (s.present (.ofEvent e false)) (s.answer c e) := worked_tellProcesses e
  exact ⟨(stirs_answer hs e).trans (stirs_select h), hk.pending.trans hw.pending, has_of_select hc hn h⟩

theorem Stirs.final (hs : s.Held c) (h : Stirs c s t) : Stirs c s (t.finalStep c) :=
  h.trans (stirs_finalStep hn (h.held hc hn hs))

/-- Every move is made stir by stir, but for those of others. -/
theorem stirs_move (h : Grounded c p s) (hm : Move c p s q t) : Grounded c q t ∧ (Stirs c s t ∨
    p = .rest ∧ ∃ chart invokers listeners sink outbox,
      t = s.equip chart invokers listeners sink outbox) := by
  have hs := h.held
  have rests {t : Session} (hst : Stirs c s t) (ht : t.pending = []) : Grounded c .rest t :=
    .of_stirs hc hn hs hst ht
  cases hm with
  | equip chart invokers listeners sink outbox =>
    exact ⟨h.equip .., .inr ⟨rfl, chart, invokers, listeners, sink, outbox, rfl⟩⟩
  | go =>
    exact ⟨grounded_restart hc hn, .inl (.single .restart)⟩
  | stop e hr he =>
    have hst : Stirs c s ({ s with running := false }.finalStep c) :=
      .final hc hn hs (.single .stop)
    exact ⟨rests hst (pending_finalStep.trans (h.pending rfl)), .inl hst⟩
  | ignore e hr he hsel =>
    obtain ⟨hst, hp, -⟩ := stirs_told hc hn hs hsel
    have hst := hst.final hc hn hs
    exact ⟨rests hst (pending_finalStep.trans (hp.trans (h.pending rfl))), .inl hst⟩
  | accept e hr he hsel =>
    obtain ⟨hst, -, hts⟩ := stirs_told hc hn hs hsel
    have hst := hst.tail .settle
    refine ⟨⟨hst.held hc hn hs, ?_, nofun⟩, .inl hst⟩
    rintro _ _ ⟨⟩
    exact hts
  | take hm =>
    have hst := (stirs_microStep hc hn hs (h.has _ _ rfl) hm).tail .publish
    exact ⟨⟨hst.held hc hn hs, nofun, nofun⟩, .inl hst⟩
  | choose hr hnext =>
    obtain ⟨hst, hts⟩ := stirs_nextInternal hc hn hnext
    refine ⟨⟨hst.held hc hn hs, ?_, nofun⟩, .inl hst⟩
    rintro _ _ ⟨⟩
    exact hts
  | pause hr hnext =>
    have hst := (stirs_nextInternal hc hn hnext).1.trans (stirs_startPending hn _)
    exact ⟨⟨hst.held hc hn hs, nofun, nofun⟩, .inl hst⟩
  | settle hr hnext =>
    have hst := ((stirs_nextInternal hc hn hnext).1.trans (stirs_startPending hn _)).tail .settle
    exact ⟨rests hst rfl, .inl hst⟩
  | cancel hr hnext =>
    have hst := ((stirs_nextInternal hc hn hnext).1.tail .settle).final hc hn hs
    exact ⟨rests hst pending_finalStep, .inl hst⟩
  | halt =>
    have hst : Stirs c s ({ s with pending := [] }.finalStep c) := .final hc hn hs (.single .settle)
    exact ⟨rests hst pending_finalStep, .inl hst⟩

/-- What a session does by itself before it comes to rest it does stir by stir. -/
theorem stirs_going {s₀ : Session} : Going c fun p t => Stirs c s₀ t ∧ Grounded c p t := by
  intro p q s t ⟨hst, hg⟩ hm hp
  obtain ⟨hg', h | ⟨hrest, -⟩⟩ := stirs_move hc hn hg hm
  · exact ⟨hst.trans h, hg'⟩
  · exact absurd hrest hp

/-- Starting is one stir after the other, whatever was held before. -/
theorem stirs_firstStep {fuel : Nat} (ht : s.firstStep c fuel = some t) :
    Stirs c { s.restart c with pending := [] } t ∧ Grounded c .rest t := by
  obtain ⟨u, hu, rfl⟩ := Option.map_eq_some_iff.1 ht
  exact Going.takeAndSettle (stirs_going hc hn) ⟨.refl _, grounded_restart hc hn⟩ hu

/-- So is working off an event. -/
theorem stirs_nextStep {fuel : Nat} {e : Event} (h : Grounded c .rest s)
    (ht : s.nextStep c fuel e = some t) : Stirs c s t ∧ Grounded c .rest t := by
  have hs := h.held
  cases stepped_of_nextStep ht with
  | idle hr ht =>
    subst ht
    exact ⟨.refl _, h⟩
  | stopped hr he ht =>
    subst ht
    have hst : Stirs c s ({ s with running := false }.finalStep c) :=
      .final hc hn hs (.single .stop)
    exact ⟨hst, .of_stirs hc hn hs hst (pending_finalStep.trans (h.pending rfl))⟩
  | ignored hr he hsel ht =>
    subst ht
    obtain ⟨hst, hp, -⟩ := stirs_told hc hn hs hsel
    have hst := hst.final hc hn hs
    exact ⟨hst, .of_stirs hc hn hs hst (pending_finalStep.trans (hp.trans (h.pending rfl)))⟩
  | taken hr he hsel hv ht =>
    subst ht
    obtain ⟨hst, -, hts⟩ := stirs_told hc hn hs hsel
    have hst := hst.tail .settle
    refine Going.takeAndSettle (stirs_going hc hn) ⟨hst, hst.held hc hn hs, ?_, nofun⟩ hv
    rintro _ _ ⟨⟩
    exact hts

/-- Whatever becomes of a session that stands somewhere, it comes there stir by stir. -/
theorem wanders_onward (h : Grounded c p s) (ho : Onward c p s q t) :
    Wanders c s t ∧ Grounded c q t := by
  induction ho with
  | start => exact ⟨.refl, h⟩
  | move _ hm ih =>
    obtain ⟨hg, hst | ⟨-, hequip⟩⟩ := stirs_move hc hn ih.2 hm
    · exact ⟨ih.1.trans hst.wanders, hg⟩
    · exact ⟨ih.1.tail (.inr hequip), hg⟩

/-- And so does one that starts anew, whatever it held before. -/
theorem wanders_reaches (h : Reaches c s p t) :
    Wanders c { s.restart c with pending := [] } t ∧ Grounded c p t := by
  refine wanders_onward hc hn (grounded_restart hc hn) ?_
  induction h with
  | go => exact .start
  | move _ hm ih => exact ih.move hm

/-- What is held lies in the tables, however long a session wanders. -/
theorem Wanders.held (h : Wanders c s t) (hs : s.Held c) : t.Held c := by
  induction h with
  | refl => exact hs
  | tail _ hstep ih =>
    obtain hstir | ⟨chart, invokers, listeners, sink, outbox, rfl⟩ := hstep
    · exact hstir.held hc hn ih
    · exact ⟨ih.toInside, ih.pending, ih.live⟩

end

end Session
end Statechart
