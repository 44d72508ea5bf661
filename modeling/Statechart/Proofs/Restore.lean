import Statechart.Machine.Basic
import Statechart.Proofs.ConfigurationTrees
import Statechart.Proofs.ExclusiveTargets

/-! What a snapshot is worth.

    Restoring a snapshot checks its active states, and a machine that takes it is in a legal
    configuration. What it says of histories is only checked for being about histories and states. If
    recorded states lie below the states whose histories they are and can be active together, as loading
    makes sure of the defaults of histories, the machine is as good as one that ran. Otherwise it goes
    wrong when a history is entered: recorded states that exclude each other are entered all the same,
    and histories that recorded each other are entered for ever. -/

namespace Statechart

open Chart Session

variable {c : Chart} {snap : Snapshot} {store : Store} {running : Bool} {leaves : NodeSet}
  {x y h n : NodeId}

namespace Store

theorem find?_lt {id : String} (h : c.find? id = some n) : n < c.nodes.size := by
  obtain ⟨hlt, -⟩ := Array.findIdx?_eq_some_iff_getElem.1 h
  exact hlt

theorem resolve_eq_ok {id : String} : resolve c id = .ok n ↔ c.find? id = some n := by
  unfold resolve
  split <;> simp_all

/-- Leaves that a snapshot names are leaves. -/
theorem of_resolveLeaves : ∀ {ids : List String} {leaves : NodeSet},
    resolveLeaves c ids = .ok leaves → leaves.Pairwise (· < ·) ∧
      ∀ l ∈ leaves, l < c.nodes.size ∧ (c.node l).isAtomic = true
  | [], leaves, h => by
    cases h
    exact ⟨.nil, by simp⟩
  | id :: ids, leaves, h => by
    rw [resolveLeaves] at h
    split at h
    · cases h
    rename_i n hn
    split at h
    case isFalse => cases h
    rename_i ha
    cases hrest : resolveLeaves c ids with
    | error e =>
      rw [hrest] at h
      cases h
    | ok rest =>
      rw [hrest] at h
      cases h
      obtain ⟨hsort, hleaf⟩ := of_resolveLeaves hrest
      refine ⟨NodeSet.pairwise_insert hsort, fun l hl => ?_⟩
      rcases NodeSet.mem_insert.1 hl with rfl | hl
      · exact ⟨find?_lt (resolve_eq_ok.1 hn), ha⟩
      · exact hleaf l hl

/-- A snapshot that is restored has passed the check of its configuration. -/
theorem of_restore (h : restore c snap = .ok store) :
    resolveLeaves c snap.configuration = .ok store.leaves ∧
      configurationError? c store.leaves snap.running = none := by
  unfold restore at h
  split at h
  · cases h
  split at h
  · cases h
  rename_i leaves hl
  split at h
  · cases h
  rename_i hconf
  split at h
  · cases h
  split at h
  · cases h
  cases h
  exact ⟨hl, hconf⟩

/-- One of a list is in a set if the count says so. -/
theorem exists_of_countIn {all : NodeSet} {ns : List NodeId} (h : countIn all ns = 1) :
    ∃ n ∈ ns, n ∈ all ∧ ∀ m ∈ ns, m ∈ all → m = n := by
  obtain ⟨n, hn⟩ := List.length_eq_one_iff.1 h
  have mem {m : NodeId} : m ∈ ns ∧ m ∈ all ↔ m = n := by
    rw [← List.mem_singleton, ← hn, List.mem_filter, List.contains_iff_mem]
  exact ⟨n, (mem.2 rfl).1, (mem.2 rfl).2, fun m hm hall => mem.1 ⟨hm, hall⟩⟩

theorem all_of_countIn {all : NodeSet} {ns : List NodeId} (h : countIn all ns = ns.length) :
    ∀ n ∈ ns, n ∈ all := by
  intro n hn
  simpa using List.filter_eq_self.1 (List.filter_sublist.eq_of_length h) n hn

/-- A snapshot that passes every check is restored. -/
theorem restore_eq_ok {histories : Dict NodeId NodeSet} {contexts : Dict NodeId Object}
    (hsum : snap.checksum = c.checksum) (hl : resolveLeaves c snap.configuration = .ok leaves)
    (hconf : configurationError? c leaves snap.running = none)
    (hh : resolveHistories c snap.histories = .ok histories)
    (hx : resolveContexts c snap.contexts = .ok contexts) :
    restore c snap = .ok (publish c { empty with
      sessionId := snap.sessionId, leaves, globals := snap.globals, contexts, histories
      createdAt := snap.createdAt }) := by
  simp only [restore, hsum, hl, hconf, hh, hx, ne_eq, not_true_eq_false, if_false]

/-- If nothing is wrong with a state the leaves branch there; a final state at the top is alone and the
    machine has stopped. -/
theorem of_stateError? (h : stateError? c (c.closure leaves) running n = none) :
    c.Branches leaves n ∧
      ((c.node n).isTopLevelFinal = true → (c.closure leaves).length = 1 ∧ running = false) := by
  unfold stateError? at h
  dsimp only at h
  split at h
  · rename_i hf
    refine ⟨.of_atomic (WellFormed.atomic_of_topLevelFinal hf).1, fun _ => ?_⟩
    split at h
    · cases h
    rename_i hlength
    split at h
    · cases h
    rename_i hrun
    exact ⟨Decidable.not_not.1 hlength, Bool.eq_false_iff.2 hrun⟩
  rename_i hf
  refine ⟨⟨fun hcomp => ?_, fun hpar => ?_⟩, fun hfin => absurd hfin hf⟩
  · rw [if_pos hcomp] at h
    split at h
    · cases h
    rename_i hcount
    exact coversOne_iff.2 (exists_of_countIn (Decidable.not_not.1 hcount))
  · rw [if_neg (Bool.eq_false_iff.1 (WellFormed.not_compound_of_parallel hpar)), if_pos hpar] at h
    split at h
    · cases h
    rename_i hcount
    exact fun m hm => mem_closure_iff_covers.1 (all_of_countIn (Decidable.not_not.1 hcount) m hm)

/-- What passes the check are leaves that branch everywhere below one state at the top, or none if the
    machine has stopped. -/
theorem of_configurationError? (h : configurationError? c leaves running = none) :
    (leaves = [] ∧ running = false) ∨ (c.CoversOne leaves c.children ∧
      ∀ n, c.Covers leaves n → c.Branches leaves n ∧
        ((c.node n).isTopLevelFinal = true → (c.closure leaves).length = 1 ∧ running = false)) := by
  unfold configurationError? at h
  dsimp only at h
  split at h
  · rename_i hempty
    split at h
    · cases h
    rename_i hrun
    exact .inl ⟨List.isEmpty_iff.1 hempty, Bool.eq_false_iff.2 hrun⟩
  split at h
  · cases h
  rename_i htop
  refine .inr ⟨coversOne_iff.2 (exists_of_countIn (Decidable.not_not.1 htop)), fun n hn => ?_⟩
  exact of_stateError? (List.findSome?_eq_none_iff.1 h n (mem_closure_iff_covers.2 hn))

/-- A set of leaves that passes the check of a running machine is a legal configuration. -/
theorem legal_of_configurationError? (hl : ∀ l ∈ store.leaves, l < c.nodes.size ∧
      (c.node l).isAtomic = true) (h : configurationError? c store.leaves true = none) :
    store.Legal c := by
  rcases of_configurationError? h with ⟨-, hrun⟩ | ⟨htop, hbr⟩
  · cases hrun
  have of_active {n : NodeId} (hn : n ∈ store.active c) := hbr n (mem_closure_iff_covers.1 hn)
  refine ⟨hl, coversOne_iff.1 htop, fun n hn hcomp => ?_, fun n hn hpar m hm => ?_, fun n hn => ?_⟩
  · exact coversOne_iff.1 ((of_active hn).1.compound hcomp)
  · exact mem_closure_iff_covers.2 ((of_active hn).1.parallel hpar m hm)
  · refine Bool.eq_false_iff.2 fun hfinal => ?_
    cases ((of_active hn).2 hfinal).2

section

variable (hc : c.WellFormed)

include hc

/-- A legal configuration is a regular one. -/
theorem Legal.regular (h : store.Legal c) : Regular c (store.active c) := by
  have leafState {l : NodeId} (hl : l ∈ store.leaves) : (c.node l).isHistory = false := by
    have ha := (h.leaf l hl).2
    cases hk : (c.node l).kind <;> simp [Node.isAtomic, Node.isHistory, hk] at ha ⊢
  have node {n : NodeId} (hn : n ∈ store.active c) :
      n < c.nodes.size ∧ (c.node n).isHistory = false := by
    obtain ⟨l, hl, hw⟩ := mem_closure_iff_covers.1 hn
    refine ⟨Nat.lt_of_le_of_lt (hc.le_of_within hw) (h.leaf l hl).1, ?_⟩
    rcases hw with rfl | hd
    · exact leafState hl
    · exact hc.not_history_of_descends hd
  have up {n : NodeId} (hn : c.Covers (store.active c) n) : n ∈ store.active c := by
    obtain ⟨m, hm, hw⟩ := hn
    exact hc.mem_closure_up hm hw
  refine ⟨fun {m n} hr hm hn => ?_, fun n hn => ⟨(node hn).1, (node hn).2, ?_, ?_⟩⟩
  · have hm := up hm
    have hn := up hn
    cases hp : (c.node m).parent with
    | none =>
      obtain ⟨r, -, -, huniq⟩ := h.top
      exact (huniq m (hc.mem_top.2 ⟨(node hm).1, hp⟩) hm).trans
        (huniq n (hc.mem_top.2 ⟨(node hn).1, hr.1.symm.trans hp⟩) hn).symm
    | some q =>
      have hq := hc.mem_closure_up hm (.inr (hc.descends_parent hp))
      obtain ⟨r, -, -, huniq⟩ := h.compound q hq (hr.2 q hp)
      exact (huniq m (hc.mem_children.2 ⟨hp, (node hm).2⟩) hm).trans
        (huniq n (hc.mem_children.2 ⟨hr.1.symm.trans hp, (node hn).2⟩) hn).symm
  · intro hcomp
    obtain ⟨m, hm, hmA, -⟩ := h.compound n hn hcomp
    exact ⟨m, hm, .of_mem hmA⟩
  · exact fun hpar m hm => .of_mem (h.parallel n hn hpar m hm)

/-- A legal configuration with trustworthy records is all that a running machine needs. -/
theorem Legal.steady (h : store.Legal c) (hsort : store.leaves.Pairwise (· < ·))
    (hrec : store.Recalls c) (hagr : ∀ x, store.Agrees c x) : store.Steady c where
  leaf l hl := (h.leaf l hl).2
  recalls := hrec
  unfinished l hl := h.unfinished l (mem_closure_of_mem hl)
  lawful _ :=
    { leaf := fun l hl => (h.leaf l hl).2
      recalls := hrec
      sorted := hsort
      regular := h.regular hc
      agrees := hagr
      active := by
        obtain ⟨n, -, hn, -⟩ := h.top
        obtain ⟨l, hl, -⟩ := mem_closure_iff_covers.1 hn
        exact List.ne_nil_of_mem hl }

end

/-- Whether a history leads back to itself: it is one of a set of histories each of which has recorded
    one of the set. -/
def Circular (c : Chart) (s : Store) (h : NodeId) : Prop :=
  ∃ H : NodeId → Prop, H h ∧ ∀ k, H k → (c.node k).isHistory = true ∧
    ∃ R, s.recorded? k = some R ∧ ∃ g ∈ R, H g

end Store

namespace EntryPlan

/-- A list of steps one of which never succeeds does not succeed. -/
theorem foldlM_eq_none {α : Type} {f : EntryPlan → α → Option EntryPlan} {a : α} : ∀ {as : List α},
    a ∈ as → (∀ p, f p a = none) → ∀ p, as.foldlM f p = none
  | b :: bs, ha, hf, p => by
    rw [List.foldlM_cons]
    rcases List.mem_cons.1 ha with rfl | ha
    · rw [hf]
      rfl
    · cases hb : f p b with
      | none => rfl
      | some q => exact foldlM_eq_none ha hf q

/-- Entering a history that leads back to itself has no end, however long one waits. -/
theorem enter_of_circular (hc : c.WellFormed) (hh : store.Circular c h) (fuel : Nat) (p : EntryPlan) :
    enter c store fuel h p = none := by
  obtain ⟨H, hh, hH⟩ := hh
  induction fuel generalizing h p with
  | zero => rfl
  | succ fuel ih =>
    obtain ⟨hhist, R, hR, g, hg, hHg⟩ := hH h hh
    obtain ⟨owner, ho⟩ := Option.isSome_iff_exists.1 ((hc.shaped h).top hhist)
    have hrem := Store.remembered?_of_recorded? hR (List.ne_nil_of_mem hg)
    rw [enter_history hhist ho]
    simp only [historyTargets, hrem, enterTargets]
    rw [foldlM_eq_none (f := fun p n => enter c store fuel n p) hg fun p => ih p hHg]
    rfl

/-- A transition to a history that leads back to itself has no step. -/
theorem build_of_circular (hc : c.WellFormed) (hh : store.Circular c h) {i : TransitionId}
    (hi : h ∈ (c.transition i).targets) (event : Option Event) :
    Step.build c store event [i] = none := by
  have hmem : h ∈ targetsOf c [i] := mem_targetsOf.2 ⟨i, by simp, hi⟩
  simp only [Step.build, ofTransitions]
  rw [foldlM_eq_none (f := fun p n => enter c store (depthBound c) n p) hmem
    fun p => enter_of_circular hc hh _ p]
  rfl

end EntryPlan

namespace Session

variable {p q : Phase} {s t u : Session}

/-- What a session comes to when it is moved on from where it stands. -/
inductive Onward (c : Chart) (p : Phase) (s : Session) : Phase → Session → Prop where
  | start : Onward c p s p s
  | move {q r : Phase} {t u : Session} (h : Onward c p s q t) (hm : Move c q t r u) :
      Onward c p s r u

theorem holds_of_onward (hc : c.WellFormed) (hs : Holds c p s) (h : Onward c p s q t) :
    Holds c q t := by
  induction h with
  | start => exact hs
  | move _ hm ih => exact holds_move hc ih hm

end Session

namespace Machine

variable {m m' : Machine}

/-- What a machine is that has taken a snapshot. -/
theorem of_attach (hm : m.session.chart = some c) (h : m.attach snap = .ok m') :
    Store.restore c snap = .ok m'.session.store ∧ m'.session.running = snap.running := by
  obtain ⟨d, store, hd, hstore, rfl⟩ := exists_of_attach h
  obtain rfl : c = d := Option.some.inj (hm.symm.trans hd)
  exact ⟨hstore, rfl⟩

/-- A machine takes a snapshot that can be restored. -/
theorem attach_eq_ok (hm : m.session.chart = some c) (h : Store.restore c snap = .ok store) :
    m.attach snap = .ok (m.mapSession fun s =>
      { clear s with store, initialized := true, running := snap.running }) := by
  simp only [attach, hm, h]

/-- A machine that takes a snapshot is in a legal configuration. If recorded states lie below those whose
    histories they are and can be active together, every later step is taken and keeps it so. But a
    transition that leads to recorded states that exclude each other forks, and one to a history that
    leads back to itself has no step. -/
theorem legal_of_attach {name : String} {version : Nat} {v : Value}
    (hl : Chart.load name version v = .ok c) (ha : c.HistoriesAlone)
    (hm : m.session.chart = some c) (h : m.attach snap = .ok m') (hr : snap.running = true) :
    m'.session.store.Legal c ∧
    (m'.session.store.Recalls c → (∀ x, m'.session.store.Agrees c x) →
      (∀ t, Onward c .rest m'.session .rest t → (t.running = true → t.store.Legal c) ∧
        ∀ fuel e u, t.nextStep c fuel e = some u → u.running = true → u.store.Legal c) ∧
      ∀ event ts t, Onward c .rest m'.session (.about event ts) t →
        ∃ u, t.microStep c event ts = some u ∧
          (u.running = true ∧ u.store.Legal c ∨ u.running = false ∧ u.store.Finished c)) ∧
    (m'.session.store.Recalls c → ∀ i event, ∃ step,
      Step.build c m'.session.store event [i] = some step ∧
      ∀ x ∈ c.resolved m'.session.store i, ∀ y ∈ c.resolved m'.session.store i,
        c.Excludes x y → ¬c.Unforked step.plan.entry) ∧
    ∀ x, m'.session.store.Circular c x →
      (∀ fuel p, EntryPlan.enter c m'.session.store fuel x p = none) ∧
      ∀ i, x ∈ (c.transition i).targets → ∀ event, Step.build c m'.session.store event [i] = none := by
  have hc := wellFormed_of_load hl
  obtain ⟨hrestore, hrun⟩ := of_attach hm h
  obtain ⟨hleaves, hconf⟩ := Store.of_restore hrestore
  obtain ⟨hsort, hleaf⟩ := Store.of_resolveLeaves hleaves
  have hlegal : m'.session.store.Legal c :=
    Store.legal_of_configurationError? hleaf (hr ▸ hconf)
  refine ⟨hlegal, fun hrec hagr => ?_, fun hrec i event => ?_, fun x hx =>
    ⟨EntryPlan.enter_of_circular hc hx, fun i hi => EntryPlan.build_of_circular hc hx hi⟩⟩
  · have hs : Holds c .rest m'.session := fun _ => hlegal.steady hc hsort hrec hagr
    have rest {t : Session} (ht : Onward c .rest m'.session .rest t) (hr : t.running = true) :
        t.store.Legal c := by
      have hst : t.store.Steady c := holds_of_onward hc hs ht hr
      exact hst.legal hc ha
    refine ⟨fun t ht => ⟨rest ht, fun fuel e u hu => rest (Closed.nextStep .move ht hu)⟩, ?_⟩
    intro event ts t ht
    obtain ⟨u, hu, hrun, hstop⟩ := Prepared.taken hc event (holds_of_onward hc hs ht)
    refine ⟨u, hu, ?_⟩
    cases hr : u.running with
    | true => exact .inl ⟨rfl, (hrun hr).legal hc ha⟩
    | false => exact .inr ⟨rfl, hstop hr ha⟩
  · obtain ⟨step, hb, -, hforked⟩ := Step.forked_of_excludes hc hrec i event
    exact ⟨step, hb, hforked⟩

/-- A snapshot of the lamp when it is off, with what its history is said to have recorded. -/
def lampOff (recorded : List String) : Snapshot :=
  { chart := "lamp", version := 1, checksum := lampChart.checksum, sessionId := "desk"
    running := true, configuration := ["Off"], histories := [("Last", recorded)], contexts := []
    globals := [], createdAt := 0 }

/-- The store of the lamp when it is off. -/
def lampStore (R : NodeSet) : Store :=
  .publish lampChart { Store.empty with sessionId := "desk", leaves := [0], histories := [(2, R)] }

theorem restore_lampOff {recorded : List String} {R : NodeSet}
    (h : (Store.resolveStates lampChart recorded).toOption = some R) :
    Store.restore lampChart (lampOff recorded) = .ok (lampStore R) := by
  have hleaves : Store.resolveLeaves lampChart ["Off"] = .ok [0] :=
    eq_ok_of_toOption (by decide +kernel)
  have hlast : Store.resolve lampChart "Last" = .ok 2 := eq_ok_of_toOption (by decide +kernel)
  have hhist : (lampChart.node 2).isHistory = true := by decide +kernel
  have hconf : Store.configurationError? lampChart [0] true = none := by decide +kernel
  refine Store.restore_eq_ok rfl hleaves hconf ?_ rfl
  simp [lampOff, Store.resolveHistories, hlast, hhist, eq_ok_of_toOption h, Except.map, Dict.insert]

/-- A lamp that has taken a snapshot. -/
def lampWith (R : NodeSet) : Machine :=
  (fresh (some lampChart) (.ofSeed 0 0)).mapSession fun s =>
    { clear s with store := lampStore R, initialized := true, running := true }

theorem attach_lampOff {recorded : List String} {R : NodeSet}
    (h : (Store.resolveStates lampChart recorded).toOption = some R) :
    (fresh (some lampChart) (.ofSeed 0 0)).attach (lampOff recorded) = .ok (lampWith R) :=
  attach_eq_ok rfl (restore_lampOff h)

/-- The lamp takes a snapshot in which it remembers being dim and bright, and one in which it remembers
    remembering. When it is switched on, it would enter both children of its bulb after the first, and
    its history for ever after the second. -/
theorem forked_lamp : (lampWith [4, 5, 7]).session.store.Legal lampChart ∧
    (∃ step, Step.build lampChart (lampWith [4, 5, 7]).session.store none [0] = some step ∧
      ¬lampChart.Unforked step.plan.entry) ∧
    Step.build lampChart (lampWith [2]).session.store none [0] = none := by
  have ha : lampChart.HistoriesAlone := by decide +kernel
  have htorn : (fresh (some lampChart) (.ofSeed 0 0)).attach (lampOff ["Dim", "Bright", "Slow"]) =
      .ok (lampWith [4, 5, 7]) := attach_lampOff (by decide +kernel)
  have hlost : (fresh (some lampChart) (.ofSeed 0 0)).attach (lampOff ["Last"]) =
      .ok (lampWith [2]) := attach_lampOff (by decide +kernel)
  obtain ⟨hlegal, -, hfork, -⟩ := legal_of_attach load_lamp ha rfl htorn rfl
  obtain ⟨-, -, -, hcirc⟩ := legal_of_attach load_lamp ha rfl hlost rfl
  have recorded {R S : NodeSet} {k : NodeId} (h : (lampStore R).recorded? k = some S) :
      k = 2 ∧ S = R := by
    simp only [Store.recorded?, lampStore, Store.publish, Dict.get?] at h
    split at h
    · exact ⟨‹_›, (Option.some.inj h).symm⟩
    · cases h
  have hrec : (lampStore [4, 5, 7]).Recalls lampChart := by
    intro k R hR x hx
    obtain ⟨rfl, rfl⟩ := recorded hR
    have hp : (lampChart.node 2).parent = some 1 := by decide +kernel
    have hall : ∀ x ∈ [4, 5, 7], (lampChart.node x).isHistory = false ∧
        lampChart.descends x 1 = true := by decide +kernel
    refine ⟨(hall x hx).1, fun p hp' => ?_⟩
    rw [hp] at hp'
    cases hp'
    exact (hall x hx).2
  refine ⟨hlegal, ?_, ?_⟩
  · obtain ⟨step, hb, hforked⟩ := hfork hrec 0 none
    refine ⟨step, hb, hforked 4 (by decide +kernel) 5 (by decide +kernel) ?_⟩
    exact ⟨3, 4, 5, by decide +kernel, by decide +kernel, by decide +kernel, by decide,
      .refl 4, .refl 5⟩
  · refine (hcirc 2 ⟨(· = 2), rfl, ?_⟩).2 0 (by decide +kernel) none
    rintro k rfl
    exact ⟨by decide +kernel, [2], rfl, 2, by simp, rfl⟩

end Machine
end Statechart
