import Statechart.Proofs.Conflict
import Statechart.Proofs.Entrances
import Statechart.Proofs.FailedSearches

/-! Every active state decides for itself.

    A search goes from one leaf after the other and stops at a state that another leaf has led to
    before. It finds the same as if every leaf were asked alone, what the innermost state that contains
    it offers: where a walk is cut short, whatever is offered further out is among what was found
    already. What it saves is that no transition is looked at twice.

    To say so, the search is written once more over whatever tests transitions. With the test of a
    session it is the search itself; with a test that only answers it is easily compared; and with one
    that keeps a record it shows what is looked at. -/

namespace Statechart.Session

open Chart

/-! ### Searches over a test -/

/-- What tells whether a transition is enabled, and what becomes of it by that. -/
abbrev Test (σ : Type) := TransitionId → σ → Bool × σ

/-- What a search has found and seen, and what its test has become. -/
structure Hunt (σ : Type) where
  found : List TransitionId
  seen : NodeSet
  state : σ

section

variable {σ : Type} (c : Chart) (ask : Test σ) (skip : NodeId → σ → σ)

/-- The first transition of a list that passes a test. -/
def firstBy : List TransitionId → σ → Option TransitionId × σ
  | [], x => (none, x)
  | t :: ts, x => if (ask t x).1 then (some t, (ask t x).2) else firstBy ts (ask t x).2

/-- Searches a state and those above it, up to the first transition that passes or a state seen
    before. -/
def climbBy : List NodeId → Hunt σ → Hunt σ
  | [], h => h
  | n :: ns, h =>
    if h.seen.contains n then h
    else
      let first := firstBy ask (c.node n).transitions h.state
      match first.1 with
      | some t => ⟨h.found ++ [t], NodeSet.insert n h.seen, first.2⟩
      | none => climbBy ns ⟨h.found, NodeSet.insert n h.seen, first.2⟩

/-- Searches from a leaf, or skips it if there is nothing to search. -/
def leafBy (h : Hunt σ) (leaf : NodeId) : Hunt σ :=
  match chainOf c leaf with
  | some chain => climbBy c ask chain h
  | none => { h with state := skip leaf h.state }

/-- Searches from leaves one after the other. -/
def huntBy (leaves : List NodeId) (x : σ) : Hunt σ := leaves.foldl (leafBy c ask skip) ⟨[], [], x⟩

end

/-! ### Tests that answer alike -/

section

variable {σ τ : Type} {c : Chart} {R : σ → τ → Prop} {ask : Test σ} {ask' : Test τ}
  {skip : NodeId → σ → σ} {skip' : NodeId → τ → τ}

/-- Whether two searches have come to the same by now. -/
structure Hunt.Like (R : σ → τ → Prop) (h : Hunt σ) (h' : Hunt τ) : Prop where
  found : h.found = h'.found
  seen : h.seen = h'.seen
  state : R h.state h'.state

/-- Whether two tests answer alike, as long as what became of them corresponds. -/
def Agree (R : σ → τ → Prop) (ask : Test σ) (ask' : Test τ) : Prop :=
  ∀ t x y, R x y → (ask t x).1 = (ask' t y).1 ∧ R (ask t x).2 (ask' t y).2

theorem firstBy_like (ha : Agree R ask ask') : ∀ (ts : List TransitionId) {x : σ} {y : τ}, R x y →
    (firstBy ask ts x).1 = (firstBy ask' ts y).1 ∧ R (firstBy ask ts x).2 (firstBy ask' ts y).2
  | [], _, _, h => ⟨rfl, h⟩
  | t :: ts, x, y, h => by
    obtain ⟨hb, hr⟩ := ha t x y h
    rw [firstBy, firstBy, hb]
    split
    · exact ⟨rfl, hr⟩
    · exact firstBy_like ha ts hr

theorem climbBy_like (ha : Agree R ask ask') : ∀ (ns : List NodeId) {h : Hunt σ} {h' : Hunt τ},
    h.Like R h' → (climbBy c ask ns h).Like R (climbBy c ask' ns h')
  | [], _, _, hl => hl
  | n :: ns, h, h', hl => by
    obtain ⟨ho, hr⟩ := firstBy_like ha (c.node n).transitions hl.state
    rw [climbBy, climbBy, hl.seen]
    dsimp only
    rw [ho, hl.found]
    split
    · exact hl
    split
    · exact ⟨rfl, rfl, hr⟩
    · exact climbBy_like ha ns ⟨rfl, rfl, hr⟩

/-- Searches with tests that answer alike find and see the same. -/
theorem huntBy_like (ha : Agree R ask ask') (hs : ∀ leaf x y, R x y → R (skip leaf x) (skip' leaf y))
    (leaves : List NodeId) {x : σ} {y : τ} (h : R x y) :
    (huntBy c ask skip leaves x).Like R (huntBy c ask' skip' leaves y) := by
  suffices hfold : ∀ (h : Hunt σ) (h' : Hunt τ), h.Like R h' →
      (leaves.foldl (leafBy c ask skip) h).Like R (leaves.foldl (leafBy c ask' skip') h') from
    hfold _ _ ⟨rfl, rfl, h⟩
  induction leaves with
  | nil => exact fun _ _ hl => hl
  | cons leaf leaves ih =>
    intro h h' hl
    refine ih _ _ ?_
    unfold leafBy
    split
    · exact climbBy_like ha _ hl
    · exact ⟨hl.found, hl.seen, hs leaf _ _ hl.state⟩

end

/-! ### The search of a session -/

section

variable {c : Chart} {event : Option String} {s : Session} {t : TransitionId} {n : NodeId}

/-- Reports a leaf that has no states to search. -/
def skipLeaf (c : Chart) (leaf : NodeId) (s : Session) : Session :=
  s.report .illegalConfig "top-level final state active while running" (some (c.path leaf))

theorem firstEnabled_eq : ∀ (ts : List TransitionId) (s : Session),
    firstEnabled c event ts s = firstBy (enabled c event) ts s
  | [], _ => rfl
  | t :: ts, s => by
    rw [firstEnabled, firstBy]
    split <;> rename_i s' e <;> rw [e]
    · rfl
    · exact firstEnabled_eq ts s'

theorem climb_eq : ∀ (ns : List NodeId) (r : Search),
    climbBy c (enabled c event) ns ⟨r.found, r.seen, r.session⟩ =
      let r' := climb c event ns r
      ⟨r'.found, r'.seen, r'.session⟩
  | [], _ => rfl
  | n :: ns, r => by
    rw [climb, climbBy, firstEnabled_eq]
    dsimp only
    split
    · rfl
    · rcases firstBy (enabled c event) (c.node n).transitions r.session with ⟨_ | t, s'⟩
      · exact climb_eq ns ⟨r.found, NodeSet.insert n r.seen, s'⟩
      · rfl

/-- The search of a session is a search whose test is whether a transition is enabled. -/
theorem search_eq : huntBy c (enabled c event) (skipLeaf c) (c.sortDocument s.store.leaves) s =
    let r := s.search c event
    ⟨r.found, r.seen, r.session⟩ := by
  suffices hfold : ∀ (ls : List NodeId) (r : Search),
      ls.foldl (leafBy c (enabled c event) (skipLeaf c)) ⟨r.found, r.seen, r.session⟩ =
        let r' := ls.foldl (searchLeaf c event) r
        ⟨r'.found, r'.seen, r'.session⟩ from hfold _ ⟨[], [], s⟩
  intro ls
  induction ls with
  | nil => exact fun _ => rfl
  | cons leaf ls ih =>
    intro r
    rw [List.foldl_cons, List.foldl_cons, ← ih (searchLeaf c event r leaf)]
    congr 1
    unfold leafBy searchLeaf
    cases chainOf c leaf with
    | some chain => exact climb_eq chain r
    | none => rfl

/-- A test that does nothing but answer. -/
def answering (p : TransitionId → Bool) : Test Unit := fun t _ => (p t, ())

/-- What is found by a search that only answers whether transitions are enabled now. -/
def foundNow (c : Chart) (event : Option String) (s : Session) : List TransitionId :=
  (huntBy c (answering (s.enables c event)) (fun _ x => x) (c.sortDocument s.store.leaves) ()).found

/-- Searching changes nothing that the answers depend on. -/
theorem found_search (c : Chart) (event : Option String) (s : Session) :
    (s.search c event).found = s.foundNow c event ∧ (s.search c event).session.store = s.store := by
  let R : Session → Unit → Prop := fun x _ => x.store = s.store ∧ x.evaluator = s.evaluator
  have ha : Agree R (enabled c event) (answering (s.enables c event)) := by
    rintro t x y ⟨hs, he⟩
    have hsearch : Searched False (if x.fails c event t then 1 else 0) x (x.enabled c event t).2 :=
      searched_enabled
    exact ⟨enables_congr hs he, hsearch.store.trans hs, hsearch.evaluator.trans he⟩
  have hskip : ∀ leaf x (y : Unit), R x y → R (skipLeaf c leaf x) ((fun _ y => y) leaf y) :=
    fun _ _ _ h => h
  have hlike : (huntBy c (enabled c event) (skipLeaf c) (c.sortDocument s.store.leaves) s).Like R
      (huntBy c (answering (s.enables c event)) (fun _ x => x) (c.sortDocument s.store.leaves) ()) :=
    huntBy_like ha hskip _ ⟨rfl, rfl⟩
  rw [search_eq] at hlike
  exact ⟨hlike.found, hlike.state.1⟩

end

/-! ### What is found -/

/-- The states that have a say for a leaf, innermost first: it and those above it, but for a final state
    only those above it. -/
def sayOf (c : Chart) (leaf : NodeId) : List NodeId :=
  if (c.node leaf).isFinal then (c.node leaf).ancestors else leaf :: (c.node leaf).ancestors

/-- The first enabled transition of the innermost state of a list that has one. -/
def offered (c : Chart) (p : TransitionId → Bool) (ns : List NodeId) : Option TransitionId :=
  ns.findSome? fun n => (c.node n).transitions.find? p

section

variable {c : Chart} {p : TransitionId → Bool} {t : TransitionId} {n leaf : NodeId}
  {h : Hunt Unit} {found : List TransitionId}

/-- Whether what a state and those above it offer is among what was found. -/
def Granted (c : Chart) (p : TransitionId → Bool) (found : List TransitionId) (n : NodeId) : Prop :=
  ∀ t, offered c p (n :: (c.node n).ancestors) = some t → t ∈ found

theorem Granted.mono {found' : List TransitionId} (hg : Granted c p found n)
    (hsub : ∀ t ∈ found, t ∈ found') : Granted c p found' n := fun t ht => hsub t (hg t ht)

theorem firstBy_answering : ∀ ts : List TransitionId, (firstBy (answering p) ts ()).1 = ts.find? p
  | [] => rfl
  | t :: ts => by
    rw [firstBy, List.find?_cons, answering]
    cases p t
    · exact firstBy_answering ts
    · rfl

/-- What is offered along a list depends on its first state and the rest. -/
theorem offered_cons (ns : List NodeId) : offered c p (n :: ns) =
    ((c.node n).transitions.find? p).or (offered c p ns) := by
  rw [offered, List.findSome?_cons]
  cases (c.node n).transitions.find? p <;> rfl

/-- What a walk upward comes to: it finds what is offered to it, and nothing else, and what a state that
    it has seen offers is found by then. -/
structure Climbed (c : Chart) (p : TransitionId → Bool) (ns : List NodeId) (h h' : Hunt Unit) :
    Prop where
  seen : ∀ x ∈ h'.seen, x ∈ h.seen ∨ Granted c p h'.found x
  offers : ∀ t, offered c p ns = some t → t ∈ h'.found
  only : ∀ t ∈ h'.found, t ∈ h.found ∨ offered c p ns = some t
  keeps : ∀ t ∈ h.found, t ∈ h'.found

theorem climbed_climbBy (hc : c.WellFormed) : ∀ (ns : List NodeId) (h : Hunt Unit), Upward c ns →
    (∀ k ∈ ns, k ∈ h.seen → Granted c p h.found k) →
    Climbed c p ns h (climbBy c (answering p) ns h)
  | [], h, _, _ => ⟨fun _ hx => .inl hx, nofun, fun _ ht => .inl ht, fun _ ht => ht⟩
  | n :: ns, h, hup, hg => by
    have hns : ns = (c.node n).ancestors := hup n ns rfl
    rw [climbBy]
    dsimp only
    split
    · -- the walk is cut short, and what lies further out was granted when it was seen
      rename_i hn
      have hoffers : Granted c p h.found n := hg n (by simp) (by simpa using hn)
      exact ⟨fun _ hx => .inl hx, hns ▸ hoffers, fun _ ht => .inl ht, fun _ ht => ht⟩
    have hfirst : (firstBy (answering p) (c.node n).transitions h.state).1 =
        (c.node n).transitions.find? p := firstBy_answering _
    rw [hfirst]
    split
    · rename_i t ht
      have ho : offered c p (n :: ns) = some t := by rw [offered_cons, ht]; rfl
      have hoffers : ∀ u, offered c p (n :: ns) = some u → u ∈ h.found ++ [t] := fun u hu =>
        List.mem_append_right _ (by simpa using (hu.symm.trans ho))
      refine ⟨fun x hx => ?_, hoffers, fun u hu => ?_, fun u hu => List.mem_append_left _ hu⟩
      · refine (NodeSet.mem_insert.1 hx).symm.imp_right fun e => ?_
        rw [e, Granted, ← hns]
        exact hoffers
      · exact (List.mem_append.1 hu).imp_right fun hu => by rw [List.mem_singleton.1 hu, ho]
    · rename_i hnone
      have ho : offered c p (n :: ns) = offered c p ns := by rw [offered_cons, hnone]; rfl
      -- nothing above the state has been seen since the walk began
      have hg' : ∀ k ∈ ns, k ∈ NodeSet.insert n h.seen → Granted c p h.found k := fun k hk hs => by
        rcases NodeSet.mem_insert.1 hs with rfl | hs
        · exact absurd (hc.lt_of_descends (descends_iff.2 (hns ▸ hk))) (Nat.lt_irrefl _)
        · exact hg k (List.mem_cons_of_mem _ hk) hs
      have ih := climbed_climbBy hc ns
        ⟨h.found, NodeSet.insert n h.seen, (firstBy (answering p) (c.node n).transitions h.state).2⟩
        (hns ▸ upward_ancestors hc) hg'
      refine ⟨fun x hx => ?_, fun t ht => ih.offers t (ho ▸ ht), fun t ht => ho ▸ ih.only t ht,
        ih.keeps⟩
      rcases ih.seen x hx with hx | hx
      · refine (NodeSet.mem_insert.1 hx).symm.imp_right fun e => ?_
        rw [e, Granted, ← hns, ho]
        exact ih.offers
      · exact .inr hx

theorem sayOf_of_chainOf (hc : c.WellFormed) {chain : List NodeId} (h : chainOf c leaf = some chain) :
    sayOf c leaf = chain := by
  unfold chainOf at h
  dsimp only at h
  rw [sayOf]
  split at h
  · rename_i hf
    obtain ⟨q, hq, rfl⟩ := Option.map_eq_some_iff.1 h
    rw [if_pos hf, hc.ancestors_some hq]
  · rename_i hf
    cases h
    rw [if_neg hf]

theorem sayOf_of_none (hc : c.WellFormed) (h : chainOf c leaf = none) : sayOf c leaf = [] := by
  unfold chainOf at h
  dsimp only at h
  split at h
  · rename_i hf
    rw [sayOf, if_pos hf, hc.ancestors_none (Option.map_eq_none_iff.1 h)]
  · cases h

/-- From leaves one after the other a search finds what is offered to them, and nothing else. -/
theorem mem_huntBy (hc : c.WellFormed) (leaves : List NodeId) :
    t ∈ (huntBy c (answering p) (fun _ x => x) leaves ()).found ↔
      ∃ leaf ∈ leaves, offered c p (sayOf c leaf) = some t := by
  suffices hfold : ∀ (ls : List NodeId) (h : Hunt Unit), (∀ x ∈ h.seen, Granted c p h.found x) →
      (t ∈ (ls.foldl (leafBy c (answering p) fun _ x => x) h).found ↔
        t ∈ h.found ∨ ∃ leaf ∈ ls, offered c p (sayOf c leaf) = some t) by
    simpa [huntBy] using hfold leaves ⟨[], [], ()⟩ (by simp)
  intro ls
  induction ls with
  | nil => simp
  | cons leaf ls ih =>
    intro h hg
    rw [List.foldl_cons]
    cases hchain : chainOf c leaf with
    | none =>
      have hleaf : leafBy c (answering p) (fun _ x => x) h leaf = h := by rw [leafBy, hchain]
      rw [hleaf, ih h hg]
      simp [sayOf_of_none hc hchain, offered]
    | some chain =>
      have hleaf : leafBy c (answering p) (fun _ x => x) h leaf = climbBy c (answering p) chain h := by
        rw [leafBy, hchain]
      obtain ⟨m, e⟩ := exists_of_chainOf hchain
      have hclimbed := climbed_climbBy (p := p) hc chain h (e ▸ upward_cons) fun k _ => hg k
      rw [hleaf, ih _ fun x hx => (hclimbed.seen x hx).elim
        (fun hx => (hg x hx).mono hclimbed.keeps) id]
      simp only [List.mem_cons, exists_eq_or_imp, sayOf_of_chainOf hc hchain, ← or_assoc]
      refine or_congr_left ⟨hclimbed.only t, fun ht => ht.elim (hclimbed.keeps t) (hclimbed.offers t)⟩

end

/-! ### What is tested -/

/-- A test with a record of what it was asked. -/
def recording {σ : Type} (ask : Test σ) : Test (σ × List TransitionId) :=
  fun t x => ((ask t x.1).1, (ask t x.1).2, x.2 ++ [t])

/-- The search of a session with a record of the transitions that were tested, the first one first. -/
def recordedSearch (c : Chart) (event : Option String) (s : Session) :
    Hunt (Session × List TransitionId) :=
  huntBy c (recording (enabled c event)) (fun leaf x => (skipLeaf c leaf x.1, x.2))
    (c.sortDocument s.store.leaves) (s, [])

section

variable {σ : Type} {c : Chart} {ask : Test σ} {skip : NodeId → σ → σ}
  {h : Hunt (σ × List TransitionId)} {event : Option String} {s : Session}

/-- Keeping a record changes nothing else. -/
theorem recordedSearch_like (c : Chart) (event : Option String) (s : Session) :
    (s.recordedSearch c event).found = (s.search c event).found ∧
    (s.recordedSearch c event).state.1 = (s.search c event).session := by
  let R : Session × List TransitionId → Session → Prop := fun x y => x.1 = y
  have ha : Agree R (recording (enabled c event)) (enabled c event) := by
    rintro t x _ rfl
    exact ⟨rfl, rfl⟩
  have hskip : ∀ leaf x y, R x y → R (skipLeaf c leaf x.1, x.2) (skipLeaf c leaf y) := by
    rintro leaf x _ rfl
    rfl
  have hlike : (s.recordedSearch c event).Like R
      (huntBy c (enabled c event) (skipLeaf c) (c.sortDocument s.store.leaves) s) :=
    huntBy_like ha hskip _ rfl
  rw [search_eq] at hlike
  exact ⟨hlike.found, hlike.state⟩

/-- What has been tested are transitions of states that have been seen, each once. -/
structure Once (c : Chart) (h : Hunt (σ × List TransitionId)) : Prop where
  nodup : h.state.2.Nodup
  seen : ∀ t ∈ h.state.2, ∃ n ∈ h.seen, t ∈ (c.node n).transitions

/-- Of a list of transitions some are tested, in their order. -/
theorem firstBy_recording (ask : Test σ) : ∀ (ts : List TransitionId) (x : σ × List TransitionId),
    ∃ us, us.Sublist ts ∧ (firstBy (recording ask) ts x).2.2 = x.2 ++ us
  | [], x => ⟨[], .refl _, (List.append_nil _).symm⟩
  | t :: ts, x => by
    rw [firstBy]
    split
    · exact ⟨[t], by simp, rfl⟩
    · obtain ⟨us, hus, e⟩ := firstBy_recording ask ts (recording ask t x).2
      exact ⟨t :: us, hus.cons_cons t, by rw [e]; simp [recording]⟩

/-- Testing the transitions of a state that has not been seen repeats nothing. -/
theorem Once.visit (hc : c.WellFormed) (he : c.Entranced) {n : NodeId} (ho : Once c h)
    (hn : n ∉ h.seen) (found : List TransitionId) :
    Once c ⟨found, NodeSet.insert n h.seen,
      (firstBy (recording ask) (c.node n).transitions h.state).2⟩ := by
  obtain ⟨us, hus, e⟩ := firstBy_recording ask (c.node n).transitions h.state
  constructor
  · rw [e, List.nodup_append]
    refine ⟨ho.nodup, (he.once n).sublist hus, ?_⟩
    rintro t ht u hu rfl
    obtain ⟨m, hm, htm⟩ := ho.seen t ht
    have hsource := (hc.source_eq htm).1.symm.trans (hc.source_eq (hus.mem hu)).1
    cases hsource
    exact hn hm
  · intro t ht
    rw [e] at ht
    rcases List.mem_append.1 ht with ht | ht
    · obtain ⟨m, hm, htm⟩ := ho.seen t ht
      exact ⟨m, NodeSet.mem_insert.2 (.inr hm), htm⟩
    · exact ⟨n, NodeSet.mem_insert.2 (.inl rfl), hus.mem ht⟩

theorem once_climbBy (hc : c.WellFormed) (he : c.Entranced) : ∀ (ns : List NodeId)
    {h : Hunt (σ × List TransitionId)}, Once c h → Once c (climbBy c (recording ask) ns h)
  | [], _, ho => ho
  | n :: ns, h, ho => by
    rw [climbBy]
    dsimp only
    split
    · exact ho
    rename_i hn
    have hn : n ∉ h.seen := by simpa using hn
    split
    · exact ho.visit hc he hn _
    · exact once_climbBy hc he ns (ho.visit hc he hn _)

/-- No transition is tested twice, whatever the test is. -/
theorem nodup_huntBy (hc : c.WellFormed) (he : c.Entranced) (skip : NodeId → σ → σ)
    (leaves : List NodeId) (x : σ) :
    (huntBy c (recording ask) (fun leaf x => (skip leaf x.1, x.2)) leaves (x, [])).state.2.Nodup := by
  suffices hfold : ∀ (ls : List NodeId) (h : Hunt (σ × List TransitionId)), Once c h →
      Once c (ls.foldl (leafBy c (recording ask) fun leaf x => (skip leaf x.1, x.2)) h) from
    (hfold leaves ⟨[], [], (x, [])⟩ ⟨List.nodup_nil, nofun⟩).nodup
  intro ls
  induction ls with
  | nil => exact fun _ ho => ho
  | cons leaf ls ih =>
    intro h ho
    refine ih _ ?_
    unfold leafBy
    split
    · exact once_climbBy hc he _ ho
    · exact ⟨ho.nodup, ho.seen⟩

end

/-! ### What is selected -/

/-- What is selected if every active state without children decides for itself. -/
def selectApart (c : Chart) (event : Option String) (s : Session) : List TransitionId :=
  let leaves := (s.store.active c).filter fun n => (c.node n).isAtomic
  c.resolveConflicts (s.store.active c)
    (leaves.filterMap fun leaf => offered c (s.enables c event) (sayOf c leaf))

variable {c : Chart} {event : Option String} {s : Session}

/-- What is offered is a transition of one of the states. -/
theorem ofStates_offered {p : TransitionId → Bool} {ns : List NodeId} {t : TransitionId}
    (h : offered c p ns = some t) : ∃ n, t ∈ (c.node n).transitions := by
  obtain ⟨n, -, hn⟩ := List.exists_of_findSome?_eq_some h
  exact ⟨n, List.mem_of_find?_eq_some hn⟩

/-- The transitions that are selected are those that are selected if every active state without children
    is asked alone: the first enabled transition of the innermost state that contains it, a final state
    itself not counted, and of these the ones without conflicts. And no transition is tested twice. -/
theorem select_eq_apart {name : String} {version : Nat} {v : Value}
    (hl : Chart.load name version v = .ok c) (event : Option String) (s : Session)
    (h : ∀ l ∈ s.store.leaves, (c.node l).isAtomic = true) :
    (s.select c event).1 = s.selectApart c event ∧
      (s.recordedSearch c event).found = (s.search c event).found ∧
      (s.recordedSearch c event).state.1 = (s.select c event).2 ∧
      (s.recordedSearch c event).state.2.Nodup := by
  have hc := wellFormed_of_load hl
  obtain ⟨hfound, hstore⟩ := found_search c event s
  obtain ⟨hrecord, hsession⟩ := recordedSearch_like c event s
  have hmem (t : TransitionId) : t ∈ (s.search c event).found ↔
      t ∈ ((s.store.active c).filter fun n => (c.node n).isAtomic).filterMap fun leaf =>
        offered c (s.enables c event) (sayOf c leaf) := by
    rw [hfound, foundNow, mem_huntBy hc, List.mem_filterMap]
    refine exists_congr fun leaf => and_congr_left fun _ => ?_
    rw [sortDocument, mem_stableSort, hc.mem_leaves_iff_atomic h, List.mem_filter]
    rfl
  refine ⟨?_, hrecord, hsession, nodup_huntBy hc (entranced_of_load hl) _ _ _⟩
  rw [select, selectApart, hstore]
  refine resolveConflicts_congr (numbered_of_load hl) (fun t ht => ?_) hmem _
  obtain ⟨leaf, -, ho⟩ := List.mem_filterMap.1 ht
  exact ofStates_offered ho

/-- To both leaves of the bright lamp switching it off is offered, and to the second one the search need
    not go. -/
theorem apart_brightLamp :
    brightLamp.store.leaves.map (fun leaf =>
      offered lampChart (brightLamp.enables lampChart (some "push")) (sayOf lampChart leaf)) =
        [some 1, some 1] ∧
      (brightLamp.select lampChart (some "push")).1 = brightLamp.selectApart lampChart (some "push") ∧
      (brightLamp.recordedSearch lampChart (some "push")).state.2.Nodup := by
  have h := select_eq_apart load_lamp (some "push") brightLamp (by decide +kernel)
  exact ⟨by decide +kernel, h.1, h.2.2.2⟩

end Statechart.Session
