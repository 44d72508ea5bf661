import Statechart.Proofs.Selection

/-! Searches in vain.

    A search looks at every active state once, unless it finds something further inside. So nothing is
    selected exactly if no transition of an active state is enabled, and then as many failures are
    reported and queued as there are conditions of these transitions that fail. -/

namespace Statechart

open Chart

namespace NodeSet

variable {s t : NodeSet} {n : Nat}

theorem insert_perm : ∀ {s : NodeSet}, n ∉ s → (insert n s).Perm (n :: s)
  | [], _ => .refl _
  | m :: s, h => by
    have hne : n ≠ m := fun e => h (e ▸ List.mem_cons_self ..)
    rw [insert, if_neg hne]
    split
    · exact .refl _
    · have ih := insert_perm (s := s) fun hn => h (List.mem_cons_of_mem _ hn)
      exact (ih.cons m).trans (.swap n m s)

/-- A set is a smaller one and what that lacks. -/
theorem perm_append_of_subset (hs : s.Nodup) (ht : t.Nodup) (hst : ∀ n ∈ s, n ∈ t) :
    t.Perm (s ++ t.filter fun n => !s.contains n) := by
  have hnodup : (s ++ t.filter fun n => !s.contains n).Nodup := by
    refine List.nodup_append.2 ⟨hs, ht.filter _, ?_⟩
    intro n hn m hm e
    have hm := (List.mem_filter.1 hm).2
    rw [← e] at hm
    simp [hn] at hm
  refine (List.perm_ext_iff_of_nodup ht hnodup).2 ?_
  intro n
  rw [List.mem_append, List.mem_filter]
  by_cases hn : n ∈ s
  · exact ⟨fun _ => .inl hn, fun _ => hst n hn⟩
  · simp [hn]

end NodeSet

namespace Session

variable {c : Chart} {event : Option String} {s s' : Session} {r : Search} {n : NodeId} {ok : Prop}

/-- Whether no transition of an active state is enabled for an event. -/
def Quiescent (c : Chart) (event : Option String) (s : Session) : Prop :=
  ∀ n ∈ s.store.active c, ∀ t ∈ (c.node n).transitions, s.enables c event t = false

/-- How many conditions fail when states are searched for an event. -/
def faultsIn (c : Chart) (event : Option String) (s : Session) (ns : NodeSet) : Nat :=
  (ns.flatMap fun n => (c.node n).transitions).countP (s.fails c event)

/-- How many conditions fail when an event selects nothing. -/
def faults (c : Chart) (event : Option String) (s : Session) : Nat :=
  s.faultsIn c event (s.store.active c)

theorem faultsIn_insert {ns : NodeSet} (h : n ∉ ns) : s.faultsIn c event (NodeSet.insert n ns) =
    s.faultsIn c event ns + (c.node n).transitions.countP (s.fails c event) := by
  have hperm := (NodeSet.insert_perm h).flatMap_right fun n => (c.node n).transitions
  rw [faultsIn, hperm.countP_eq, List.flatMap_cons, List.countP_append, Nat.add_comm]
  rfl

/-- States without transitions do not count. -/
theorem faultsIn_of_subset {ms ns : NodeSet} (hms : ms.Nodup) (hns : ns.Nodup)
    (hsub : ∀ n ∈ ms, n ∈ ns) (h : ∀ n ∈ ns, n ∉ ms → (c.node n).transitions = []) :
    s.faultsIn c event ms = s.faultsIn c event ns := by
  have hperm := (NodeSet.perm_append_of_subset hms hns hsub).flatMap_right fun n =>
    (c.node n).transitions
  have hrest : (ns.filter fun n => !ms.contains n).flatMap (fun n => (c.node n).transitions) = [] := by
    refine List.flatMap_eq_nil_iff.2 ?_
    intro n hn
    obtain ⟨hn, hnot⟩ := List.mem_filter.1 hn
    exact h n hn (by simpa using hnot)
  rw [faultsIn, faultsIn, hperm.countP_eq, List.flatMap_append, hrest, List.append_nil]

theorem quiescent_congr (hs : s'.store = s.store) (he : s'.evaluator = s.evaluator)
    (h : Quiescent c event s) : Quiescent c event s' := by
  intro n hn t ht
  rw [hs] at hn
  exact (enables_congr hs he).trans (h n hn t ht)

theorem faults_congr (hs : s'.store = s.store) (he : s'.evaluator = s.evaluator) :
    s'.faults c event = s.faults c event := by
  have hfails : s'.fails c event = s.fails c event := funext fun _ => fails_congr hs he
  rw [faults, faultsIn, hfails, hs, faults, faultsIn]

/-- What a search comes to that has found nothing yet. -/
structure Vain (ok : Prop) (c : Chart) (event : Option String) (s : Session) (r : Search) :
    Prop where
  found : r.found = []
  sorted : r.seen.Pairwise (· < ·)
  none : ∀ n ∈ r.seen, ∀ t ∈ (c.node n).transitions, s.enables c event t = false
  searched : Searched ok (s.faultsIn c event r.seen) s r.session

/-- A state of which no transition is enabled has been searched in vain too. -/
theorem Vain.add {n : NodeId} (hv : Vain ok c event s r) (hn : n ∉ r.seen)
    (hnone : ∀ t ∈ (c.node n).transitions, r.session.enables c event t = false)
    (hs : Searched ok ((c.node n).transitions.countP (r.session.fails c event)) r.session s') :
    Vain ok c event s ⟨r.found, NodeSet.insert n r.seen, s'⟩ where
  found := hv.found
  sorted := NodeSet.pairwise_insert hv.sorted
  none m hm t ht := by
    rcases NodeSet.mem_insert.1 hm with rfl | hm
    · exact (enables_congr hv.searched.store hv.searched.evaluator).symm.trans (hnone t ht)
    · exact hv.none m hm t ht
  searched := by
    have hfails : r.session.fails c event = s.fails c event :=
      funext fun _ => fails_congr hv.searched.store hv.searched.evaluator
    rw [faultsIn_insert hn, ← hfails]
    exact hv.searched.trans hs

/-- Whether whatever is above an element of a set is in the set. -/
def UpClosed (c : Chart) (ns : NodeSet) : Prop := ∀ k ∈ ns, ∀ a ∈ (c.node k).ancestors, a ∈ ns

theorem upClosed_nil (c : Chart) : UpClosed c [] := fun k hk => by cases hk

/-- Whether a list goes from a state upward. -/
def Upward (c : Chart) (ns : List NodeId) : Prop := ∀ k ks, ns = k :: ks → ks = (c.node k).ancestors

theorem upward_cons : Upward c (n :: (c.node n).ancestors) := by
  rintro k ks e
  cases e
  rfl

theorem upward_ancestors (hc : c.WellFormed) : Upward c (c.node n).ancestors := by
  intro k ks e
  cases hp : (c.node n).parent with
  | none => simp [hc.ancestors_none hp] at e
  | some p =>
    rw [hc.ancestors_some hp] at e
    cases e
    rfl

theorem exists_of_chainOf {leaf : NodeId} {chain : List NodeId} (h : chainOf c leaf = some chain) :
    ∃ m, chain = m :: (c.node m).ancestors := by
  unfold chainOf at h
  dsimp only at h
  split at h
  · obtain ⟨p, -, rfl⟩ := Option.map_eq_some_iff.1 h
    exact ⟨p, rfl⟩
  · cases h
    exact ⟨leaf, rfl⟩

/-- The states searched for a leaf include those above them. -/
theorem mem_chainOf_up (hc : c.WellFormed) {leaf k a : NodeId} {chain : List NodeId}
    (h : chainOf c leaf = some chain) (hk : k ∈ chain) (ha : a ∈ (c.node k).ancestors) : a ∈ chain := by
  obtain ⟨m, rfl⟩ := exists_of_chainOf h
  refine List.mem_cons_of_mem _ ?_
  rcases List.mem_cons.1 hk with rfl | hk
  · exact ha
  · exact descends_iff.1 (hc.descends_of_descends_within (descends_iff.2 hk) (.inr (descends_iff.2 ha)))

/-- A search upward finds something that is enabled, or it has seen all there is to see. -/
theorem climb_vain (hc : c.WellFormed) : ∀ (ns : List NodeId) (r : Search), Upward c ns →
    Vain ok c event s r → (∀ k ∈ ns, k ∈ r.seen → ∀ a ∈ (c.node k).ancestors, a ∈ r.seen) →
    (∃ m ∈ ns, ∃ t ∈ (c.node m).transitions, s.enables c event t = true ∧
      (climb c event ns r).found ≠ []) ∨
    Vain ok c event s (climb c event ns r) ∧
      ∀ x, x ∈ (climb c event ns r).seen ↔ x ∈ r.seen ∨ x ∈ ns
  | [], r, _, hv, _ => .inr ⟨hv, by simp [climb]⟩
  | m :: ns, r, hup, hv, hclosed => by
    have hns := hup m ns rfl
    rw [climb]
    split
    · rename_i hm
      have hm : m ∈ r.seen := by simpa using hm
      refine .inr ⟨hv, fun x => ⟨.inl, ?_⟩⟩
      rintro (hx | hx)
      · exact hx
      · rcases List.mem_cons.1 hx with rfl | hx
        · exact hm
        · exact hclosed m (by simp) hm x (hns ▸ hx)
    rename_i hm
    have hm : m ∉ r.seen := by simpa using hm
    obtain ⟨k, hk, h⟩ := firstEnabled_spec ok c event (c.node m).transitions r.session
    have henabled {t : TransitionId} : r.session.enables c event t = s.enables c event t :=
      enables_congr hv.searched.store hv.searched.evaluator
    dsimp only
    split <;> rename_i session e <;> rw [e] at hk h
    · exact .inl ⟨m, by simp, _, h.1, henabled.symm.trans h.2, by simp⟩
    · obtain ⟨hnone, rfl⟩ := h
      have hclosed' : ∀ k ∈ ns, k ∈ NodeSet.insert m r.seen →
          ∀ a ∈ (c.node k).ancestors, a ∈ NodeSet.insert m r.seen := by
        intro k hkn hk a ha
        rcases NodeSet.mem_insert.1 hk with rfl | hk
        · have := hc.lt_of_descends (descends_iff.2 (hns ▸ hkn))
          exact (Nat.lt_irrefl k this).elim
        · exact NodeSet.mem_insert.2 (.inr (hclosed k (List.mem_cons_of_mem _ hkn) hk a ha))
      rcases climb_vain hc ns ⟨r.found, NodeSet.insert m r.seen, session⟩
        (hns ▸ upward_ancestors hc) (hv.add hm hnone hk) hclosed' with ⟨p, hp, h⟩ | ⟨hv'', hseen⟩
      · exact .inl ⟨p, List.mem_cons_of_mem _ hp, h⟩
      · refine .inr ⟨hv'', fun x => (hseen x).trans ?_⟩
        rw [NodeSet.mem_insert, List.mem_cons, or_assoc]
        exact or_left_comm

/-- What is found stays found. -/
theorem climb_found : ∀ (ns : List NodeId) (r : Search), r.found ≠ [] →
    (climb c event ns r).found ≠ []
  | [], _, h => h
  | m :: ns, r, h => by
    rw [climb]
    split
    · exact h
    dsimp only
    split
    · simp
    · exact climb_found ns _ h

theorem searchLeaves_found : ∀ (ls : List NodeId) (r : Search), r.found ≠ [] →
    (ls.foldl (searchLeaf c event) r).found ≠ []
  | [], _, h => h
  | l :: ls, r, h => by
    refine searchLeaves_found ls (searchLeaf c event r l) ?_
    unfold searchLeaf
    split
    · exact climb_found _ r h
    · exact h

theorem searchLeaf_vain (hc : c.WellFormed) (leaf : NodeId)
    (hok : ok → (c.node leaf).isTopLevelFinal = false) (hv : Vain ok c event s r)
    (hclosed : UpClosed c r.seen) :
    (∃ chain, chainOf c leaf = some chain ∧ ∃ m ∈ chain, ∃ t ∈ (c.node m).transitions,
      s.enables c event t = true ∧ (searchLeaf c event r leaf).found ≠ []) ∨
    Vain ok c event s (searchLeaf c event r leaf) ∧
      ∀ x, x ∈ (searchLeaf c event r leaf).seen ↔
        x ∈ r.seen ∨ ∃ chain, chainOf c leaf = some chain ∧ x ∈ chain := by
  unfold searchLeaf
  split
  · rename_i chain hchain
    obtain ⟨m, e⟩ := exists_of_chainOf hchain
    rcases climb_vain hc chain r (e ▸ upward_cons) hv fun k _ => hclosed k with h | ⟨hv', hseen⟩
    · exact .inl ⟨chain, hchain, h⟩
    · refine .inr ⟨hv', fun x => (hseen x).trans (or_congr_right ⟨fun hx => ⟨chain, hchain, hx⟩, ?_⟩)⟩
      rintro ⟨_, e, hx⟩
      rw [hchain] at e
      cases e
      exact hx
  · rename_i hchain
    refine .inr ⟨⟨hv.found, hv.sorted, hv.none, ?_⟩, fun x => by simp [hchain]⟩
    exact hv.searched.trans ((searched_report hchain _).weaken hok)

/-- Searching leaves one after the other finds something that is enabled, or all there is to see has been
    seen. -/
theorem searchLeaves_vain (hc : c.WellFormed) : ∀ (ls : List NodeId) (r : Search),
    (ok → ∀ l ∈ ls, (c.node l).isTopLevelFinal = false) → Vain ok c event s r → UpClosed c r.seen →
    (∃ l ∈ ls, ∃ chain, chainOf c l = some chain ∧ ∃ m ∈ chain, ∃ t ∈ (c.node m).transitions,
      s.enables c event t = true ∧ (ls.foldl (searchLeaf c event) r).found ≠ []) ∨
    Vain ok c event s (ls.foldl (searchLeaf c event) r) ∧
      ∀ x, x ∈ (ls.foldl (searchLeaf c event) r).seen ↔
        x ∈ r.seen ∨ ∃ l ∈ ls, ∃ chain, chainOf c l = some chain ∧ x ∈ chain
  | [], r, _, hv, _ => .inr ⟨hv, by simp⟩
  | l :: ls, r, hok, hv, hclosed => by
    rw [List.foldl_cons]
    rcases searchLeaf_vain hc l (fun h => hok h l (by simp)) hv hclosed with
      ⟨chain, hchain, m, hm, t, ht, he, hne⟩ | ⟨hv', hseen⟩
    · exact .inl ⟨l, by simp, chain, hchain, m, hm, t, ht, he, searchLeaves_found ls _ hne⟩
    have hclosed' : UpClosed c (searchLeaf c event r l).seen := by
      intro k hk a ha
      rcases (hseen k).1 hk with hk | ⟨chain, hchain, hk⟩
      · exact (hseen a).2 (.inl (hclosed k hk a ha))
      · exact (hseen a).2 (.inr ⟨chain, hchain, mem_chainOf_up hc hchain hk ha⟩)
    have hok' (h : ok) : ∀ k ∈ ls, (c.node k).isTopLevelFinal = false :=
      fun k hk => hok h k (List.mem_cons_of_mem _ hk)
    rcases searchLeaves_vain hc ls _ hok' hv' hclosed' with ⟨k, hk, h⟩ | ⟨hv'', hseen'⟩
    · exact .inl ⟨k, List.mem_cons_of_mem _ hk, h⟩
    · refine .inr ⟨hv'', fun x => (hseen' x).trans ?_⟩
      rw [hseen]
      simp only [List.mem_cons, exists_eq_or_imp, or_assoc]

/-- A state that is active but not searched is a final leaf, which has no transitions. -/
theorem transitions_of_not_searched (hc : c.WellFormed) {store : Store} (hn : n ∈ store.active c)
    (h : ∀ l ∈ store.leaves, ∀ chain, chainOf c l = some chain → n ∉ chain) :
    (c.node n).transitions = [] := by
  obtain ⟨l, hl, hnl⟩ := Chart.mem_closure.1 hn
  have hl := h l hl
  unfold chainOf at hl
  dsimp only at hl
  cases hf : (c.node l).isFinal with
  | false =>
    rw [hf, if_neg (by simp)] at hl
    exact (hl _ rfl (List.mem_cons.2 hnl)).elim
  | true =>
    rcases hnl with rfl | hnl
    · exact ((hc.shaped n).final hf).2
    · -- above a final state everything is searched with its parent
      cases hp : (c.node l).parent with
      | none => simp [hc.ancestors_none hp] at hnl
      | some p =>
        rw [hf, if_pos rfl, hp] at hl
        rw [hc.ancestors_some hp] at hnl
        exact (hl _ rfl hnl).elim

theorem vain_start : Vain ok c event s ⟨[], [], s⟩ where
  found := rfl
  sorted := List.Pairwise.nil
  none n hn := by cases hn
  searched := .refl s

/-- If nothing is enabled nothing is selected, and every condition that fails is reported once. -/
theorem select_of_quiescent (hc : c.WellFormed) (h : Quiescent c event s) :
    ∃ s', s.select c event = ([], s') ∧
      Searched (∀ l ∈ s.store.leaves, (c.node l).isTopLevelFinal = false) (s.faults c event) s s' := by
  have hstart : Vain (∀ l ∈ s.store.leaves, (c.node l).isTopLevelFinal = false) c event s
    ⟨[], [], s⟩ := vain_start
  rcases searchLeaves_vain hc (c.sortDocument s.store.leaves) _
      (fun h l hl => h l (mem_stableSort.1 hl)) hstart (upClosed_nil c) with
    ⟨l, hl, chain, hchain, m, hm, t, ht, he, -⟩ | ⟨hv, hseen⟩
  · have hact := mem_active_of_chainOf hc (mem_stableSort.1 hl) hchain hm
    rw [h m hact t ht] at he
    cases he
  have hcount : s.faultsIn c event (s.search c event).seen = s.faults c event := by
    refine faultsIn_of_subset (NodeSet.nodup_of_pairwise hv.sorted)
      (NodeSet.nodup_of_pairwise (c.pairwise_closure _)) ?_ ?_
    · intro n hn
      rcases (hseen n).1 hn with hn | ⟨l, hl, chain, hchain, hn⟩
      · cases hn
      · exact mem_active_of_chainOf hc (mem_stableSort.1 hl) hchain hn
    · intro n hn hns
      exact transitions_of_not_searched hc hn fun l hl chain hchain hnc =>
        hns ((hseen n).2 (.inr ⟨l, mem_stableSort.2 hl, chain, hchain, hnc⟩))
  refine ⟨(s.search c event).session, ?_, hcount ▸ hv.searched⟩
  have hfound : (s.search c event).found = [] := hv.found
  rw [select, hfound]
  rfl

/-- If nothing is selected nothing is enabled. -/
theorem quiescent_of_select (hc : c.WellFormed) (h : s.select c event = ([], s')) :
    Quiescent c event s := by
  have hfound : (s.search c event).found = [] := by
    refine Decidable.byContradiction ?_
    intro hne
    exact resolveConflicts_ne_nil (c := c) hne (Prod.mk.inj h).1
  have hstart : Vain False c event s ⟨[], [], s⟩ := vain_start
  rcases searchLeaves_vain hc (c.sortDocument s.store.leaves) _ False.elim hstart (upClosed_nil c) with
    ⟨-, -, -, -, -, -, -, -, -, hne⟩ | ⟨hv, hseen⟩
  · exact (hne hfound).elim
  intro n hn t ht
  by_cases hs : n ∈ (s.search c event).seen
  · exact hv.none n hs t ht
  · have := transitions_of_not_searched hc hn fun l hl chain hchain hnc =>
      hs ((hseen n).2 (.inr ⟨l, mem_stableSort.2 hl, chain, hchain, hnc⟩))
    rw [this] at ht
    cases ht

/-- Selecting nothing means that nothing is enabled, and does nothing but report failures. -/
theorem searched_of_select (hc : c.WellFormed) (h : s.select c event = ([], s')) :
    Quiescent c event s ∧
      Searched (∀ l ∈ s.store.leaves, (c.node l).isTopLevelFinal = false) (s.faults c event) s s' := by
  have hq := quiescent_of_select hc h
  obtain ⟨t, ht, hsearch⟩ := select_of_quiescent hc hq
  rw [h] at ht
  cases ht
  exact ⟨hq, hsearch⟩

end Session
end Statechart
