import Statechart.Proofs.Frame
import Statechart.Proofs.Tree

/-! What is selected.

    A search only reports: it queues an event for every condition that fails and writes about it into
    the journal. What it finds are transitions of active states, and of what is found only transitions
    are kept that leave no state in common. -/

namespace Statechart

namespace Chart

variable {c : Chart} {active : NodeSet} {kept found : List TransitionId} {t u : TransitionId}

theorem clash_comm : c.clash active t u = c.clash active u t := by
  have h (t u : TransitionId) (h : c.clash active t u = false) : c.clash active u t = false := by
    simp only [clash, Bool.not_eq_false', NodeSet.disjoint_iff] at h ⊢
    exact fun n hn hn' => h n hn' hn
  cases e : c.clash active t u with
  | true => exact (eq_true_of_ne_false fun e' => by simp [h u t e'] at e).symm
  | false => exact (h t u e).symm

theorem mem_of_accommodate (h : u ∈ c.accommodate active kept t) : u = t ∨ u ∈ kept := by
  unfold accommodate at h
  split at h
  · rcases List.mem_append.1 h with h | h
    · exact .inr (List.mem_filter.1 h).1
    · exact .inl (List.mem_singleton.1 h)
  · exact .inr h

/-- Among the transitions that are kept no two clash. -/
theorem pairwise_accommodate (h : kept.Pairwise fun t u => c.clash active t u = false) :
    (c.accommodate active kept t).Pairwise fun t u => c.clash active t u = false := by
  unfold accommodate
  split
  · refine List.pairwise_append.2 ⟨h.filter _, List.pairwise_singleton _ _, ?_⟩
    intro u hu v hv
    rw [List.mem_singleton.1 hv, clash_comm]
    simpa using (List.mem_filter.1 hu).2
  · exact h

/-- Keeping transitions one after the other. -/
theorem foldl_accommodate : ∀ (found : List TransitionId) {kept : List TransitionId},
    (kept.Pairwise fun t u => c.clash active t u = false) →
    ((found.foldl (c.accommodate active) kept).Pairwise fun t u => c.clash active t u = false) ∧
      ∀ t ∈ found.foldl (c.accommodate active) kept, t ∈ found ∨ t ∈ kept
  | [], _, h => ⟨h, fun _ ht => .inr ht⟩
  | t :: ts, kept, h => by
    obtain ⟨hp, hm⟩ := foldl_accommodate ts (pairwise_accommodate (t := t) h)
    refine ⟨hp, ?_⟩
    intro u hu
    rcases hm u hu with hu | hu
    · exact .inl (List.mem_cons_of_mem _ hu)
    · rcases mem_of_accommodate hu with rfl | hu
      · exact .inl (by simp)
      · exact .inr hu

theorem mem_withoutRepeats_iff : ∀ {ts : List TransitionId}, t ∈ withoutRepeats ts ↔ t ∈ ts
  | [] => .rfl
  | [_] => .rfl
  | a :: b :: ts => by
    rw [withoutRepeats]
    split
    · rename_i e
      rw [mem_withoutRepeats_iff, e]
      simp
    · rw [List.mem_cons, mem_withoutRepeats_iff, List.mem_cons (a := t) (b := a)]

theorem mem_sorted : t ∈ withoutRepeats (c.sortTransitions found) ↔ t ∈ found :=
  mem_withoutRepeats_iff.trans mem_stableSort

theorem mem_of_resolveConflicts (h : t ∈ c.resolveConflicts active found) : t ∈ found :=
  mem_sorted.1 (((foldl_accommodate _ List.Pairwise.nil).2 t h).resolve_right List.not_mem_nil)

theorem accommodate_ne_nil : c.accommodate active kept t ≠ [] := by
  unfold accommodate
  split
  · simp
  · rename_i hk
    exact fun e => hk (by simp [e])

theorem foldl_accommodate_ne_nil : ∀ (found : List TransitionId) {kept : List TransitionId},
    kept ≠ [] → found.foldl (c.accommodate active) kept ≠ []
  | [], _, h => h
  | _ :: ts, _, _ => foldl_accommodate_ne_nil ts accommodate_ne_nil

/-- Something is kept if something is found. -/
theorem resolveConflicts_ne_nil (h : found ≠ []) : c.resolveConflicts active found ≠ [] := by
  obtain ⟨t, ht⟩ := List.exists_mem_of_ne_nil found h
  obtain ⟨u, us, e⟩ := List.exists_cons_of_ne_nil (List.ne_nil_of_mem (mem_sorted (c := c).2 ht))
  rw [resolveConflicts, e]
  exact foldl_accommodate_ne_nil us accommodate_ne_nil

/-- Transitions that are kept leave no state in common. -/
theorem pairwise_resolveConflicts (c : Chart) (active : NodeSet) (found : List TransitionId) :
    (c.resolveConflicts active found).Pairwise fun t u =>
    NodeSet.disjoint (c.exitSet active t) (c.exitSet active u) = true :=
  (foldl_accommodate _ List.Pairwise.nil).1.imp fun h => by simpa [clash] using h

end Chart

namespace Session

variable {c : Chart} {event : Option String} {s s' : Session} {t : TransitionId} {ok : Prop}

/-- Whether a transition answers to an event and its condition has no truth. -/
def fails (c : Chart) (event : Option String) (s : Session) (t : TransitionId) : Bool :=
  (c.transition t).trigger.answers event &&
    match (c.transition t).cond with
    | none => false
    | some cond =>
      match s.evaluator.condition cond (s.scope c (c.transition t).source) with
      | .ok _ => false
      | .error _ => true

/-- Whether a transition is enabled, what goes wrong left aside. -/
def enables (c : Chart) (event : Option String) (s : Session) (t : TransitionId) : Bool :=
  (s.enabled c event t).1

/-- What a search does to a session: it reports each failure and queues an event for it. -/
structure Searched (ok : Prop) (failures : Nat) (s s' : Session) : Prop where
  same : s' = { s with
    queue := s.queue ++ List.replicate failures .executionFailed, journal := s'.journal }
  journal : Continues (fun e => ok → e.Sound) s.journal.toList s'.journal.toList
  reported : ok → s'.journal.size = s.journal.size + failures

namespace Searched

variable {n m : Nat} {s'' : Session}

theorem store (h : Searched ok n s s') : s'.store = s.store := by rw [h.same]

theorem evaluator (h : Searched ok n s s') : s'.evaluator = s.evaluator := by rw [h.same]

theorem running (h : Searched ok n s s') : s'.running = s.running := by rw [h.same]

theorem pending (h : Searched ok n s s') : s'.pending = s.pending := by rw [h.same]

theorem chart (h : Searched ok n s s') : s'.chart = s.chart := by rw [h.same]

theorem queue (h : Searched ok n s s') :
    s'.queue = s.queue ++ List.replicate n .executionFailed := by rw [h.same]

theorem refl (s : Session) : Searched ok 0 s s := ⟨by simp, .refl _, fun _ => rfl⟩

theorem weaken {ok' : Prop} (h : Searched ok' n s s') (himp : ok → ok') : Searched ok n s s' where
  same := h.same
  journal := h.journal.imp fun _ he hok => he (himp hok)
  reported hok := h.reported (himp hok)

theorem trans (h : Searched ok n s s') (h' : Searched ok m s' s'') : Searched ok (n + m) s s'' where
  same := by
    rw [h'.same, h.same]
    simp [List.append_assoc]
  journal := h.journal.trans h'.journal
  reported hok := by rw [h'.reported hok, h.reported hok, Nat.add_assoc]

/-- A search without failures changes nothing, unless it finds the configuration wrong. -/
theorem eq_of_zero (h : Searched ok 0 s s') (hok : ok) : s' = s := by
  have hj : s'.journal = s.journal := by
    obtain ⟨xs, hxs, -⟩ := h.journal
    have hsize : s'.journal.toList.length = s.journal.toList.length := h.reported hok
    rw [hxs, List.length_append, Nat.add_eq_left, List.length_eq_zero_iff] at hsize
    rw [hsize, List.append_nil] at hxs
    exact Array.ext' hxs
  rw [h.same, hj, List.replicate_zero, List.append_nil]

end Searched

theorem fails_congr (hs : s'.store = s.store) (he : s'.evaluator = s.evaluator) :
    s'.fails c event t = s.fails c event t := by
  simp only [fails, scope, hs, he]

theorem enables_congr (hs : s'.store = s.store) (he : s'.evaluator = s.evaluator) :
    s'.enables c event t = s.enables c event t := by
  simp only [enables, enabled, scope, hs, he]
  split
  · split
    · rfl
    · split <;> rfl
  · rfl

theorem ok_or_error {ε α : Type} : ∀ r : Except ε α, (∃ a, r = .ok a) ∨ ∃ e, r = .error e
  | .ok a => .inl ⟨a, rfl⟩
  | .error e => .inr ⟨e, rfl⟩

theorem searched_enabled :
    Searched ok (if s.fails c event t then 1 else 0) s (s.enabled c event t).2 := by
  unfold enabled fails
  dsimp only
  cases (c.transition t).trigger.answers event with
  | false => exact .refl s
  | true =>
    cases (c.transition t).cond with
    | none => exact .refl s
    | some cond =>
      rcases ok_or_error (s.evaluator.condition cond (s.scope c (c.transition t).source)) with
        ⟨b, h⟩ | ⟨e, h⟩
      · simp only [h]
        exact .refl s
      · simp only [h]
        have hq := worked_fail (s := s) .expressionError (by decide) e.message
          ((c.transition t).source.map c.path)
        exact ⟨rfl, hq.journal.imp fun _ h _ => h, fun _ => by simp [fail, report, note, raise]⟩

/-- Going through the transitions of a state. -/
theorem firstEnabled_spec (ok : Prop) (c : Chart) (event : Option String) :
    ∀ (ts : List TransitionId) (s : Session), ∃ n,
    Searched ok n s (firstEnabled c event ts s).2 ∧
      match (firstEnabled c event ts s).1 with
      | none => (∀ t ∈ ts, s.enables c event t = false) ∧ n = ts.countP (s.fails c event)
      | some t => t ∈ ts ∧ s.enables c event t = true
  | [], s => ⟨0, .refl s, by simp, rfl⟩
  | t :: ts, s => by
    have hse : Searched ok (if s.fails c event t then 1 else 0) s (s.enabled c event t).2 :=
      searched_enabled
    have hen : s.enables c event t = (s.enabled c event t).1 := rfl
    rw [firstEnabled]
    split <;> rename_i s' e <;> rw [e] at hse hen
    · exact ⟨_, hse, by simp, hen⟩
    · obtain ⟨n, hn, h⟩ := firstEnabled_spec ok c event ts s'
      refine ⟨_, hse.trans hn, ?_⟩
      split at h <;> rename_i e'
      · obtain ⟨h, rfl⟩ := h
        refine ⟨?_, ?_⟩
        · intro u hu
          rcases List.mem_cons.1 hu with rfl | hu
          · exact hen
          · exact enables_congr hse.store hse.evaluator ▸ h u hu
        · have hcongr : s'.fails c event = s.fails c event :=
            funext fun _ => fails_congr hse.store hse.evaluator
          rw [List.countP_cons, hcongr, Nat.add_comm]
      · exact ⟨List.mem_cons_of_mem _ h.1, enables_congr hse.store hse.evaluator ▸ h.2⟩

/-- Searching a state and those above it. -/
theorem climb_spec (c : Chart) (event : Option String) : ∀ (ns : List NodeId) (r : Search), ∃ n,
    Searched ok n r.session (climb c event ns r).session ∧
      ∀ t ∈ (climb c event ns r).found,
        t ∈ r.found ∨ ∃ m ∈ ns, t ∈ (c.node m).transitions
  | [], r => ⟨0, .refl _, fun _ ht => .inl ht⟩
  | m :: ns, r => by
    rw [climb]
    split
    · exact ⟨0, .refl _, fun _ ht => .inl ht⟩
    obtain ⟨n, hn, h⟩ := firstEnabled_spec ok c event (c.node m).transitions r.session
    dsimp only
    split <;> rename_i session e <;> rw [e] at hn h
    · refine ⟨n, hn, ?_⟩
      intro u hu
      rcases List.mem_append.1 hu with hu | hu
      · exact .inl hu
      · exact .inr ⟨m, by simp, List.mem_singleton.1 hu ▸ h.1⟩
    · obtain ⟨k, hk, h'⟩ := climb_spec c event ns ⟨r.found, NodeSet.insert m r.seen, session⟩
      refine ⟨n + k, hn.trans hk, fun u hu => (h' u hu).imp_right ?_⟩
      rintro ⟨p, hp, hu⟩
      exact ⟨p, List.mem_cons_of_mem _ hp, hu⟩

/-- The states searched for an active leaf are active. -/
theorem mem_active_of_chainOf {store : Store} {leaf m : NodeId} {chain : List NodeId}
    (hc : c.WellFormed) (hl : leaf ∈ store.leaves) (h : chainOf c leaf = some chain) (hm : m ∈ chain) :
    m ∈ store.active c := by
  refine Chart.mem_closure.2 ⟨leaf, hl, ?_⟩
  unfold chainOf at h
  dsimp only at h
  split at h
  · cases hp : (c.node leaf).parent with
    | none => simp [hp] at h
    | some p =>
      rw [hp] at h
      cases h
      exact .inr (hc.ancestors_some hp ▸ hm)
  · cases h
    exact List.mem_cons.1 hm

/-- Only a final state at the top has no states to search. -/
theorem isTopLevelFinal_of_chainOf {leaf : NodeId} (h : chainOf c leaf = none) :
    (c.node leaf).isTopLevelFinal = true := by
  unfold chainOf at h
  cases hfin : (c.node leaf).isFinal with
  | false => simp [hfin] at h
  | true =>
    have hp : (c.node leaf).parent = none := by simpa [hfin] using h
    simp [Node.isTopLevelFinal, hfin, hp]

/-- A report about a leaf that has no states to search, which is a final state at the top. -/
theorem searched_report {leaf : NodeId} (h : chainOf c leaf = none) (detail : String) :
    Searched ((c.node leaf).isTopLevelFinal = false) 0 s
      (s.report .illegalConfig detail (some (c.path leaf))) where
  same := by simp [report, note]
  journal := by
    refine ⟨[_], Array.toList_push .., ?_⟩
    intro e _ hok
    rw [isTopLevelFinal_of_chainOf h] at hok
    cases hok
  reported hok := by
    rw [isTopLevelFinal_of_chainOf h] at hok
    cases hok

/-- Searching from active leaves one after the other. -/
theorem searchLeaves_spec (hc : c.WellFormed) (event : Option String) (store : Store) :
    ∀ (ls : List NodeId) (r : Search),
    (∀ l ∈ ls, l ∈ store.leaves) → (∀ t ∈ r.found, ∃ m ∈ store.active c, t ∈ (c.node m).transitions) →
    ∃ n, Searched (∀ l ∈ ls, (c.node l).isTopLevelFinal = false) n r.session
        (ls.foldl (searchLeaf c event) r).session ∧
      ∀ t ∈ (ls.foldl (searchLeaf c event) r).found,
        ∃ m ∈ store.active c, t ∈ (c.node m).transitions
  | [], r, _, hr => ⟨0, .refl _, hr⟩
  | l :: ls, r, hl, hr => by
    obtain ⟨n, hn, hf⟩ : ∃ n, Searched ((c.node l).isTopLevelFinal = false) n r.session
        (searchLeaf c event r l).session ∧ ∀ t ∈ (searchLeaf c event r l).found,
          ∃ m ∈ store.active c, t ∈ (c.node m).transitions := by
      unfold searchLeaf
      split
      · rename_i chain hchain
        obtain ⟨n, hn, hf⟩ := climb_spec c event chain r
        refine ⟨n, hn, ?_⟩
        intro t ht
        rcases hf t ht with ht | ⟨m, hm, ht⟩
        · exact hr t ht
        · exact ⟨m, mem_active_of_chainOf hc (hl l (by simp)) hchain hm, ht⟩
      · rename_i hchain
        exact ⟨0, searched_report hchain _, hr⟩
    obtain ⟨k, hk, hf'⟩ := searchLeaves_spec hc event store ls (searchLeaf c event r l)
      (fun m hm => hl m (List.mem_cons_of_mem _ hm)) hf
    refine ⟨n + k, (hn.weaken fun hok => hok l (by simp)).trans (hk.weaken ?_), hf'⟩
    intro hok m hm
    exact hok m (List.mem_cons_of_mem _ hm)

end Session

/-- What transitions must satisfy to be taken together: their sources are active, and they leave no
    state in common; the chart's own transition is taken alone. -/
structure Chosen (c : Chart) (active : NodeSet) (ts : List TransitionId) : Prop where
  source : ∀ t ∈ ts, ∀ s, (c.transition t).source = some s → s ∈ active
  disjoint : ts.Pairwise fun t u =>
    NodeSet.disjoint (c.exitSet active t) (c.exitSet active u) = true
  alone : ∀ t ∈ ts, (c.transition t).source = none → ts = [t]

namespace Session

variable {c : Chart} {event : Option String} {s s' : Session} {ts : List TransitionId}

/-- What is selected can be taken together, and selecting only reports. -/
theorem select_spec (hc : c.WellFormed) (h : s.select c event = (ts, s')) :
    Chosen c (s.store.active c) ts ∧
      (∀ t ∈ ts, ∃ m ∈ s.store.active c, t ∈ (c.node m).transitions) ∧
      ∃ n, Searched (∀ l ∈ s.store.leaves, (c.node l).isTopLevelFinal = false) n s s' := by
  obtain ⟨n, hn, hf⟩ := searchLeaves_spec hc event s.store (c.sortDocument s.store.leaves)
    ⟨[], [], s⟩ (fun l hl => mem_stableSort.1 hl) (by simp)
  obtain ⟨rfl, rfl⟩ := Prod.mk.inj h
  have hmem : ∀ t ∈ (s.select c event).1, ∃ m ∈ s.store.active c, t ∈ (c.node m).transitions :=
    fun t ht => hf t (Chart.mem_of_resolveConflicts ht)
  refine ⟨⟨?_, ?_, ?_⟩, hmem, n, hn.weaken ?_⟩
  · intro t ht n hn
    obtain ⟨m, hm, htm⟩ := hmem t ht
    rw [(hc.source_eq htm).1] at hn
    cases hn
    exact hm
  · have := c.pairwise_resolveConflicts
      ((s.search c event).session.store.active c) (s.search c event).found
    have hstore : (s.search c event).session.store = s.store := hn.store
    rwa [hstore] at this ⊢
  · intro t ht hnone
    obtain ⟨m, -, htm⟩ := hmem t ht
    rw [(hc.source_eq htm).1] at hnone
    cases hnone
  · intro hok l hl
    exact hok l (mem_stableSort.1 hl)

end Session
end Statechart
