import Statechart.Proofs.Numbering
import Statechart.Proofs.Restore

/-! Which of the transitions found are kept.

    Transitions are considered in document order. One that clashes with some of those kept so far takes
    their place if it comes from below all of them; else it is dropped. So a transition can be dropped
    for the sake of one that later gives way itself. Nothing is lost by that: document order is a
    pre-order, so what takes the place then comes from below the source of the dropped one too, their
    domains lie on one branch of the tree, and they leave a state in common. -/

namespace Statechart.Chart

variable {c : Chart} {A : NodeSet} {a b m n : NodeId} {t u x : TransitionId}
  {done kept found found' ts us : List TransitionId}

/-- Whether a transition comes from properly below the source of another, or from a state that stands
    before that source and does not contain it. -/
def Prevails (c : Chart) (u t : TransitionId) : Prop :=
  ∃ a b, (c.transition u).source = some a ∧ (c.transition t).source = some b ∧
    (c.descends a b = true ∨ (c.node a).order < (c.node b).order ∧ c.descends b a = false)

/-- Whether a transition is preferred to another: it prevails, or it is declared earlier in the same
    state. -/
def Outranks (c : Chart) (u t : TransitionId) : Prop :=
  c.Prevails u t ∨ (c.transition u).source = (c.transition t).source ∧
    (c.transition u).order < (c.transition t).order

theorem clash_iff : c.clash A t u = true ↔ ∃ n ∈ c.exitSet A t, n ∈ c.exitSet A u := by
  rw [clash, Bool.not_eq_true', ← Bool.not_eq_true, NodeSet.disjoint_iff]
  simp

/-! ### Document order -/

namespace Numbered

variable (hn : c.Numbered)

include hn

/-- Sources stand in the order of their transitions. -/
theorem source_le (ht : t ∈ (c.node a).transitions) (hu : u ∈ (c.node b).transitions)
    (h : (c.transition t).order < (c.transition u).order) : a ≤ b := by
  refine Nat.le_of_not_lt fun hlt => Nat.lt_asymm h ?_
  exact Nat.lt_trans (hn.before hu hlt (lt_size_of_transition ht)) (hn.behind ht)

/-- No two event transitions have the same place in the document. -/
theorem eq_of_order_eq (ht : t ∈ (c.node a).transitions) (hu : u ∈ (c.node b).transitions)
    (h : (c.transition t).order = (c.transition u).order) : t = u := by
  rcases Nat.lt_trichotomy a b with hlt | rfl | hlt
  · have := Nat.lt_trans (hn.before ht hlt (lt_size_of_transition hu)) (hn.behind hu)
    omega
  · rcases Nat.lt_trichotomy t u with hlt | rfl | hlt
    · have := hn.declared ht hu hlt
      omega
    · rfl
    · have := hn.declared hu ht hlt
      omega
  · have := Nat.lt_trans (hn.before hu hlt (lt_size_of_transition ht)) (hn.behind ht)
    omega

end Numbered

/-! ### Clashes on one branch -/

section

variable (hc : c.WellFormed)

include hc

theorem below_eq (ht : t ∈ (c.node a).transitions) (hu : u ∈ (c.node b).transitions) :
    c.below t u = c.descends a b := by
  rw [below, (hc.source_eq ht).1, (hc.source_eq hu).1]

/-- If the source of a transition lies within that of another, the one with the outer domain leaves
    what the other one leaves. -/
theorem clash_of_within (ht : t ∈ (c.node a).transitions) (hu : u ∈ (c.node b).transitions)
    (hw : c.Within a b) (hm : m ∈ c.exitSet A t) (hn : n ∈ c.exitSet A u) : c.clash A t u = true := by
  rw [mem_exitSet] at hm hn
  -- a state that one of them leaves is left by the other if that has the outer domain
  have outer {t u : TransitionId} {m : NodeId} (hm : m ∈ A ∧ c.Leads t m)
      (hu : (c.transition u).targets ≠ [])
      (h : ∀ e, (c.transition u).domain = some e →
        ∃ d, (c.transition t).domain = some d ∧ c.Within d e) : m ∈ c.exitSet A u := by
    refine mem_exitSet.2 ⟨hm.1, hu, fun e he => ?_⟩
    obtain ⟨d, hd, hw⟩ := h e he
    exact hc.descends_of_descends_within (hm.2.2 d hd) hw
  have source {t : TransitionId} {a d : NodeId} (ht : t ∈ (c.node a).transitions)
      (hd : (c.transition t).domain = some d) : c.Within a d := by
    obtain ⟨-, ⟨s, hs, hw⟩, -⟩ := hc.of_domain hd
    rw [(hc.source_eq ht).1] at hs
    cases hs
    exact hw
  refine clash_iff.2 ?_
  cases hd : (c.transition t).domain with
  | none => exact ⟨n, outer hn hm.2.1 (by simp [hd]), mem_exitSet.2 hn⟩
  | some d =>
    cases he : (c.transition u).domain with
    | none => exact ⟨m, mem_exitSet.2 hm, outer hm hn.2.1 (by simp [he])⟩
    | some e =>
      rcases hc.comparable (source ht hd) (hc.within_trans hw (source hu he)) with h | h
      · exact ⟨m, mem_exitSet.2 hm, outer hm hn.2.1 (by simp [hd, he, h])⟩
      · exact ⟨n, outer hn hm.2.1 (by simp [hd, he, h]), mem_exitSet.2 hn⟩

end

/-! ### Keeping transitions one after the other -/

/-- What is the case when some transitions have been considered: those kept are among them, and
    whatever was dropped clashes with a kept one that is preferred to it. -/
structure Kept (c : Chart) (A : NodeSet) (done kept : List TransitionId) : Prop where
  sub : ∀ t ∈ kept, t ∈ done
  order : kept.Pairwise fun t u => (c.transition t).order < (c.transition u).order
  dropped : ∀ t ∈ done, t ∉ kept → ∃ u ∈ kept, c.clash A u t = true ∧ c.Outranks u t

/-- Whether transitions are those of states, for events. -/
def OfStates (c : Chart) (ts : List TransitionId) : Prop := ∀ t ∈ ts, ∃ n, t ∈ (c.node n).transitions

section

variable (hc : c.WellFormed) (hn : c.Numbered)

include hc hn

/-- One that takes the place of another is preferred to what was dropped for the sake of that one. -/
theorem outranks_of_below {d : NodeId} (ht : t ∈ (c.node d).transitions)
    (hu : u ∈ (c.node a).transitions) (hx : x ∈ (c.node b).transitions)
    (hlast : (c.transition x).order < (c.transition t).order) (hbelow : c.descends d a = true)
    (hux : c.Outranks u x) : c.descends d b = true := by
  rcases hux with ⟨a', b', ha, hb, h⟩ | ⟨hsame, -⟩
  · rw [(hc.source_eq hu).1] at ha
    rw [(hc.source_eq hx).1] at hb
    cases ha
    cases hb
    rcases h with h | ⟨hlt, hnot⟩
    · exact hc.descends_of_descends_within hbelow (.inr h)
    · -- `b` stands between `a` and what is below `a`, so it would be below `a` itself
      have hab : a < b := by
        refine Nat.lt_of_not_le fun hle => ?_
        rcases Nat.lt_or_eq_of_le hle with hba | rfl
        · exact Nat.lt_asymm hlt (hn.order_lt hba (lt_size_of_transition hu))
        · exact Nat.lt_irrefl _ hlt
      rw [hn.between hab (hn.source_le hx ht hlast) hbelow] at hnot
      cases hnot
  · rw [(hc.source_eq hu).1, (hc.source_eq hx).1] at hsame
    cases hsame
    exact hbelow

/-- A transition takes the place of those it clashes with. -/
theorem Kept.replace {d : NodeId} (h : Kept c A done kept) (hev : c.OfStates done)
    (ht : t ∈ (c.node d).transitions)
    (hlast : ∀ u ∈ done, (c.transition u).order < (c.transition t).order)
    (hall : ∀ u ∈ kept, c.clash A t u = true → c.below t u = true) :
    Kept c A (done ++ [t]) ((kept.filter fun u => !c.clash A t u) ++ [t]) where
  sub u hu := by
    rcases List.mem_append.1 hu with hu | hu
    · exact List.mem_append_left _ (h.sub u (List.mem_filter.1 hu).1)
    · exact List.mem_append_right _ hu
  order := by
    refine List.pairwise_append.2 ⟨h.order.filter _, List.pairwise_singleton _ _, ?_⟩
    intro u hu v hv
    rw [List.mem_singleton.1 hv]
    exact hlast u (h.sub u (List.mem_filter.1 hu).1)
  dropped y hy hyk := by
    have prevails {y : TransitionId} {b : NodeId} (hy : y ∈ (c.node b).transitions)
        (hd : c.descends d b = true) : c.Outranks t y :=
      .inl ⟨d, b, (hc.source_eq ht).1, (hc.source_eq hy).1, .inl hd⟩
    have hyd : y ∈ done := (List.mem_append.1 hy).resolve_right fun h =>
      hyk (List.mem_append_right _ h)
    obtain ⟨b, hyb⟩ := hev y hyd
    by_cases hkept : y ∈ kept
    · -- it gives way itself
      have hclash : c.clash A t y = true := by
        refine eq_true_of_ne_false fun hf => hyk ?_
        exact List.mem_append_left _ (List.mem_filter.2 ⟨hkept, by simp [hf]⟩)
      have hbelow := hall y hkept hclash
      rw [below_eq hc ht hyb] at hbelow
      exact ⟨t, by simp, hclash, prevails hyb hbelow⟩
    · obtain ⟨u, hu, hclash, hrank⟩ := h.dropped y hyd hkept
      cases htu : c.clash A t u with
      | false =>
        exact ⟨u, List.mem_append_left _ (List.mem_filter.2 ⟨hu, by simp [htu]⟩), hclash, hrank⟩
      | true =>
        -- what it was dropped for gives way
        obtain ⟨a, hua⟩ := hev u (h.sub u hu)
        have hbelow := hall u hu htu
        rw [below_eq hc ht hua] at hbelow
        have hdb := outranks_of_below hc hn ht hua hyb (hlast y hyd) hbelow hrank
        obtain ⟨m, hm, -⟩ := clash_iff.1 htu
        obtain ⟨k, -, hk⟩ := clash_iff.1 hclash
        exact ⟨t, by simp, clash_of_within hc ht hyb (.inr hdb) hm hk, prevails hyb hdb⟩

/-- A transition that clashes with one it does not come from below of is dropped for that one. -/
theorem Kept.reject {d : NodeId} (h : Kept c A done kept) (hev : c.OfStates done)
    (ht : t ∈ (c.node d).transitions)
    (hlast : ∀ u ∈ done, (c.transition u).order < (c.transition t).order) (hu : u ∈ kept)
    (hclash : c.clash A t u = true) (hbelow : c.below t u = false) :
    Kept c A (done ++ [t]) kept where
  sub v hv := List.mem_append_left _ (h.sub v hv)
  order := h.order
  dropped y hy hyk := by
    rcases List.mem_append.1 hy with hy | hy
    · exact h.dropped y hy hyk
    rw [List.mem_singleton.1 hy]
    obtain ⟨a, hua⟩ := hev u (h.sub u hu)
    rw [below_eq hc ht hua] at hbelow
    refine ⟨u, hu, clash_comm.trans hclash, ?_⟩
    have hlt := hlast u (h.sub u hu)
    rcases Nat.lt_or_eq_of_le (hn.source_le hua ht hlt) with had | rfl
    · exact .inl ⟨a, d, (hc.source_eq hua).1, (hc.source_eq ht).1,
        .inr ⟨hn.order_lt had (lt_size_of_transition ht), hbelow⟩⟩
    · exact .inr ⟨by rw [(hc.source_eq hua).1, (hc.source_eq ht).1], hlt⟩

theorem Kept.accommodate (h : Kept c A done kept) (hev : c.OfStates (done ++ [t]))
    (hlast : ∀ u ∈ done, (c.transition u).order < (c.transition t).order) :
    Kept c A (done ++ [t]) (c.accommodate A kept t) := by
  obtain ⟨d, ht⟩ := hev t (by simp)
  have hev : c.OfStates done := fun u hu => hev u (List.mem_append_left _ hu)
  unfold Chart.accommodate
  split
  · rename_i hall
    exact h.replace hc hn hev ht hlast fun u hu hclash =>
      List.all_eq_true.1 hall u (List.mem_filter.2 ⟨hu, hclash⟩)
  · rename_i hall
    obtain ⟨u, hu, hclash, hbelow⟩ : ∃ u ∈ kept, c.clash A t u = true ∧ c.below t u = false := by
      simpa using hall
    exact h.reject hc hn hev ht hlast hu hclash hbelow

theorem Kept.foldl : ∀ (ts : List TransitionId) {done kept : List TransitionId},
    Kept c A done kept → c.OfStates (done ++ ts) →
    ((done ++ ts).Pairwise fun t u => (c.transition t).order < (c.transition u).order) →
    Kept c A (done ++ ts) (ts.foldl (c.accommodate A) kept)
  | [], done, kept, h, _, _ => by simpa using h
  | t :: ts, done, kept, h, hev, hord => by
    have hsplit : done ++ t :: ts = (done ++ [t]) ++ ts := by simp
    rw [hsplit] at hev hord ⊢
    have hfirst := (List.pairwise_append.1 (List.pairwise_append.1 hord).1).2.2
    exact Kept.foldl ts (h.accommodate hc hn (fun u hu => hev u (List.mem_append_left _ hu))
      fun u hu => hfirst u hu t (by simp)) hev hord

end

/-! ### The whole list -/

/-- Without repeats a sorted list is strictly sorted. -/
theorem pairwise_withoutRepeats : ∀ {ts : List TransitionId},
    (ts.Pairwise fun t u => (c.transition t).order ≤ (c.transition u).order) →
    (∀ t ∈ ts, ∀ u ∈ ts, (c.transition t).order = (c.transition u).order → t = u) →
    (withoutRepeats ts).Pairwise fun t u => (c.transition t).order < (c.transition u).order
  | [], _, _ => List.Pairwise.nil
  | [_], _, _ => List.pairwise_singleton _ _
  | a :: b :: ts, h, hinj => by
    obtain ⟨ha, hs⟩ := List.pairwise_cons.1 h
    have ih := pairwise_withoutRepeats hs fun t ht u hu =>
      hinj t (List.mem_cons_of_mem _ ht) u (List.mem_cons_of_mem _ hu)
    rw [withoutRepeats]
    split
    · exact ih
    · rename_i hne
      refine List.pairwise_cons.2 ⟨fun t ht => ?_, ih⟩
      have ht := mem_withoutRepeats_iff.1 ht
      refine Nat.lt_of_le_of_ne (ha t ht) fun e => hne (hinj a (by simp) b (by simp) ?_)
      -- an equal place further back would be that of the neighbour too
      have hab := ha b (by simp)
      rcases List.mem_cons.1 ht with rfl | ht'
      · exact e
      · have := (List.pairwise_cons.1 hs).1 t ht'
        omega

/-- Strictly sorted lists with the same members are equal. -/
theorem eq_of_pairwise_order (h : ts.Pairwise fun t u => (c.transition t).order < (c.transition u).order)
    (h' : us.Pairwise fun t u => (c.transition t).order < (c.transition u).order)
    (hmem : ∀ t, t ∈ ts ↔ t ∈ us) : ts = us := by
  have irrefl {vs : List TransitionId}
      (h : vs.Pairwise fun t u => (c.transition t).order < (c.transition u).order) : vs.Nodup :=
    h.imp fun hlt e => by
      subst e
      exact Nat.lt_irrefl _ hlt
  have hperm : ts.Perm us := (List.perm_ext_iff_of_nodup (irrefl h) (irrefl h')).2 hmem
  exact hperm.eq_of_pairwise (fun _ _ _ _ hlt hgt => absurd hgt (Nat.lt_asymm hlt)) h h'

/-- Sorted and without repeats the transitions found stand in strict document order. -/
theorem pairwise_sorted (hn : c.Numbered) (hf : c.OfStates found) :
    (withoutRepeats (c.sortTransitions found)).Pairwise
      fun t u => (c.transition t).order < (c.transition u).order := by
  refine pairwise_withoutRepeats (pairwise_stableSort_le _ found) fun t ht u hu e => ?_
  obtain ⟨a, ha⟩ := hf t (mem_stableSort.1 ht)
  obtain ⟨b, hb⟩ := hf u (mem_stableSort.1 hu)
  exact hn.eq_of_order_eq ha hb e

/-- Only what was found matters for what is kept, not how often and in which order. -/
theorem resolveConflicts_congr (hn : c.Numbered) (hf : c.OfStates found)
    (hmem : ∀ t, t ∈ found' ↔ t ∈ found) (active : NodeSet) :
    c.resolveConflicts active found' = c.resolveConflicts active found := by
  have hf' : c.OfStates found' := fun t ht => hf t ((hmem t).1 ht)
  have hsame : withoutRepeats (c.sortTransitions found') = withoutRepeats (c.sortTransitions found) :=
    eq_of_pairwise_order (pairwise_sorted hn hf') (pairwise_sorted hn hf) fun t => by
      rw [mem_sorted, mem_sorted, hmem]
  rw [resolveConflicts, hsame, resolveConflicts]

/-- What is the case once all that was found has been considered. -/
theorem kept_resolveConflicts (hc : c.WellFormed) (hn : c.Numbered) (hf : c.OfStates found) :
    Kept c A (withoutRepeats (c.sortTransitions found)) (c.resolveConflicts A found) := by
  have hnone : Kept c A [] [] := ⟨by simp, List.Pairwise.nil, by simp⟩
  exact hnone.foldl hc hn _ (fun t ht => hf t (mem_sorted.1 ht)) (pairwise_sorted hn hf)

/-- The transitions that are kept of those found are some of them, in strict document order, and leave
    no state in common, whatever is active. One that is not kept leaves a state in common with one that
    is kept and preferred to it. Neither the order nor the repetition of what was found matters. -/
theorem resolveConflicts_spec {name : String} {version : Nat} {v : Value}
    (hl : Chart.load name version v = .ok c) (active : NodeSet) (found : List TransitionId)
    (hf : ∀ t ∈ found, ∃ n ∈ active, t ∈ (c.node n).transitions) :
    let kept := c.resolveConflicts active found
    (∀ t ∈ kept, t ∈ found) ∧
      kept.Pairwise (fun t u => (c.transition t).order < (c.transition u).order) ∧
      kept.Pairwise (fun t u => NodeSet.disjoint (c.exitSet active t) (c.exitSet active u) = true) ∧
      (∀ t ∈ found, t ∉ kept → ∃ u ∈ kept,
        (∃ n ∈ c.exitSet active u, n ∈ c.exitSet active t) ∧ c.Outranks u t) ∧
      ∀ found', (∀ t, t ∈ found' ↔ t ∈ found) → c.resolveConflicts active found' = kept := by
  have hn := numbered_of_load hl
  have hev : c.OfStates found := fun t ht => (hf t ht).imp fun _ h => h.2
  have hkept := kept_resolveConflicts (A := active) (wellFormed_of_load hl) hn hev
  refine ⟨fun t ht => mem_sorted.1 (hkept.sub t ht), hkept.order,
    pairwise_resolveConflicts c active found, ?_,
    fun found' hmem => resolveConflicts_congr hn hev hmem active⟩
  intro t ht htk
  obtain ⟨u, hu, hclash, hrank⟩ := hkept.dropped t (mem_sorted.2 ht) htk
  exact ⟨u, hu, clash_iff.1 hclash, hrank⟩

/-- A door at which two things can happen. -/
def door : Value :=
  .object [("states", .array [
    .object [("id", .string "Door"), ("transitions", .array [
      .object [("event", .string "knock"), ("target", .string "Open")],
      .object [("event", .string "ring"), ("target", .string "Shut")]])],
    .object [("id", .string "Open")], .object [("id", .string "Shut")]])]

/-- The chart of the door. -/
def doorChart : Chart := (Chart.load "door" 1 door).toOption.get (by decide +kernel)

theorem load_door : Chart.load "door" 1 door = .ok doorChart := load_eq_ok _

/-- The door once it is there, with nothing having happened. -/
def newDoor : Session :=
  ((Session.fresh (some doorChart) (.ofSeed 0 0)).play doorChart 10 []).get (by decide +kernel)

theorem legal_newDoor : newDoor.store.Legal doorChart :=
  Store.legal_of_configurationError? (by decide +kernel) (by decide +kernel)

/-- The second thing is dropped although the first one does not prevail: both belong to the door. -/
theorem ring_dropped_for_knock :
    newDoor.store.Legal doorChart ∧
      (∀ t ∈ [0, 1], ∃ n ∈ newDoor.store.active doorChart, t ∈ (doorChart.node n).transitions) ∧
      1 ∉ doorChart.resolveConflicts (newDoor.store.active doorChart) [0, 1] ∧
      ∀ u ∈ doorChart.resolveConflicts (newDoor.store.active doorChart) [0, 1],
        ¬doorChart.Prevails u 1 := by
  have hkept : doorChart.resolveConflicts (newDoor.store.active doorChart) [0, 1] = [0] := by
    decide +kernel
  refine ⟨legal_newDoor, by decide +kernel, by simp [hkept], fun u hu => ?_⟩
  rw [hkept, List.mem_singleton] at hu
  subst hu
  rintro ⟨a, b, ha, hb, h⟩
  have hsource : (doorChart.transition 0).source = some 0 ∧
      (doorChart.transition 1).source = some 0 := by decide +kernel
  rw [hsource.1] at ha
  rw [hsource.2] at hb
  cases ha
  cases hb
  revert h
  decide +kernel

/-- Of knocking and ringing, in whatever order and however often they are found, knocking is kept. -/
theorem knock_kept :
    (∀ t ∈ [1, 0, 1], ∃ n ∈ newDoor.store.active doorChart, t ∈ (doorChart.node n).transitions) ∧
      doorChart.resolveConflicts (newDoor.store.active doorChart) [0, 1] =
        doorChart.resolveConflicts (newDoor.store.active doorChart) [1, 0, 1] ∧
      doorChart.Outranks 0 1 := by
  have h : ∀ t ∈ [1, 0, 1], ∃ n ∈ newDoor.store.active doorChart,
      t ∈ (doorChart.node n).transitions := by decide +kernel
  obtain ⟨-, -, -, hdropped, hsame⟩ :=
    resolveConflicts_spec load_door (newDoor.store.active doorChart) [1, 0, 1] h
  have hkept : doorChart.resolveConflicts (newDoor.store.active doorChart) [1, 0, 1] = [0] := by
    decide +kernel
  rw [hkept] at hdropped
  obtain ⟨u, hu, -, hrank⟩ := hdropped 1 (by simp) (by simp)
  rw [List.mem_singleton.1 hu] at hrank
  exact ⟨h, hsame [0, 1] (by simp [or_comm]), hrank⟩

end Statechart.Chart
