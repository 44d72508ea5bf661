import Statechart.Proofs.Plan
import Statechart.Proofs.Selection

/-! What is active after a step.

    A state is active if an active leaf lies within it. Domains of what is taken stay active with
    everything above them, exits reach from below a domain down to the leaves, and entries from below a
    domain down to leaves again; so the active states after a step are those that it does not leave and
    those that it enters. A configuration is regular if every compound state in it has one child in it
    and every parallel one all of them, and steps keep configurations regular. -/

namespace Statechart

open Chart

variable {c : Chart} {L L' A A' E : NodeSet} {a b d m n : NodeId} {t u : TransitionId}
  {ts : List TransitionId} {p : EntryPlan}

namespace Chart

theorem mem_closure_iff_covers : n ∈ c.closure L ↔ c.Covers L n := by
  rw [mem_closure, Covers]
  simp only [Within, descends_iff, eq_comm (b := n)]

theorem mem_closure_of_mem (h : n ∈ L) : n ∈ c.closure L := mem_closure_iff_covers.2 (.of_mem h)

/-- A transition leaves the active states inside its domain. -/
theorem mem_exitSet : n ∈ c.exitSet A t ↔ n ∈ A ∧ c.Leads t n := by
  unfold exitSet Leads
  dsimp only
  split
  · rename_i h
    simp [List.isEmpty_iff.1 h]
  rename_i hne
  have hne : (c.transition t).targets ≠ [] := fun e => hne (by simp [e])
  split <;> rename_i e <;> simp [e, hne]

namespace WellFormed

variable (hc : c.WellFormed)

include hc

theorem leads_of_within (h : c.Leads t a) (hw : c.Within b a) : c.Leads t b :=
  ⟨h.1, fun d hd => hc.descends_of_within_descends hw (h.2 d hd)⟩

theorem mem_closure_up (h : a ∈ c.closure L) (hw : c.Within a b) : b ∈ c.closure L :=
  mem_closure_iff_covers.2 (Covers.up hc (mem_closure_iff_covers.1 h) hw)

omit hc in
/-- Below an active state with children a leaf is active. -/
theorem exists_leaf_below (hL : ∀ l ∈ L, (c.node l).isAtomic = true) (h : a ∈ c.closure L)
    (ha : (c.node a).isAtomic = false) : ∃ l ∈ L, c.descends l a = true := by
  obtain ⟨l, hl, hw⟩ := mem_closure_iff_covers.1 h
  refine ⟨l, hl, hw.resolve_left ?_⟩
  rintro rfl
  rw [hL l hl] at ha
  cases ha

omit hc in
theorem not_history_of_atomic (h : (c.node n).isAtomic = true) : (c.node n).isHistory = false := by
  cases hk : (c.node n).kind <;> simp [Node.isAtomic, Node.isHistory, hk] at h ⊢

/-- The active states without children are the leaves. -/
theorem mem_leaves_iff_atomic (hL : ∀ l ∈ L, (c.node l).isAtomic = true) :
    n ∈ L ↔ n ∈ c.closure L ∧ (c.node n).isAtomic = true := by
  refine ⟨fun hn => ⟨mem_closure_of_mem hn, hL n hn⟩, ?_⟩
  rintro ⟨hn, ha⟩
  obtain ⟨l, hl, hw⟩ := mem_closure_iff_covers.1 hn
  exact hc.eq_of_within_atomic hw ha (not_history_of_atomic (hL l hl)) ▸ hl

omit hc in
theorem not_atomic_of_compound (h : (c.node n).isCompound = true) : (c.node n).isAtomic = false := by
  cases hk : (c.node n).kind <;> simp [Node.isCompound, Node.isAtomic, hk] at h ⊢
  exact h

/-- A state that is no leaf has children and is compound or parallel. -/
theorem compound_or_parallel (hs : (c.node n).isHistory = false) (ha : (c.node n).isAtomic = false) :
    (c.node n).children ≠ [] ∧ ((c.node n).isCompound = true ∨ (c.node n).isParallel = true) := by
  cases hk : (c.node n).kind with
  | state =>
    simp only [Node.isAtomic, hk] at ha
    refine ⟨fun e => by simp [e] at ha, .inl ?_⟩
    simp [Node.isCompound, hk, ha]
  | parallel =>
    have hp : (c.node n).isParallel = true := by simp [Node.isParallel, hk]
    exact ⟨(hc.shaped n).parallel hp, .inr hp⟩
  | final => simp [Node.isAtomic, hk] at ha
  | history kind => simp [Node.isHistory, hk] at hs

/-- Whatever is complete downward reaches leaves. The induction goes up from the last index. -/
theorem exists_leaf_within (hE : ∀ m ∈ E, c.Complete E m) :
    ∀ {m : NodeId}, m ∈ E → ∃ l ∈ E, (c.node l).isAtomic = true ∧ c.Within l m := by
  suffices h : ∀ k m, c.nodes.size - m = k → m ∈ E →
      ∃ l ∈ E, (c.node l).isAtomic = true ∧ c.Within l m from fun {m} hm => h _ m rfl hm
  intro k
  induction k using Nat.strongRecOn with
  | ind k ih =>
    rintro m rfl hm
    cases ha : (c.node m).isAtomic with
    | true => exact ⟨m, hm, ha, .refl m⟩
    | false =>
      obtain ⟨hne, hkind⟩ := hc.compound_or_parallel (hE m hm).state ha
      obtain ⟨x, hx, hd⟩ : ∃ x ∈ E, c.descends x m = true := by
        obtain ⟨k, hk, hcov⟩ : ∃ k ∈ (c.node m).children, c.Covers E k := by
          rcases hkind with h | h
          · exact (hE m hm).compound h
          · obtain ⟨k, ks, e⟩ := List.exists_cons_of_ne_nil hne
            exact ⟨k, by simp [e], (hE m hm).parallel h k (by simp [e])⟩
        obtain ⟨x, hx, hw⟩ := hcov
        exact ⟨x, hx, hc.descends_of_within_descends hw (hc.descends_parent (hc.mem_children.1 hk).1)⟩
      have hlt : c.nodes.size - x < c.nodes.size - m :=
        Nat.sub_lt_sub_left (hE m hm).lt (hc.lt_of_descends hd)
      obtain ⟨l, hl, hla, hw⟩ := ih _ hlt x rfl hx
      exact ⟨l, hl, hla, hc.within_trans hw (.inr hd)⟩

end WellFormed
end Chart

namespace Chosen

/-- Transitions taken together that leave the same state are the same. -/
theorem eq_of_leads (h : Chosen c A ts) (ht : t ∈ ts) (hu : u ∈ ts) (hn : n ∈ A)
    (htn : c.Leads t n) (hun : c.Leads u n) : t = u := by
  have : Std.Symm fun t u => NodeSet.disjoint (c.exitSet A t) (c.exitSet A u) = true :=
    ⟨fun _ _ h => NodeSet.disjoint_iff.2 fun n hu ht => NodeSet.disjoint_iff.1 h n ht hu⟩
  by_contra hne
  have hd := h.disjoint.forall ht hu hne
  exact NodeSet.disjoint_iff.1 hd n (mem_exitSet.2 ⟨hn, htn⟩) (mem_exitSet.2 ⟨hn, hun⟩)

variable (hc : c.WellFormed) (h : Chosen c (c.closure L) ts)

include hc h

/-- Domains of what is taken are active. -/
theorem domain_mem (ht : t ∈ ts) (hd : (c.transition t).domain = some d) : d ∈ c.closure L := by
  obtain ⟨-, ⟨s, hs, hw⟩, -⟩ := hc.of_domain hd
  exact hc.mem_closure_up (h.source t ht s hs) hw

/-- What is taken leaves something inside its domain. -/
theorem exists_left (hL : ∀ l ∈ L, (c.node l).isAtomic = true) (ht : t ∈ ts)
    (hd : (c.transition t).domain = some d) : ∃ l ∈ L, c.descends l d = true :=
  WellFormed.exists_leaf_below hL (h.domain_mem hc ht hd)
    (WellFormed.not_atomic_of_compound (hc.of_domain hd).1)

/-- A domain stays active, with everything above it. -/
theorem domain_stays (hL : ∀ l ∈ L, (c.node l).isAtomic = true) (ht : t ∈ ts)
    (hne : (c.transition t).targets ≠ []) (hd : (c.transition t).domain = some d)
    (hw : c.Within d a) : a ∈ c.closure L ∧ ∀ u ∈ ts, ¬c.Leads u a := by
  refine ⟨hc.mem_closure_up (h.domain_mem hc ht hd) hw, ?_⟩
  intro u hu hua
  obtain ⟨l, hl, hld⟩ := h.exists_left hc hL ht hd
  have hla := hc.descends_of_descends_within hld hw
  have e : t = u := by
    refine h.eq_of_leads ht hu (mem_closure_of_mem hl) ⟨hne, ?_⟩
      (hc.leads_of_within hua (.inr hla))
    intro d' hd'
    rw [hd] at hd'
    cases hd'
    exact hld
  subst e
  exact hc.not_within_of_descends (hua.2 d hd) hw

end Chosen

/-- How active leaves change in a step. -/
structure Moved (c : Chart) (L L' : NodeSet) (ts : List TransitionId) (p : EntryPlan) : Prop where
  leaf : ∀ l ∈ L, (c.node l).isAtomic = true
  chosen : Chosen c (c.closure L) ts
  planned : EntryPlan.Planned c ts p
  mem_iff : ∀ {l}, l ∈ L' ↔
    (l ∈ L ∧ ∀ t ∈ ts, ¬c.Leads t l) ∨ (l ∈ p.entry ∧ (c.node l).isAtomic = true)

namespace Moved

variable (hc : c.WellFormed) (h : Moved c L L' ts p)

include h

theorem leaf_after : ∀ l ∈ L', (c.node l).isAtomic = true := fun l hl =>
  (h.mem_iff.1 hl).elim (fun hl => h.leaf l hl.1) And.right

include hc

/-- An entered state and everything above it is active after the step. -/
theorem entered_mem (hn : n ∈ p.entry) : n ∈ c.closure L' := by
  obtain ⟨l, hl, ha, hw⟩ := hc.exists_leaf_within h.planned.complete hn
  exact mem_closure_iff_covers.2 ⟨l, h.mem_iff.2 (.inr ⟨hl, ha⟩), hw⟩

/-- Above an entered state everything is entered or stays active. The induction follows the parents. -/
theorem above_entered : ∀ {m : NodeId}, m ∈ p.entry → ∀ {n : NodeId}, c.Within m n →
    n ∈ p.entry ∨ n ∈ c.closure L ∧ ∀ t ∈ ts, ¬c.Leads t n := by
  intro m
  induction m using Nat.strongRecOn with
  | ind m ih =>
    intro hm n hw
    rcases hw with rfl | hd
    · exact .inl hm
    obtain ⟨a, ha, hw⟩ := hc.descends_iff_parent.1 hd
    rcases h.planned.placed m hm with ⟨t, ht, hl, e⟩ | ⟨b, hb, e⟩
    · exact .inr (h.chosen.domain_stays hc h.leaf ht hl.1 (e.symm.trans ha) hw)
    · rw [ha] at e
      cases e
      exact ih a (hc.parent_lt ha) hb hw

/-- After a step those states are active that it does not leave and those that it enters. -/
theorem mem_closure_iff : n ∈ c.closure L' ↔
    (n ∈ c.closure L ∧ ∀ t ∈ ts, ¬c.Leads t n) ∨ n ∈ p.entry := by
  constructor
  · intro hn
    obtain ⟨l, hl, hw⟩ := mem_closure_iff_covers.1 hn
    rcases h.mem_iff.1 hl with ⟨hl, hstay⟩ | ⟨hl, -⟩
    · exact .inl ⟨mem_closure_iff_covers.2 ⟨l, hl, hw⟩,
        fun t ht hlead => hstay t ht (hc.leads_of_within hlead hw)⟩
    · exact (h.above_entered hc hl hw).symm
  · rintro (⟨hn, hstay⟩ | hn)
    · obtain ⟨l, hl, hw⟩ := mem_closure_iff_covers.1 hn
      by_cases hleft : ∃ t ∈ ts, c.Leads t l
      · -- the leaf goes, but the domain of its transition lies within the state
        obtain ⟨t, ht, hlead⟩ := hleft
        cases hd : (c.transition t).domain with
        | none => exact absurd ⟨hlead.1, by simp [hd]⟩ (hstay t ht)
        | some d =>
          have hdn : c.Within d n := (hc.comparable (.inr (hlead.2 d hd)) hw).elim id fun hnd =>
            hnd.elim (fun e => .inl e.symm) fun hnd =>
              absurd ⟨hlead.1, fun d' hd' => by rw [hd] at hd'; cases hd'; exact hnd⟩ (hstay t ht)
          obtain ⟨y, hy, hyt⟩ := h.planned.reached t ht hlead.1
          exact hc.mem_closure_up (h.entered_mem hc hy) (hc.within_trans (.inr (hyt.2 d hd)) hdn)
      · have hl' : l ∈ L' := h.mem_iff.2 (.inl ⟨hl, fun t ht hlead => hleft ⟨t, ht, hlead⟩⟩)
        exact mem_closure_iff_covers.2 ⟨l, hl', hw⟩
    · exact h.entered_mem hc hn

end Moved
end Statechart
