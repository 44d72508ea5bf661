import Statechart.Proofs.Configuration

/-! Regular configurations and what keeps them so.

    A set of active states is regular if no two rivals are in it and every compound state in it has a
    child in it, every parallel one all of them. A step keeps a configuration regular if its plan enters
    no two rivals, and for that the targets of what is taken must not get in each other's way: those of
    one transition do not, since loading checks it, unless one is a history of a parallel state, which
    stands for states in all regions; and two transitions work below different domains. -/

namespace Statechart

open Chart

variable {c : Chart} {L L' A : NodeSet} {a b d m n x y : NodeId} {t u : TransitionId}
  {ts : List TransitionId} {p : EntryPlan}

/-- Whether a set of states branches as a configuration does. -/
structure Regular (c : Chart) (A : NodeSet) : Prop where
  tidy : c.Tidy A
  complete : ∀ n ∈ A, c.Complete A n

theorem Regular.nil (c : Chart) : Regular c [] where
  tidy _ h := by
    obtain ⟨x, hx, -⟩ := h
    cases hx
  complete _ hn := by cases hn

namespace Chart

/-- Whether no transition with several targets has a history of a parallel state among them. -/
def HistoriesAlone (c : Chart) : Prop :=
  ∀ t, 2 ≤ (c.transition t).targets.length → ∀ x ∈ (c.transition t).targets,
    (c.node x).isHistory = true → ∀ p, (c.node x).parent = some p → (c.node p).isParallel = false

/-- Whether a transition with several targets has no history of a parallel state among them. -/
def Unmixed (c : Chart) (t : TransitionId) : Prop :=
  2 ≤ (c.transition t).targets.length → ∀ x ∈ (c.transition t).targets,
    (c.node x).isHistory = true → ∀ p, (c.node x).parent = some p → (c.node p).isParallel = false

instance (c : Chart) : Decidable c.HistoriesAlone :=
  decidable_of_iff (∀ t < c.transitions.size, 2 ≤ (c.transition t).targets.length →
      ∀ x ∈ (c.transition t).targets, (c.node x).isHistory = true →
        ∀ p ∈ (c.node x).parent, (c.node p).isParallel = false) <| by
    refine ⟨fun h t h2 => ?_, fun h t _ => h t⟩
    by_cases ht : t < c.transitions.size
    · exact h t ht h2
    · -- beyond the table there are no targets
      rw [transition, Array.getElem?_eq_none (Nat.le_of_not_lt ht)] at h2
      cases h2

/-- Two states of a tidy set are apart unless one lies below the other. -/
theorem Tidy.apart (hA : c.Tidy A) (ha : a ∈ A) (hb : b ∈ A) (hab : ¬c.Within a b)
    (hba : ¬c.Within b a) : c.Apart a b where
  left := hab
  right := hba
  rivals hr hm hn := hA hr ⟨a, ha, hm⟩ ⟨b, hb, hn⟩

namespace WellFormed

variable (hc : c.WellFormed)

include hc

/-- What lies within states that are apart is apart. -/
theorem apart_within (h : c.Apart a b) (hm : c.Within m a) (hn : c.Within n b) : c.Apart m n := by
  have incomparable : ∀ {x}, c.Within x a → ¬c.Within x b := fun hx hx' =>
    (hc.comparable hx hx').elim h.left h.right
  refine ⟨fun hw => incomparable hm (hc.within_trans hw hn),
    fun hw => incomparable (hc.within_trans hw hm) hn, fun {x y} hr hx hy => ?_⟩
  -- rivals that are not above the two have a parent within one of them, and so lie within it both
  have below {a k l z : NodeId} (hr : c.Rivals k l) (hd : c.descends k a = true)
      (hz : c.Within z l) : c.Within z a := by
    obtain ⟨q, hq, hw⟩ := hc.descends_iff_parent.1 hd
    exact hc.within_trans hz (.inr (hc.descends_iff_parent.2 ⟨q, hr.1 ▸ hq, hw⟩))
  have hr' : c.Rivals y x := ⟨hr.1.symm, fun p hp => hr.2 p (hr.1.trans hp)⟩
  rcases hc.comparable hm hx with hax | rfl | hxa
  · rcases hc.comparable hn hy with hby | rfl | hyb
    · exact h.rivals hr hax hby
    · exact h.rivals hr hax (.refl y)
    · exact (incomparable hm (below hr' hyb hx)).elim
  · rcases hc.comparable hn hy with hby | rfl | hyb
    · exact h.rivals hr (.refl x) hby
    · exact h.rivals hr (.refl x) (.refl y)
    · exact (incomparable hm (below hr' hyb hx)).elim
  · exact (incomparable (below hr hxa hy) hn).elim

/-- A state with a history is no leaf. -/
theorem not_atomic_of_history (hh : (c.node m).isHistory = true) (hp : (c.node m).parent = some a) :
    (c.node a).isAtomic = false := by
  obtain ⟨kind, hk⟩ : ∃ kind, (c.node m).kind = .history kind := by
    cases hk : (c.node m).kind <;> simp [Node.isHistory, hk] at hh
    exact ⟨_, rfl⟩
  obtain ⟨t, -, hne, hcov⟩ := hc.default hk hp
  obtain ⟨x, xs, e⟩ := List.exists_cons_of_ne_nil hne
  have hx := hcov x (by simp [e])
  unfold NodeTable.historyCovers at hx
  rw [Bool.and_eq_true, Bool.not_eq_true'] at hx
  have hd : c.descends x a = true := by
    cases kind with
    | shallow => exact hc.descends_parent (by simpa [Chart.node] using hx.1)
    | deep => exact hx.1
  refine Bool.eq_false_iff.2 fun hatom => ?_
  exact hc.ne_of_descends hd (hc.eq_of_within_atomic (.inr hd) hatom hx.2)

/-- A history belongs to a compound or a parallel state. -/
theorem compound_of_history (hh : (c.node m).isHistory = true) (hp : (c.node m).parent = some a)
    (ha : (c.node a).isParallel = false) : (c.node a).isCompound = true := by
  obtain ⟨-, hkind⟩ := hc.compound_or_parallel (hc.parent_state hp) (hc.not_atomic_of_history hh hp)
  exact hkind.resolve_right fun h => by simp [h] at ha

/-- What is apart from a history of a compound state is apart from the state. -/
theorem apart_area (ha : c.Apart x y) (hx : (c.node x).isHistory = true → ∀ p,
    (c.node x).parent = some p → (c.node p).isParallel = false) : c.Apart (c.area x) y := by
  cases hh : (c.node x).isHistory with
  | false => rwa [area_of_state hh]
  | true =>
    obtain ⟨p, hp⟩ := Option.isSome_iff_exists.1 ((hc.shaped x).top hh)
    have hcomp := hc.compound_of_history hh hp (hx hh p hp)
    rw [area_of_history hh hp]
    refine ⟨?_, ?_, fun hr hm hn => ?_⟩
    · intro hw
      exact ha.left (hc.within_trans (.inr (hc.descends_parent hp)) hw)
    · intro hw
      rcases hw with rfl | hd
      · exact ha.left (.inr (hc.descends_parent hp))
      · -- some child of the state is a rival of the history
        obtain ⟨k, hk, hw⟩ := hc.exists_child hd
        have hr : c.Rivals x k := ⟨hp.trans hk.symm, fun q hq => by
          rw [hp] at hq
          cases hq
          exact hcomp⟩
        exact ha.right (ha.rivals hr (.refl x) hw ▸ hw)
    · exact ha.rivals hr (hc.within_trans (.inr (hc.descends_parent hp)) hm) hn

/-- A target lies in its area, and the area of one below a compound state within that. -/
theorem area_within (hd : c.descends x d = true) : c.Within (c.area x) d := by
  cases hh : (c.node x).isHistory with
  | false =>
    rw [area_of_state hh]
    exact .inr hd
  | true =>
    obtain ⟨p, hp⟩ := Option.isSome_iff_exists.1 ((hc.shaped x).top hh)
    rw [area_of_history hh hp]
    exact (hc.descends_iff_within hp).1 hd

/-- The areas of two targets of one transition are apart, unless one is a history of a parallel state. -/
theorem apart_areas_of_transition (ha : c.Unmixed t) (hx : x ∈ (c.transition t).targets)
    (hy : y ∈ (c.transition t).targets) (hne : x ≠ y) : c.Apart (c.area x) (c.area y) := by
  have hlen : 2 ≤ (c.transition t).targets.length := by
    refine Decidable.byContradiction fun hlt => hne ?_
    match hts : (c.transition t).targets, hlt with
    | [], _ => simp [hts] at hx
    | [z], _ => rw [hts, List.mem_singleton] at hx hy; exact hx.trans hy.symm
    | _ :: _ :: _, hlt => simp at hlt
  have hxy : c.Apart x y := (hc.apart_targets t).forall hx hy hne
  exact (hc.apart_area (hc.apart_area hxy (ha hlen x hx)).symm (ha hlen y hy)).symm

end WellFormed
end Chart

/-- Without repeats no element stands twice. -/
theorem nodup_eraseDups : ∀ (k : Nat) (ns : List NodeId), ns.length ≤ k → ns.eraseDups.Nodup
  | _, [], _ => List.nodup_nil
  | k + 1, n :: ns, hk => by
    rw [List.eraseDups_cons]
    refine List.nodup_cons.2 ⟨?_, nodup_eraseDups k _ ?_⟩
    · intro hm
      rw [List.mem_eraseDups, List.mem_filter] at hm
      simp at hm
    · exact Nat.le_trans (List.length_filter_le _ _) (Nat.le_of_succ_le_succ hk)

theorem EntryPlan.nodup_targetsOf : (targetsOf c ts).Nodup := by
  have hd := nodup_eraseDups _ (ts.flatMap fun t => (c.transition t).targets) (Nat.le_refl _)
  refine List.nodup_append.2 ⟨hd.filter _, hd.filter _, ?_⟩
  intro m hm n hn e
  have hm := (List.mem_filter.1 hm).2
  have hn := (List.mem_filter.1 hn).2
  rw [e, hn] at hm
  cases hm

namespace Chosen

variable (hc : c.WellFormed) (h : Chosen c (c.closure L) ts)
  (hL : ∀ l ∈ L, (c.node l).isAtomic = true) (hA : c.Tidy (c.closure L))

include hc h hL

/-- A transition of a state with targets leaves something. -/
theorem exists_led (ht : t ∈ ts) (hne : (c.transition t).targets ≠ [])
    (hs : (c.transition t).source ≠ none) : ∃ n ∈ c.closure L, c.Leads t n := by
  cases hd : (c.transition t).domain with
  | none =>
    obtain ⟨s, hs⟩ := Option.ne_none_iff_exists'.1 hs
    exact ⟨s, h.source t ht s hs, hne, by simp [hd]⟩
  | some d =>
    obtain ⟨l, hl, hld⟩ := h.exists_left hc hL ht hd
    exact ⟨l, mem_closure_of_mem hl, hne, fun d' hd' => by rw [hd] at hd'; cases hd'; exact hld⟩

/-- A transition that is taken beside another has a domain, and the domain of the other does not lie
    within it, for then something would be left by both. -/
theorem exists_domain (ht : t ∈ ts) (hu : u ∈ ts) (hne : t ≠ u)
    (htn : (c.transition t).targets ≠ []) (hun : (c.transition u).targets ≠ []) :
    ∃ d, (c.transition t).domain = some d ∧
      ∀ e, (c.transition u).domain = some e → ¬c.Within e d := by
  have hs : (c.transition u).source ≠ none := fun hs => by
    rw [h.alone u hu hs, List.mem_singleton] at ht
    exact hne ht
  obtain ⟨n, hn, hlu⟩ := h.exists_led hc hL hu hun hs
  cases hd : (c.transition t).domain with
  | none => exact absurd (h.eq_of_leads ht hu hn ⟨htn, by simp [hd]⟩ hlu) hne
  | some d =>
    refine ⟨d, rfl, fun e he hw => hne (h.eq_of_leads ht hu hn ⟨htn, ?_⟩ hlu)⟩
    intro d' hd'
    rw [hd] at hd'
    cases hd'
    exact hc.descends_of_descends_within (hlu.2 e he) hw

/-- Different transitions that are taken together do not lead to the same node. -/
theorem not_leads_both (ht : t ∈ ts) (hu : u ∈ ts) (hne : t ≠ u) (hlt : c.Leads t n) :
    ¬c.Leads u n := by
  intro hlu
  obtain ⟨d, hd, hed⟩ := h.exists_domain hc hL ht hu hne hlt.1 hlu.1
  obtain ⟨e, he, hde⟩ := h.exists_domain hc hL hu ht hne.symm hlu.1 hlt.1
  exact (hc.comparable (.inr (hlt.2 d hd)) (.inr (hlu.2 e he))).elim (hde d hd) (hed e he)

include hA

/-- The targets of different transitions are entered in areas that are apart, since the domains are. -/
theorem apart_areas (ht : t ∈ ts) (hu : u ∈ ts) (hne : t ≠ u) (hx : x ∈ (c.transition t).targets)
    (hy : y ∈ (c.transition u).targets) : c.Apart (c.area x) (c.area y) := by
  have htn := List.ne_nil_of_mem hx
  have hun := List.ne_nil_of_mem hy
  obtain ⟨d, hd, hed⟩ := h.exists_domain hc hL ht hu hne htn hun
  obtain ⟨e, he, hde⟩ := h.exists_domain hc hL hu ht hne.symm hun htn
  have hap : c.Apart d e := hA.apart (h.domain_mem hc ht hd) (h.domain_mem hc hu he)
    (hde d hd) (hed e he)
  exact hc.apart_within hap (hc.area_within ((hc.of_domain hd).2.2 x hx))
    (hc.area_within ((hc.of_domain he).2.2 y hy))

/-- The areas of all targets of a step are apart. -/
theorem pairwise_areas (ha : c.HistoriesAlone) :
    (EntryPlan.targetsOf c ts).Pairwise fun x y => c.Apart (c.area x) (c.area y) := by
  refine EntryPlan.nodup_targetsOf.imp_of_mem fun {x y} hx hy hne => ?_
  obtain ⟨t, ht, hx⟩ := EntryPlan.mem_targetsOf.1 hx
  obtain ⟨u, hu, hy⟩ := EntryPlan.mem_targetsOf.1 hy
  by_cases e : t = u
  · subst e
    exact hc.apart_areas_of_transition (ha t) hx hy hne
  · exact h.apart_areas hc hL hA ht hu e hx hy

end Chosen

namespace Moved

variable (hc : c.WellFormed) (h : Moved c L L' ts p) (hA : Regular c (c.closure L))
  (hp : c.Tidy p.entry)

include hc h hA

/-- What stays active has rivals neither among what stays nor among what is entered. -/
theorem eq_of_rivals (hr : c.Rivals m n)
    (hm : ∃ x ∈ c.closure L, (∀ t ∈ ts, ¬c.Leads t x) ∧ c.Within x m)
    (hn : ∃ y ∈ p.entry, c.Within y n) : m = n := by
  obtain ⟨x, hx, hstay, hxm⟩ := hm
  obtain ⟨y, hy, hyn⟩ := hn
  obtain ⟨t, ht, hlead⟩ := h.planned.led y hy
  have hmA := hc.mem_closure_up hx hxm
  have hmstay : ¬c.Leads t m := fun hl => hstay t ht (hc.leads_of_within hl hxm)
  have done (hnA : n ∈ c.closure L) : m = n := hA.tidy hr (.of_mem hmA) (.of_mem hnA)
  cases hd : (c.transition t).domain with
  | none => exact absurd ⟨hlead.1, by simp [hd]⟩ hmstay
  | some d =>
    have hdA := h.chosen.domain_mem hc ht hd
    rcases hc.comparable hyn (.inr (hlead.2 d hd)) with (rfl | hnd) | hdn
    · exact done hdA
    · -- the rivals have a parent within the domain, so what is active of them is left
      obtain ⟨q, hq, hw⟩ := hc.descends_iff_parent.1 hnd
      refine absurd ⟨hlead.1, ?_⟩ hmstay
      intro d' hd'
      rw [hd] at hd'
      cases hd'
      exact hc.descends_iff_parent.2 ⟨q, hr.1.trans hq, hw⟩
    · exact done (hc.mem_closure_up hdA hdn)

include hp

/-- A step whose plan enters no two rivals leaves none active. -/
theorem tidy_after : c.Tidy (c.closure L') := by
  have split {n : NodeId} (hn : c.Covers (c.closure L') n) :
      (∃ x ∈ c.closure L, (∀ t ∈ ts, ¬c.Leads t x) ∧ c.Within x n) ∨ c.Covers p.entry n := by
    obtain ⟨x, hx, hw⟩ := hn
    rcases (h.mem_closure_iff hc).1 hx with ⟨hx, hstay⟩ | hx
    · exact .inl ⟨x, hx, hstay, hw⟩
    · exact .inr ⟨x, hx, hw⟩
  intro m n hr hm hn
  rcases split hm with hm | hm <;> rcases split hn with hn | hn
  · obtain ⟨x, hx, -, hxm⟩ := hm
    obtain ⟨y, hy, -, hyn⟩ := hn
    exact hA.tidy hr ⟨x, hx, hxm⟩ ⟨y, hy, hyn⟩
  · exact h.eq_of_rivals hc hA hr hm hn
  · have hr' : c.Rivals n m := ⟨hr.1.symm, fun p hp => hr.2 p (hr.1.trans hp)⟩
    exact (h.eq_of_rivals hc hA hr' hn hm).symm
  · exact hp hr hm hn

omit hA hp

/-- What stays active keeps its share of children: one that is left is the way to a domain, and below
    that something is entered. -/
theorem complete_of_stays (hA : ∀ n ∈ c.closure L, c.Complete (c.closure L) n)
    (hn : n ∈ c.closure L) (hstay : ∀ t ∈ ts, ¬c.Leads t n) : c.Complete (c.closure L') n := by
  have hmono : ∀ y ∈ p.entry, y ∈ c.closure L' := fun y hy => (h.mem_closure_iff hc).2 (.inr hy)
  -- a covered child stays covered, unless the state itself is a domain
  have child {m : NodeId} (hm : m ∈ (c.node n).children) (hcov : c.Covers (c.closure L) m) :
      c.Covers (c.closure L') m ∨
        ∃ t ∈ ts, (c.transition t).targets ≠ [] ∧ (c.transition t).domain = some n := by
    obtain ⟨x, hx, hw⟩ := hcov
    by_cases hleft : ∃ t ∈ ts, c.Leads t m
    · obtain ⟨t, ht, hlead⟩ := hleft
      refine .inr ⟨t, ht, hlead.1, ?_⟩
      cases hd : (c.transition t).domain with
      | none => exact absurd ⟨hlead.1, by simp [hd]⟩ (hstay t ht)
      | some d =>
        have hw := (hc.descends_iff_within (hc.mem_children.1 hm).1).1 (hlead.2 d hd)
        refine congrArg some (hw.resolve_right ?_).symm
        intro hnd
        exact hstay t ht ⟨hlead.1, fun d' hd' => by rw [hd] at hd'; cases hd'; exact hnd⟩
    · refine .inl (.of_mem ((h.mem_closure_iff hc).2 (.inl ⟨hc.mem_closure_up hx hw, ?_⟩)))
      exact fun t ht hlead => hleft ⟨t, ht, hlead⟩
  have hn' := hA n hn
  refine ⟨hn'.lt, hn'.state, ?_, ?_⟩
  · intro hcomp
    obtain ⟨m, hm, hcov⟩ := hn'.compound hcomp
    rcases child hm hcov with hcov | ⟨t, ht, hne, hd⟩
    · exact ⟨m, hm, hcov⟩
    · obtain ⟨y, hy, hlead⟩ := h.planned.reached t ht hne
      have hys := (h.planned.complete y hy).state
      obtain ⟨k, hk, hw⟩ := hc.exists_state_child (hlead.2 n hd) hys
      exact ⟨k, hk, y, hmono y hy, hw⟩
  · intro hpar m hm
    rcases child hm (hn'.parallel hpar m hm) with hcov | ⟨t, ht, hne, hd⟩
    · exact hcov
    · have := (hc.of_domain hd).1
      rw [WellFormed.not_compound_of_parallel hpar] at this
      cases this

/-- A step keeps what is active complete, whatever its plan enters. -/
theorem complete_after (hA : ∀ n ∈ c.closure L, c.Complete (c.closure L) n) :
    ∀ n ∈ c.closure L', c.Complete (c.closure L') n := by
  intro n hn
  rcases (h.mem_closure_iff hc).1 hn with ⟨hn, hstay⟩ | hn
  · exact h.complete_of_stays hc hA hn hstay
  · exact (h.planned.complete n hn).mono fun y hy => (h.mem_closure_iff hc).2 (.inr hy)

include hA hp

/-- A step whose plan enters no two rivals keeps a configuration regular. -/
theorem regular_after : Regular c (c.closure L') where
  tidy := h.tidy_after hc hA hp
  complete := h.complete_after hc hA.complete

end Moved
end Statechart
