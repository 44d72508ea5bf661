import Statechart.Proofs.Legal

/-! A final state at the top is entered alone.

    Entering stays within the trees of its targets, so a node at the top is entered only for the sake of
    a target within its tree. A final state at the top is a tree by itself: it is entered only if it is a
    target, then it is the only one, its transition leaves everything, and no other transition that
    leads anywhere is taken beside it. This holds on every chart, also where steps can fork. -/

namespace Statechart

open Chart

namespace Chart

variable {c : Chart} {P : NodeId → Prop} {f m a b : NodeId}

/-- Whether a property belongs to whole trees: nodes have it if their parents do, and the other way
    round. -/
def OfTrees (c : Chart) (P : NodeId → Prop) : Prop :=
  ∀ {m p : NodeId}, (c.node m).parent = some p → (P m ↔ P p)

namespace WellFormed

variable (hc : c.WellFormed)

include hc

theorem OfTrees.descends (hP : c.OfTrees P) (h : c.descends a b = true) : P a ↔ P b := by
  induction a using Nat.strongRecOn with
  | ind a ih =>
    obtain ⟨p, hp, rfl | hd⟩ := hc.descends_iff_parent.1 h
    · exact hP hp
    · exact (hP hp).trans (ih p (hc.parent_lt hp) hd)

/-- Nothing has a final state as its parent. -/
theorem not_parent_of_final (hf : (c.node f).isFinal = true) : (c.node m).parent ≠ some f := by
  intro hp
  have hnone : (c.node f).children = [] := ((hc.shaped f).final hf).1
  obtain ⟨x, hd, hs⟩ : ∃ x, c.descends x f = true ∧ (c.node x).isHistory = false := by
    cases hh : (c.node m).isHistory with
    | false => exact ⟨m, hc.descends_parent hp, hh⟩
    | true =>
      obtain ⟨t, -, hne, hbelow⟩ := hc.default_below hh hp
      obtain ⟨x, xs, e⟩ := List.exists_cons_of_ne_nil hne
      obtain ⟨hs, hd⟩ := hbelow x (by simp [e])
      exact ⟨x, hd, hs⟩
  obtain ⟨k, hk, -⟩ := hc.exists_state_child hd hs
  rw [hnone] at hk
  cases hk

/-- A final state at the top is a tree by itself. -/
theorem ofTrees_eq (hf : (c.node f).isTopLevelFinal = true) : c.OfTrees (· = f) := by
  intro m p hp
  obtain ⟨-, htop⟩ := atomic_of_topLevelFinal hf
  rw [Node.isTopLevelFinal, Bool.and_eq_true] at hf
  constructor <;> rintro rfl
  · rw [htop] at hp
    cases hp
  · exact absurd hp (hc.not_parent_of_final hf.1)

theorem ofTrees_ne (hf : (c.node f).isTopLevelFinal = true) : c.OfTrees (· ≠ f) :=
  fun hp => not_congr (ofTrees_eq hc hf hp)

end WellFormed
end Chart

namespace EntryPlan

variable {c : Chart} {store : Store} {P : NodeId → Prop} {p q : EntryPlan} {n : NodeId}
  {enter : NodeId → EntryPlan → Option EntryPlan} {ts : List TransitionId}

/-- Whether the states of a plan are in increasing order and have a property. -/
structure Drawn (P : NodeId → Prop) (p : EntryPlan) : Prop where
  sorted : p.entry.Pairwise (· < ·)
  has : ∀ m ∈ p.entry, P m

theorem Drawn.add (h : Drawn P p) (hn : P n) : Drawn P (p.add n) where
  sorted := NodeSet.pairwise_insert h.sorted
  has m hm := (mem_entry_add.1 hm).elim (fun e => e ▸ hn) (h.has m)

theorem Drawn.congr (h : Drawn P p) (he : q.entry = p.entry) : Drawn P q :=
  ⟨he ▸ h.sorted, he ▸ h.has⟩

/-- What every step keeps is kept by all of them. -/
theorem Drawn.foldlM {α : Type} {f : EntryPlan → α → Option EntryPlan} {as : List α}
    (hf : ∀ a ∈ as, ∀ p q, Drawn P p → f p a = some q → Drawn P q) (h : Drawn P p)
    (hq : as.foldlM f p = some q) : Drawn P q :=
  foldlM_rel (R := fun p q => Drawn P p → Drawn P q) (I := Drawn P) (fun _ h => h)
    (fun h h' hp => h' (h hp)) (fun hp h => h hp) as h (fun a ha p q hp hq _ => hf a ha p q hp hq) hq h

/-- Whether a function enters, for a state with a property, only states that have it. -/
def Draws (P : NodeId → Prop) (enter : NodeId → EntryPlan → Option EntryPlan) : Prop :=
  ∀ n p q, P n → Drawn P p → enter n p = some q → Drawn P q

/-- Whether what a history stands for by its record has a property if the state whose history it is
    does. -/
def Trusted (c : Chart) (P : NodeId → Prop) (store : Store) : Prop :=
  ∀ {h owner : NodeId} {R : NodeSet}, (c.node h).parent = some owner → P owner →
    store.remembered? h = some R → ∀ x ∈ R, P x

variable (hc : c.WellFormed) (hP : c.OfTrees P) (henter : Draws P enter)

include hc hP henter

theorem drawn_fillRegions (hn : P n) (h : Drawn P p) (hq : fillRegions c enter n p = some q) :
    Drawn P q := by
  refine Drawn.foldlM (fun m hm p q h hq => ?_) h hq
  split at hq
  · cases hq
    exact h
  · exact henter m p q ((hP (hc.mem_children.1 hm).1).2 hn) h hq

theorem drawn_climbTo {boundary : Option NodeId} (hn : P n) (h : Drawn P p)
    (hq : climbTo c enter boundary p n = some q) : Drawn P q := by
  refine Drawn.foldlM (fun a ha p q h hq => ?_) h hq
  have ha : P a :=
    (WellFormed.OfTrees.descends hc hP (descends_iff.2 ((List.takeWhile_sublist _).mem ha))).1 hn
  unfold enterAbove at hq
  split at hq
  · exact drawn_fillRegions hc hP henter ha (h.add ha) hq
  · cases hq
    exact h.add ha

theorem drawn_enterTargets {b : NodeId} {xs : List NodeId} (hxs : ∀ x ∈ xs, P x) (h : Drawn P p)
    (hq : enterTargets c enter b xs p = some q) : Drawn P q := by
  obtain ⟨r, hr, hq⟩ := Option.bind_eq_some_iff.1 hq
  have hr := Drawn.foldlM (fun x hx p q h hq => henter x p q (hxs x hx) h hq) h hr
  exact Drawn.foldlM (fun x hx p q h hq => drawn_climbTo hc hP henter (hxs x hx) h hq) hr hq

omit henter

/-- What the histories of a store stand for lies below the states whose histories they are. -/
theorem trusted_of_recalls (hs : store.Recalls c) : Trusted c P store := fun ho hp hR x hx =>
  (WellFormed.OfTrees.descends hc hP
    ((hs _ _ (Store.recorded?_of_remembered? hR).1 x hx).2 _ ho)).2 hp

variable (hs : Trusted c P store)

include hs

theorem has_historyTargets {owner : NodeId} (hh : (c.node n).isHistory = true)
    (ho : (c.node n).parent = some owner) (hn : P owner) (p : EntryPlan) :
    ∃ xs q, historyTargets c store n owner p = (xs, q) ∧ q.entry = p.entry ∧ ∀ x ∈ xs, P x := by
  unfold historyTargets
  cases hR : store.remembered? n with
  | some R => exact ⟨R, p, rfl, rfl, hs ho hn hR⟩
  | none =>
    obtain ⟨t, ht, -, hbelow⟩ := hc.default_below hh ho
    rw [ht]
    exact ⟨_, _, rfl, rfl, fun x hx => (WellFormed.OfTrees.descends hc hP (hbelow x hx).2).2 hn⟩

/-- Entering stays within the trees of what is entered. The induction is on the fuel. -/
theorem draws_enter : ∀ fuel, Draws P (EntryPlan.enter c store fuel)
  | 0, _, _, _, _, _, hq => by cases hq
  | fuel + 1, n, p, q, hn, h, hq => by
    have henter := draws_enter fuel
    cases hh : (c.node n).isHistory with
    | true =>
      obtain ⟨owner, ho⟩ := Option.isSome_iff_exists.1 ((hc.shaped n).top hh)
      obtain ⟨xs, r, hxs, hr, hhas⟩ := has_historyTargets hc hP hs hh ho ((hP ho).1 hn) p
      rw [enter_history hh ho, hxs] at hq
      exact drawn_enterTargets hc hP henter hhas (h.congr hr) hq
    | false =>
      cases stateEntry_of_enter hc hh hq with
      | parallel _ _ hq => exact drawn_fillRegions hc hP henter hn (h.add hn) hq
      | compound _ _ hts hq =>
        have hself : Drawn P { p.add n with defaultEntry := NodeSet.insert n p.defaultEntry } :=
          (h.add hn).congr rfl
        refine drawn_enterTargets hc hP henter (fun x hx => ?_) hself hq
        exact (WellFormed.OfTrees.descends hc hP (hts x hx).2).2 hn
      | leaf _ _ hq => exact hq ▸ h.add hn

/-- A step enters states of the trees of its targets, each once. -/
theorem drawn_ofTransitions (hts : ∀ t ∈ ts, ∀ x ∈ (c.transition t).targets, P x)
    (hp : ofTransitions c store ts = some p) : Drawn P p := by
  have henter := draws_enter hc hP hs (depthBound c)
  obtain ⟨q, hq, hp⟩ := Option.bind_eq_some_iff.1 hp
  have hempty : Drawn P empty := ⟨.nil, fun _ hm => by cases hm⟩
  have hq : Drawn P q := by
    refine Drawn.foldlM (fun x hx p q h hq => ?_) hempty hq
    obtain ⟨t, ht, hx⟩ := mem_targetsOf.1 hx
    exact henter x p q (hts t ht x hx) h hq
  refine Drawn.foldlM (fun t ht p q h hq => ?_) hq hp
  exact Drawn.foldlM (fun x hx p q h hq => drawn_climbTo hc hP henter (hts t ht x hx) h hq) h hq

omit hP hs in
/-- Whatever the targets are, a step enters states in increasing order. -/
theorem pairwise_ofTransitions (hp : ofTransitions c store ts = some p) : p.entry.Pairwise (· < ·) :=
  (drawn_ofTransitions (P := fun _ => True) hc (fun _ => Iff.rfl) (fun _ _ _ _ _ => trivial)
    (fun _ _ _ _ => trivial) hp).sorted

end EntryPlan

variable {c : Chart} {L L' : NodeSet} {store : Store} {ts : List TransitionId} {p : EntryPlan}
  {f x : NodeId} {t u : TransitionId} (hc : c.WellFormed)

include hc

/-- A final state at the top that is a target is the only one, and its transition leaves everything. -/
theorem Chart.WellFormed.targets_final (hf : (c.node f).isTopLevelFinal = true)
    (h : f ∈ (c.transition t).targets) : (c.transition t).targets = [f] ∧ ∀ n, c.Leads t n := by
  obtain ⟨-, htop⟩ := WellFormed.atomic_of_topLevelFinal hf
  have hleads (n : NodeId) : c.Leads t n := by
    refine ⟨List.ne_nil_of_mem h, fun d hd => ?_⟩
    exact (hc.not_descends_of_top htop ((hc.of_domain hd).2.2 f h)).elim
  have hall : ∀ x ∈ (c.transition t).targets, x = f := by
    intro x hx
    obtain ⟨r, hw, hr⟩ := hc.exists_top x
    have hrivals : c.Rivals r f := ⟨hr.trans htop.symm, fun p hp => by rw [hr] at hp; cases hp⟩
    by_contra hne
    have hapart := (hc.apart_targets t).forall hx h hne
    exact hapart.left (hapart.rivals hrivals hw (.refl f) ▸ hw)
  exact ⟨NodeSet.eq_singleton (hc.targets_nodup t) h hall, hleads⟩

/-- A step that enters a final state at the top enters nothing else and leaves everything. -/
theorem Chosen.alone_of_final (hch : Chosen c (c.closure L) ts)
    (hL : ∀ l ∈ L, (c.node l).isAtomic = true) (hs : store.Recalls c)
    (hp : EntryPlan.ofTransitions c store ts = some p) (hf : (c.node f).isTopLevelFinal = true)
    (hfp : f ∈ p.entry) : p.entry = [f] ∧ ∃ t ∈ ts, ∀ n, c.Leads t n := by
  obtain ⟨t, ht, hft⟩ : ∃ t ∈ ts, f ∈ (c.transition t).targets := by
    refine Classical.byContradiction fun hno => ?_
    have htree : c.OfTrees (· ≠ f) := WellFormed.ofTrees_ne hc hf
    have hdrawn := EntryPlan.drawn_ofTransitions hc htree (EntryPlan.trusted_of_recalls hc htree hs)
      (fun t ht x hx e => hno ⟨t, ht, e ▸ hx⟩) hp
    exact hdrawn.has f hfp rfl
  obtain ⟨htargets, hleads⟩ := hc.targets_final hf hft
  have hall : ∀ u ∈ ts, ∀ x ∈ (c.transition u).targets, x = f := by
    intro u hu x hx
    have hux := hc.leads_of_target hx
    -- what the other transition leaves is left by this one too, so they are the same
    have e : t = u := by
      cases hd : (c.transition u).domain with
      | some d =>
        obtain ⟨l, hl, hld⟩ := hch.exists_left hc hL hu hd
        refine hch.eq_of_leads ht hu (mem_closure_of_mem hl) (hleads l) ⟨hux.1, fun d' hd' => ?_⟩
        rw [hd] at hd'
        cases hd'
        exact hld
      | none =>
        cases hsrc : (c.transition u).source with
        | none =>
          have := hch.alone u hu hsrc
          rw [this, List.mem_singleton] at ht
          exact ht
        | some a =>
          exact hch.eq_of_leads ht hu (hch.source u hu a hsrc) (hleads a)
            ⟨hux.1, fun d hd' => by rw [hd] at hd'; cases hd'⟩
    subst e
    rwa [htargets, List.mem_singleton] at hx
  have htree : c.OfTrees (· = f) := WellFormed.ofTrees_eq hc hf
  have hdrawn := EntryPlan.drawn_ofTransitions hc htree (EntryPlan.trusted_of_recalls hc htree hs) hall hp
  exact ⟨NodeSet.eq_singleton (NodeSet.nodup_of_pairwise hdrawn.sorted) hfp hdrawn.has, t, ht, hleads⟩

/-- So the machine stops with that state alone. -/
theorem Moved.finished (h : Moved c L L' ts p) (hs : store.Recalls c)
    (hp : EntryPlan.ofTransitions c store ts = some p) (hsorted : L'.Pairwise (· < ·))
    (hf : (c.node f).isTopLevelFinal = true) (hfp : f ∈ p.entry) : L' = [f] := by
  obtain ⟨hentry, t, ht, hleads⟩ := h.chosen.alone_of_final hc h.leaf hs hp hf hfp
  have hmem : ∀ l, l ∈ L' ↔ l = f := by
    intro l
    rw [h.mem_iff, hentry, List.mem_singleton]
    constructor
    · rintro (⟨-, hstay⟩ | ⟨hl, -⟩)
      · exact absurd (hleads l) (hstay t ht)
      · exact hl
    · rintro rfl
      exact .inr ⟨rfl, (WellFormed.atomic_of_topLevelFinal hf).1⟩
  exact NodeSet.eq_singleton (NodeSet.nodup_of_pairwise hsorted) ((hmem f).2 rfl) fun l => (hmem l).1

end Statechart
