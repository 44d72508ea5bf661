import Statechart.Proofs.Chronicle
import Statechart.Proofs.DefaultEntry

/-! Histories bring back what was active.

    A step that enters a state through one of its histories alone makes active below it what the history
    recorded: a deep one its leaves and what lies above them, a shallow one its children with what they
    are entered with by default. For while the plan of the step is made, nothing else enters anything
    below the state: not the other transitions, whose domains lie elsewhere, nor the way up from the
    history to the domain, since all regions of the state are there by then. -/

namespace Statechart

open Chart Session

variable {c : Chart} {store : Store} {L : NodeSet} {a d h i k m n x S : NodeId} {t u : TransitionId}
  {ts : List TransitionId} {R X : NodeSet} {kind : HistoryKind}

/-- Whether a target leads to nothing below a state. -/
def Chart.Elsewhere (c : Chart) (S x : NodeId) : Prop :=
  x < c.nodes.size ∧
    ∀ m, (∀ d, c.descends x d = true → c.descends m d = true) → c.descends m S = false

namespace EntryPlan

variable {enter : NodeId → EntryPlan → Option EntryPlan} {p q r : EntryPlan}
  (hc : c.WellFormed) (he : ∀ m, (c.node m).isHistory = false → Precise c enter m)

include hc he

/-- What climbing by the states of a list enters lies within them. -/
theorem within_of_climb : ∀ (as : List NodeId) (p q : EntryPlan),
    as.foldlM (enterAbove c enter) p = some q → (∀ n ∈ p.entry, n ∈ q.entry) ∧
      ∀ n ∈ q.entry, n ∈ p.entry ∨ ∃ a ∈ as, c.Within n a
  | [], p, q, hq => by
    cases hq
    exact ⟨fun _ h => h, fun n h => .inl h⟩
  | a :: as, p, q, hq => by
    rw [List.foldlM_cons] at hq
    obtain ⟨r, hr, hq⟩ := Option.bind_eq_some_iff.1 hq
    obtain ⟨hmono, hnew⟩ := within_of_climb as r q hq
    have hmem (n : NodeId) := mem_enterAbove (n := n) hc he hr
    refine ⟨fun n hn => hmono n ((hmem n).2 (.inr (.inl hn))), fun n hn => ?_⟩
    rcases hnew n hn with hn | ⟨b, hb, hw⟩
    · rcases (hmem n).1 hn with rfl | hn | ⟨-, k, hk, -, hd⟩
      · exact .inr ⟨n, by simp, .refl n⟩
      · exact .inl hn
      · refine .inr ⟨a, by simp, hc.within_trans (hc.within_of_byDefault hd) ?_⟩
        exact .inr (hc.descends_parent (hc.mem_children.1 hk).1)
    · exact .inr ⟨b, List.mem_cons_of_mem _ hb, hw⟩

/-- Climbing from a target to the domain of its transition stays inside the domain. -/
theorem leads_of_climbTo (hx : x ∈ (c.transition t).targets)
    (hq : climbTo c enter (c.transition t).domain p x = some q) :
    (∀ n ∈ p.entry, n ∈ q.entry) ∧ ∀ n ∈ q.entry, n ∈ p.entry ∨ c.Leads t n := by
  obtain ⟨hmono, hnew⟩ := within_of_climb hc he _ p q hq
  refine ⟨hmono, fun n hn => (hnew n hn).imp_right ?_⟩
  rintro ⟨a, ha, hw⟩
  refine hc.leads_of_within ⟨List.ne_nil_of_mem hx, fun d hd => ?_⟩ hw
  rw [hd, hc.mem_takeWhile_ancestors ((hc.leads_of_target hx).2 d hd)] at ha
  exact ha.2

/-- So does climbing from all its targets. -/
theorem leads_of_climbs {xs : List NodeId} (hxs : ∀ x ∈ xs, x ∈ (c.transition t).targets)
    (hq : xs.foldlM (climbTo c enter (c.transition t).domain) p = some q) :
    (∀ n ∈ p.entry, n ∈ q.entry) ∧ ∀ n ∈ q.entry, n ∈ p.entry ∨ c.Leads t n := by
  refine foldlM_rel (R := fun p q => (∀ n ∈ p.entry, n ∈ q.entry) ∧
      ∀ n ∈ q.entry, n ∈ p.entry ∨ c.Leads t n) (I := fun _ => True)
    (fun _ => ⟨fun _ h => h, fun _ h => .inl h⟩) (fun h h' => ⟨?_, ?_⟩) (fun _ _ => trivial) xs trivial
    (fun x hx p q _ hq => leads_of_climbTo hc he (hxs x hx) hq) hq
  · exact fun n hn => h'.1 n (h.1 n hn)
  · exact fun n hn => (h'.2 n hn).elim (h.2 n) .inr

/-- Whether something is entered below a state, and in all its regions if it is parallel. -/
structure Furnished (c : Chart) (S : NodeId) (p : EntryPlan) : Prop where
  below : ∃ y ∈ p.entry, c.descends y S = true
  regions : (c.node S).isParallel = true → ∀ k ∈ (c.node S).children, c.Covers p.entry k

omit hc he in
theorem Furnished.mono (h : Furnished c S p) (hp : ∀ n ∈ p.entry, n ∈ q.entry) : Furnished c S q where
  below := by
    obtain ⟨y, hy, hd⟩ := h.below
    exact ⟨y, hp y hy, hd⟩
  regions hpar k hk := (h.regions hpar k hk).mono hp

/-- Climbing past a state below which all is there enters nothing below it. -/
theorem mem_of_climb : ∀ (as : List NodeId) (p q : EntryPlan), (∀ a ∈ as, c.Within S a) →
    Furnished c S p → as.foldlM (enterAbove c enter) p = some q →
    ∀ n ∈ q.entry, c.descends n S = true → n ∈ p.entry
  | [], p, q, _, _, hq => by
    cases hq
    exact fun _ h _ => h
  | a :: as, p, q, has, hf, hq => by
    rw [List.foldlM_cons] at hq
    obtain ⟨r, hr, hq⟩ := Option.bind_eq_some_iff.1 hq
    have hmem (n : NodeId) := mem_enterAbove (n := n) hc he hr
    have hmono : ∀ n ∈ p.entry, n ∈ r.entry := fun n hn => (hmem n).2 (.inr (.inl hn))
    intro n hn hnS
    have hn := mem_of_climb as r q (fun b hb => has b (List.mem_cons_of_mem _ hb)) (hf.mono hmono) hq
      n hn hnS
    rcases (hmem n).1 hn with rfl | hn | ⟨hpar, k, hk, hcov, hd⟩
    · exact (hc.not_within_of_descends hnS (has n (by simp))).elim
    · exact hn
    · rcases has a (by simp) with rfl | hSa
      · exact (hcov (hf.regions hpar k hk)).elim
      · have hka := (hc.mem_children.1 hk).1
        rcases hc.comparable (.inr hnS) (hc.within_of_byDefault hd) with hSk | hkS
        · obtain ⟨y, hy, hyS⟩ := hf.below
          exact (hcov ⟨y, hy, hc.within_trans (.inr hyS) hSk⟩).elim
        · -- the parallel state would lie within the state that it contains
          by_cases e : k = S
          · obtain ⟨y, hy, hyS⟩ := hf.below
            exact (hcov ⟨y, hy, e ▸ .inr hyS⟩).elim
          · exact (hc.not_within_of_descends hSa (hc.parent_within hkS e hka)).elim

/-- Climbing to the domains of transitions enters nothing below a state that is furnished, if each of them
    has one history of the state as its target or leads to nothing below the state. -/
theorem mem_of_climbs (hS : (c.node h).parent = some S) : ∀ (us : List TransitionId) (p q : EntryPlan),
    (∀ u ∈ us, (c.transition u).targets = [h] ∨ ∀ m, c.Leads u m → c.descends m S = false) →
    Furnished c S p →
    us.foldlM (fun p u => (c.transition u).targets.foldlM
      (climbTo c enter (c.transition u).domain) p) p = some q →
    (∀ n ∈ p.entry, n ∈ q.entry) ∧ ∀ n ∈ q.entry, c.descends n S = true → n ∈ p.entry
  | [], p, q, _, _, hq => by
    cases hq
    exact ⟨fun _ h => h, fun _ h _ => h⟩
  | u :: us, p, q, hus, hf, hq => by
    rw [List.foldlM_cons] at hq
    obtain ⟨r, hr, hq⟩ := Option.bind_eq_some_iff.1 hq
    obtain ⟨hmono, hnew⟩ := leads_of_climbs hc he (fun _ h => h) hr
    have hback : ∀ n ∈ r.entry, c.descends n S = true → n ∈ p.entry := by
      intro n hn hd
      rcases hus u (by simp) with htargets | hother
      · rw [htargets, List.foldlM_cons] at hr
        obtain ⟨r', hr', e⟩ := Option.bind_eq_some_iff.1 hr
        cases e
        refine mem_of_climb hc he _ p r (fun a ha => ?_) hf hr' n hn hd
        exact (hc.descends_iff_within hS).1 (descends_iff.2 ((List.takeWhile_sublist _).subset ha))
      · refine (hnew n hn).resolve_right fun hl => ?_
        rw [hother n hl] at hd
        cases hd
    obtain ⟨hmono', hback'⟩ := mem_of_climbs hS us r q
      (fun v hv => hus v (List.mem_cons_of_mem _ hv)) (hf.mono hmono) hq
    exact ⟨fun n hn => hmono' n (hmono n hn), fun n hn hd => hback n (hback' n hn hd) hd⟩

omit he in
/-- Entering targets that do not lie below a state enters nothing below it. -/
theorem mem_of_opened (hs : store.Recalls c) {fuel : Nat} (hf : Suffices c fuel) {xs : List NodeId}
    (hxs : ∀ x ∈ xs, c.Elsewhere S x)
    (hq : xs.foldlM (fun p n => EntryPlan.enter c store fuel n p) p = some q) :
    (∀ n ∈ p.entry, n ∈ q.entry) ∧ ∀ n ∈ q.entry, c.descends n S = true → n ∈ p.entry := by
  obtain ⟨r, hr, hadd, -⟩ := open_list hc hs hf xs (fun x hx => (hxs x hx).1) p
  rw [hq] at hr
  cases hr
  refine ⟨hadd.mono, fun n hn hd => (hadd.new n hn).resolve_right ?_⟩
  rintro ⟨⟨x, hx, -, hxd⟩, -⟩
  rw [(hxs x hx).2 n hxd] at hd
  cases hd

omit he in
/-- Entering a history that remembers something enters exactly what that gives. -/
theorem mem_enter_history {fuel : Nat} (hh : (c.node h).isHistory = true)
    (hS : (c.node h).parent = some S) (hR : store.remembered? h = some R)
    (hX : ∀ x ∈ R, (c.node x).isHistory = false ∧ c.descends x S = true)
    (hinc : R.Pairwise (Incomparable c)) (hp : ∀ z ∈ p.entry, c.descends z S = false)
    (hq : EntryPlan.enter c store (fuel + 1) h p = some q) :
    n ∈ q.entry ↔ n ∈ p.entry ∨ c.Given S R n := by
  rw [enter_history hh hS] at hq
  simp only [historyTargets, hR] at hq
  exact mem_enterTargets hc (fun m hm => precise_enter hc hm) hp hX hinc hq

omit he in
/-- Once a history has been entered among targets that do not lead below its state, all is there below
    the state, and it is exactly what the history gives. -/
theorem furnished_of_split (hs : store.Recalls c) {fuel : Nat} (hf : Suffices c (fuel + 1))
    (hh : (c.node h).isHistory = true) (hS : (c.node h).parent = some S)
    (hR : store.remembered? h = some R) (hinc : R.Pairwise (Incomparable c))
    (hreg : (c.node S).isParallel = true → ∀ k ∈ (c.node S).children, c.Covers R k)
    {before behind : List NodeId} (hbefore : ∀ x ∈ before, c.Elsewhere S x)
    (hbehind : ∀ x ∈ behind, c.Elsewhere S x)
    (hq : (before ++ h :: behind).foldlM (fun p n => EntryPlan.enter c store (fuel + 1) n p) empty =
      some q) :
    Furnished c S q ∧ ∀ n, c.descends n S = true → (n ∈ q.entry ↔ c.Given S R n) := by
  have hX : ∀ x ∈ R, (c.node x).isHistory = false ∧ c.descends x S = true := fun x hx => by
    obtain ⟨hxs, hxS⟩ := hs h R (Store.recorded?_of_remembered? hR).1 x hx
    exact ⟨hxs, hxS S hS⟩
  rw [List.foldlM_append] at hq
  obtain ⟨q₁, hq₁, hq⟩ := Option.bind_eq_some_iff.1 hq
  rw [List.foldlM_cons] at hq
  obtain ⟨q₂, hq₂, hq⟩ := Option.bind_eq_some_iff.1 hq
  obtain ⟨-, hback₁⟩ := mem_of_opened hc hs hf hbefore hq₁
  have hfresh : ∀ z ∈ q₁.entry, c.descends z S = false := fun z hz =>
    Bool.eq_false_iff.2 fun hd => List.not_mem_nil (hback₁ z hz hd)
  have hmem (n : NodeId) := mem_enter_history (n := n) hc hh hS hR hX hinc hfresh hq₂
  have hgiven : ∀ y ∈ R, y ∈ q₂.entry := fun y hy => (hmem y).2 (.inr (.inl ⟨y, hy, .self y⟩))
  obtain ⟨hmono₂, hback₂⟩ := mem_of_opened hc hs hf hbehind hq
  have hfurnished : Furnished c S q₂ := by
    refine ⟨?_, fun hpar k hk => (hreg hpar k hk).mono hgiven⟩
    obtain ⟨y, hy⟩ := List.exists_mem_of_ne_nil R (Store.recorded?_of_remembered? hR).2
    exact ⟨y, hgiven y hy, (hX y hy).2⟩
  refine ⟨hfurnished.mono hmono₂, fun n hn => ⟨fun hnq => ?_, fun hg => ?_⟩⟩
  · refine ((hmem n).1 (hback₂ n hnq hn)).resolve_left fun hn₁ => ?_
    rw [hfresh n hn₁] at hn
    cases hn
  · exact hmono₂ n ((hmem n).2 (.inr hg))

end EntryPlan

namespace Chosen

variable (hc : c.WellFormed) (hch : Chosen c (c.closure L) ts)
  (hL : ∀ l ∈ L, (c.node l).isAtomic = true)

include hc

/-- A transition to a history of a state leads to everything below the state. -/
theorem leads_below (hx : h ∈ (c.transition t).targets) (hS : (c.node h).parent = some S)
    (hn : c.descends n S = true) : c.Leads t n := by
  refine ⟨List.ne_nil_of_mem hx, fun d hd => hc.descends_of_descends_within hn ?_⟩
  exact (hc.descends_iff_within hS).1 ((hc.leads_of_target hx).2 d hd)

include hch hL

/-- Nothing that another transition leads to lies below the state. -/
theorem leads_elsewhere (ht : t ∈ ts) (hh : h ∈ (c.transition t).targets)
    (hS : (c.node h).parent = some S) (hu : u ∈ ts) (hne : u ≠ t) (hm : c.Leads u m) :
    c.descends m S = false :=
  Bool.eq_false_iff.2 fun hd => hch.not_leads_both hc hL hu ht hne hm (leads_below hc hh hS hd)

/-- Beside a history that is its transition's only target, no other target leads below the state. -/
theorem target_elsewhere (ht : t ∈ ts) (htargets : (c.transition t).targets = [h])
    (hS : (c.node h).parent = some S) (hx : x ∈ EntryPlan.targetsOf c ts) (hxh : x ≠ h) :
    c.Elsewhere S x := by
  obtain ⟨u, hu, hxu⟩ := EntryPlan.mem_targetsOf.1 hx
  refine ⟨hc.target_lt hxu, fun m hm => ?_⟩
  refine hch.leads_elsewhere hc hL ht (by simp [htargets]) hS hu ?_
    ⟨List.ne_nil_of_mem hxu, fun d hd => hm d ((hc.leads_of_target hxu).2 d hd)⟩
  rintro rfl
  rw [htargets, List.mem_singleton] at hxu
  exact hxh hxu

/-- A history that is its transition's only target stands once among the targets of a step, and the
    others do not lead below its state. -/
theorem exists_split (ht : t ∈ ts) (htargets : (c.transition t).targets = [h])
    (hS : (c.node h).parent = some S) : ∃ before behind : List NodeId,
      EntryPlan.targetsOf c ts = before ++ h :: behind ∧
      (∀ x ∈ before, c.Elsewhere S x) ∧ ∀ x ∈ behind, c.Elsewhere S x := by
  have hmem : h ∈ EntryPlan.targetsOf c ts := EntryPlan.mem_targetsOf.2 ⟨t, ht, by simp [htargets]⟩
  obtain ⟨before, behind, hsplit⟩ := List.append_of_mem hmem
  have hnodup : (before ++ h :: behind).Nodup := hsplit ▸ EntryPlan.nodup_targetsOf
  obtain ⟨-, hbehind, hbefore⟩ := List.nodup_append.1 hnodup
  have hother {x : NodeId} (hx : x ∈ before ∨ x ∈ behind) (hxh : x ≠ h) : c.Elsewhere S x := by
    refine hch.target_elsewhere hc hL ht htargets hS ?_ hxh
    rw [hsplit, List.mem_append, List.mem_cons]
    exact hx.imp_right .inr
  refine ⟨before, behind, hsplit, fun x hx => ?_, fun x hx => ?_⟩
  · exact hother (.inl hx) (hbefore x hx h List.mem_cons_self)
  · refine hother (.inr hx) ?_
    rintro rfl
    exact (List.nodup_cons.1 hbehind).1 hx

/-- A plan whose step enters a state through one of its histories alone holds below the state exactly
    what the history gives. -/
theorem mem_plan_iff (hs : store.Recalls c) (ht : t ∈ ts) (htargets : (c.transition t).targets = [h])
    (hh : (c.node h).isHistory = true) (hS : (c.node h).parent = some S)
    (hR : store.remembered? h = some R) (hinc : R.Pairwise (EntryPlan.Incomparable c))
    (hreg : (c.node S).isParallel = true → ∀ k ∈ (c.node S).children, c.Covers R k)
    {plan : EntryPlan} (hplan : EntryPlan.ofTransitions c store ts = some plan)
    (hn : c.descends n S = true) : n ∈ plan.entry ↔ c.Given S R n := by
  obtain ⟨fuel, q, hf, hq, hplan⟩ := EntryPlan.parts_of_ofTransitions hc hplan
  obtain ⟨before, behind, hsplit, hbefore, hbehind⟩ := hch.exists_split hc hL ht htargets hS
  rw [hsplit] at hq
  obtain ⟨hfurnished, hmem⟩ := EntryPlan.furnished_of_split hc hs hf hh hS hR hinc hreg hbefore hbehind hq
  have hus : ∀ u ∈ ts, (c.transition u).targets = [h] ∨ ∀ m, c.Leads u m → c.descends m S = false := by
    intro u hu
    by_cases hut : u = t
    · exact .inl (hut ▸ htargets)
    · exact .inr fun m => hch.leads_elsewhere hc hL ht (by simp [htargets]) hS hu hut
  obtain ⟨hmono, hback⟩ := EntryPlan.mem_of_climbs hc (fun m hm => EntryPlan.precise_enter hc hm) hS
    ts q plan hus hfurnished hplan
  rw [← hmem n hn]
  exact ⟨fun hnp => hback n hnp hn, hmono n⟩

end Chosen

/-! ### What records give -/

namespace Session

variable {s₀ s : Session} {p : Phase} {past : List Stage}

section

variable (hc : c.WellFormed) (hw : store.Whole c)

include hc hw

/-- A history records something within every active child of its state. -/
theorem covers_recordOf (kind : HistoryKind) (hk : k ∈ (c.node S).children) (hcov : c.Covers (store.active c) k) :
    c.Covers (recordOf c store S kind) k := by
  obtain ⟨y, hy, hyk⟩ := hcov
  have hkA := hc.mem_closure_up hy hyk
  cases kind with
  | shallow => exact .of_mem ((mem_recordOf hc hw).2 ⟨hkA, (hc.mem_children.1 hk).1⟩)
  | deep =>
    obtain ⟨l, hl, hlk⟩ := mem_closure_iff_covers.1 hkA
    have hd := hc.descends_of_within_descends hlk (hc.descends_parent (hc.mem_children.1 hk).1)
    exact ⟨l, List.mem_filter.2 ⟨hl, hd⟩, hlk⟩

/-- A state with children that is active has some of them active, a parallel one all. -/
theorem recordOf_ne_nil (hS : S ∈ store.active c) (ha : (c.node S).isAtomic = false) :
    recordOf c store S kind ≠ [] := by
  have hcomp := hw.complete S hS
  obtain ⟨hne, hkind⟩ := hc.compound_or_parallel hcomp.state ha
  obtain ⟨k, hk, hcov⟩ : ∃ k ∈ (c.node S).children, c.Covers (store.active c) k := by
    rcases hkind with h | h
    · exact hcomp.compound h
    · obtain ⟨k, ks, e⟩ := List.exists_cons_of_ne_nil hne
      exact ⟨k, by simp [e], hcomp.parallel h k (by simp [e])⟩
  obtain ⟨x, hx, -⟩ := covers_recordOf hc hw kind hk hcov
  exact List.ne_nil_of_mem hx

/-- What a deep history recorded gives the recorded leaves and the states above them. -/
theorem given_deep (hn : c.descends n S = true) :
    c.Given S (recordOf c store S .deep) n ↔ ∃ l ∈ recordOf c store S .deep, c.Within l n := by
  have hleaf {l : NodeId} (hl : l ∈ recordOf c store S .deep) : (c.node l).isAtomic = true :=
    hw.leaf l (List.mem_filter.1 hl).1
  have hdefault {l : NodeId} (hl : l ∈ recordOf c store S .deep) : c.ByDefault l n ↔ n = l := by
    have ha := hleaf hl
    refine byDefault_of_leaf ?_ (Bool.eq_false_iff.2 fun h => ?_)
    · cases hk : (c.node l).kind <;> simp [Node.isAtomic, Node.isParallel, hk] at ha ⊢
    · rw [WellFormed.not_atomic_of_compound h] at ha
      cases ha
  constructor
  · rintro (⟨l, hl, h⟩ | ⟨l, hl, hd, -⟩ | ⟨k, ⟨⟨a, hpar, hk, haS, l, hl, hla⟩, hfree⟩, -⟩)
    · exact ⟨l, hl, .inl ((hdefault hl).1 h).symm⟩
    · exact ⟨l, hl, .inr hd⟩
    · -- all regions of an active parallel state are active, so none lacks a recorded leaf
      have haA := hc.mem_closure_up (mem_closure_of_mem (List.mem_filter.1 hl).1) (.inr hla)
      obtain ⟨y, hy, hyk⟩ := covers_recordOf hc hw .deep hk
        ((hw.complete a haA).parallel hpar k hk)
      have hya := (List.mem_filter.1 hy)
      exact (hfree y (List.mem_filter.2
        ⟨hya.1, hc.descends_of_descends_within hya.2 (.inr haS)⟩) hyk).elim
  · rintro ⟨l, hl, rfl | hd⟩
    · exact .inl ⟨l, hl, .self l⟩
    · exact .inr (.inl ⟨l, hl, hd, hn⟩)

/-- What a shallow history recorded gives the recorded children with what they are entered with. -/
theorem given_shallow : c.Given S (recordOf c store S .shallow) n ↔
    ∃ m ∈ recordOf c store S .shallow, c.ByDefault m n := by
  -- nothing lies between a child and its parent
  have between {m a : NodeId} (hm : m ∈ recordOf c store S .shallow) (hma : c.descends m a = true)
      (haS : c.descends a S = true) : False := by
    have hSa := (hc.descends_iff_within ((mem_recordOf hc hw).1 hm).2).1 hma
    exact hc.not_within_of_descends haS hSa
  refine ⟨?_, .inl⟩
  rintro (h | ⟨m, hm, hmn, hnS⟩ | ⟨k, ⟨⟨a, -, -, haS, m, hm, hma⟩, -⟩, -⟩)
  · exact h
  · exact (between hm hmn hnS).elim
  · exact (between hm hma haS).elim

end

/-- What the states that a history has recorded bring back below its state. -/
def Restores (c : Chart) (R : NodeSet) : HistoryKind → NodeId → Prop
  | .deep, n => ∃ l ∈ R, c.Within l n
  | .shallow, n => ∃ m ∈ R, c.ByDefault m n

/-- A history has no record as long as no step has left its state. From then on it has recorded what was
    active when the last step that left the state began: the leaves below it if it is deep, its children
    if it is shallow. A step with a transition to the history enters what it has recorded by then; and if
    the history is the transition's only target, nothing else is active below the state afterwards than
    what the record brings back. -/
theorem history_round_trip {name : String} {version : Nat} {v : Value}
    (hl : Chart.load name version v = .ok c) (s₀ : Session)
    (hk : (c.node h).kind = .history kind) (hS : (c.node h).parent = some S) :
    (∀ p s, Reaches c s₀ p s → ∃ past, Chronicle c s₀ past p s) ∧
    ∀ past p s, Chronicle c s₀ past p s →
      (match past.find? fun g => decide (S ∈ g.step.exit) with
        | none => s.store.recorded? h = none
        | some g => S ∈ g.before.active c ∧ ∃ R, s.store.recorded? h = some R ∧
            ∀ x, x ∈ R ↔ Kept c (g.before.active c) S kind x) ∧
      ∀ event ts, p = .about event ts → ∃ t, s.microStep c event ts = some t ∧
        ∀ i ∈ ts, h ∈ (c.transition i).targets → ∀ R, s.store.recorded? h = some R →
          (∀ x ∈ R, x ∈ t.store.active c) ∧
          ((c.transition i).targets = [h] → ∀ n, c.descends n S = true →
            (n ∈ t.store.active c ↔ Restores c R kind n)) := by
  have hc := wellFormed_of_load hl
  have hhist : (c.node h).isHistory = true := by simp [Node.isHistory, hk]
  refine ⟨fun p s => Chronicle.of_reaches, fun past p s hpast => ⟨hpast.recorded_spec hc hk hS, ?_⟩⟩
  rintro event ts rfl
  have hp : Prepared c ts s := holds_of_reaches hc hpast.reaches
  obtain ⟨step, t, -, hm, -, -, -, hmoved, -, hplan⟩ := microStep_spec hc event hp.sane hp.chosen
  refine ⟨t, hm, fun i hi htarget R hR => ?_⟩
  obtain ⟨g, hg, n, kind', hk', hn, hactive, rfl⟩ := hpast.exists_stage hc hR
  rw [hk] at hk'
  cases hk'
  rw [hS] at hn
  cases hn
  have hw := (hpast.of_mem hc g hg).1
  have hrem : s.store.remembered? h = some (recordOf c g.before S kind) :=
    Store.remembered?_of_recorded? hR (recordOf_ne_nil hc hw hactive (hc.not_atomic_of_history hhist hS))
  have hmem (n : NodeId) : n ∈ t.store.active c ↔ _ := hmoved.mem_closure_iff hc
  refine ⟨fun x hx => ?_, fun htargets n hnS => ?_⟩
  · obtain ⟨plan, hplan', -, hstands, -⟩ := EntryPlan.planned_ofTransitions hc hp.sane.recalls ts
    rw [hplan] at hplan'
    cases hplan'
    refine (hmem x).2 (.inr (hstands h (EntryPlan.mem_targetsOf.2 ⟨i, hi, htarget⟩) x ?_))
    rw [Store.stands, if_pos hhist, hrem]
    exact hx
  · have hplan_iff := hp.chosen.mem_plan_iff hc hp.sane.leaf hp.sane.recalls hi htargets hhist hS hrem
      (incomparable_recordOf hc hw) (fun hpar k hk => covers_recordOf hc hw kind hk
        ((hw.complete S hactive).parallel hpar k hk)) hplan hnS
    -- whatever was active below the state is left
    have hleft : ¬∀ u ∈ ts, ¬c.Leads u n := fun hstay =>
      hstay i hi (Chosen.leads_below hc htarget hS hnS)
    rw [hmem, or_iff_right fun h => hleft h.2, hplan_iff]
    cases kind with
    | deep => exact given_deep hc hw hnS
    | shallow => exact given_shallow hc hw

/-- The lamp, switched on, turned bright and switched off. -/
def darkLamp : Session :=
  (newLamp.play lampChart 10 (["push", "turn", "push"].map .signal)).get (by decide +kernel)

theorem run_darkLamp : Run lampChart newLamp darkLamp := Run.of_play (Option.some_get _).symm

/-- The history of the lamp has recorded that it was bright and its fan slow. Switched on again, the lamp
    is as it was. -/
theorem history_darkLamp : darkLamp.store.recorded? 2 = some [5, 7] ∧
    (∀ past, Chronicle lampChart newLamp past .rest darkLamp →
      ∃ g ∈ past, 1 ∈ g.before.active lampChart ∧
        ∀ x, x ∈ [5, 7] ↔ Kept lampChart (g.before.active lampChart) 1 .deep x) ∧
    ∃ event s t, Reaches lampChart newLamp (.about event [0]) s ∧
      s.microStep lampChart event [0] = some t ∧ ∀ n, lampChart.descends n 1 = true →
        (n ∈ t.store.active lampChart ↔ ∃ l ∈ [5, 7], lampChart.Within l n) := by
  have hrec : darkLamp.store.recorded? 2 = some [5, 7] := by decide +kernel
  have hk : (lampChart.node 2).kind = .history .deep := by decide +kernel
  have hS : (lampChart.node 2).parent = some 1 := by decide +kernel
  obtain ⟨hall, htrip⟩ := history_round_trip load_lamp newLamp hk hS
  refine ⟨hrec, fun past hpast => ?_, ?_⟩
  · have h := (htrip past .rest darkLamp hpast).1
    split at h
    · rw [hrec] at h
      cases h
    · rename_i g hg
      obtain ⟨hactive, R, hR, hkept⟩ := h
      rw [hrec] at hR
      cases hR
      exact ⟨g, List.mem_of_find?_eq_some hg, hactive, hkept⟩
  · -- switching it on
    let on := (darkLamp.answer lampChart (.signal "push")).select lampChart (some "push")
    have hon : on.1 = [0] := by decide +kernel
    have hreach : Reaches lampChart newLamp (.about (some (.signal "push")) [0])
        { on.2 with pending := [] } :=
      run_darkLamp.reaches.move (.accept (.signal "push") (by decide +kernel) rfl (Prod.ext hon rfl))
    obtain ⟨past, hpast⟩ := hall _ _ hreach
    obtain ⟨t, ht, hback⟩ := (htrip past _ _ hpast).2 _ _ rfl
    exact ⟨_, _, t, hreach, ht, (hback 0 (by simp) (by decide +kernel) [5, 7] (by decide +kernel)).2
      (by decide +kernel)⟩

end Session
end Statechart
