import Statechart.Proofs.Configuration

/-! Which states exactly are entered by default.

    `Chart.ByDefault` is the rule, apart from the construction: entering a state enters itself, all
    regions of a parallel state, and for a compound state the targets of its initial transition, what
    lies between them and the state, and those regions of the parallel states in between in which no
    target lies. Entering a state adds to a plan what the rule says, if nothing of it is there yet. -/

namespace Statechart

open Chart

namespace Chart

variable {c : Chart} {b k m n x y : NodeId} {t : TransitionId} {X : List NodeId}

/-- Whether entering the state `m` by default enters `n`. -/
inductive ByDefault (c : Chart) : NodeId → NodeId → Prop where
  | self (m : NodeId) : ByDefault c m m
  | region {m k n : NodeId} (hm : (c.node m).isParallel = true) (hk : k ∈ (c.node m).children)
      (h : ByDefault c k n) : ByDefault c m n
  | target {m x n : NodeId} {t : TransitionId} (hm : (c.node m).isCompound = true)
      (ht : (c.node m).initial = some t) (hx : x ∈ (c.transition t).targets)
      (h : ByDefault c x n) : ByDefault c m n
  | between {m x n : NodeId} {t : TransitionId} (hm : (c.node m).isCompound = true)
      (ht : (c.node m).initial = some t) (hx : x ∈ (c.transition t).targets)
      (hxn : c.descends x n = true) (hnm : c.descends n m = true) : ByDefault c m n
  | beside {m x a k n : NodeId} {t : TransitionId} (hm : (c.node m).isCompound = true)
      (ht : (c.node m).initial = some t) (hx : x ∈ (c.transition t).targets)
      (hxa : c.descends x a = true) (ham : c.descends a m = true)
      (ha : (c.node a).isParallel = true) (hk : k ∈ (c.node a).children)
      (hfree : ∀ y ∈ (c.transition t).targets, ¬c.Within y k) (h : ByDefault c k n) : ByDefault c m n

/-- Whether a region below a boundary is filled beside the states to enter: the parallel state it belongs
    to lies between one of them and the boundary, and none of them lies within the region. -/
def Beside (c : Chart) (b : NodeId) (X : List NodeId) (k : NodeId) : Prop :=
  (∃ a, (c.node a).isParallel = true ∧ k ∈ (c.node a).children ∧ c.descends a b = true ∧
    ∃ x ∈ X, c.descends x a = true) ∧ ∀ y ∈ X, ¬c.Within y k

/-- Whether entering the states of a list below a boundary enters a state. -/
def Given (c : Chart) (b : NodeId) (X : List NodeId) (n : NodeId) : Prop :=
  (∃ x ∈ X, c.ByDefault x n) ∨ (∃ x ∈ X, c.descends x n = true ∧ c.descends n b = true) ∨
    ∃ k, c.Beside b X k ∧ c.ByDefault k n

theorem byDefault_of_compound (hm : (c.node m).isCompound = true) (ht : (c.node m).initial = some t) :
    c.ByDefault m n ↔ n = m ∨ c.Given m (c.transition t).targets n := by
  constructor
  · intro h
    have same {u : TransitionId} (hu : (c.node m).initial = some u) : u = t := by
      rw [ht] at hu
      exact (Option.some.inj hu).symm
    cases h with
    | self => exact .inl rfl
    | region hp => rw [WellFormed.not_compound_of_parallel hp] at hm; cases hm
    | target _ hu hx h => exact .inr (.inl ⟨_, same hu ▸ hx, h⟩)
    | between _ hu hx hxn hnm => exact .inr (.inr (.inl ⟨_, same hu ▸ hx, hxn, hnm⟩))
    | beside _ hu hx hxa ham ha hk hfree h =>
      obtain rfl := same hu
      exact .inr (.inr (.inr ⟨_, ⟨⟨_, ha, hk, ham, _, hx, hxa⟩, hfree⟩, h⟩))
  · rintro (rfl | ⟨x, hx, h⟩ | ⟨x, hx, hxn, hnm⟩ | ⟨k, ⟨⟨a, ha, hk, ham, x, hx, hxa⟩, hfree⟩, h⟩)
    · exact .self n
    · exact .target hm ht hx h
    · exact .between hm ht hx hxn hnm
    · exact .beside hm ht hx hxa ham ha hk hfree h

theorem byDefault_of_parallel (hm : (c.node m).isParallel = true) :
    c.ByDefault m n ↔ n = m ∨ ∃ k ∈ (c.node m).children, c.ByDefault k n := by
  have hc := WellFormed.not_compound_of_parallel hm
  constructor
  · intro h
    cases h with
    | self => exact .inl rfl
    | region _ hk h => exact .inr ⟨_, hk, h⟩
    | target hm' => rw [hc] at hm'; cases hm'
    | between hm' => rw [hc] at hm'; cases hm'
    | beside hm' => rw [hc] at hm'; cases hm'
  · rintro (rfl | ⟨k, hk, h⟩)
    · exact .self n
    · exact .region hm hk h

theorem byDefault_of_leaf (hp : (c.node m).isParallel = false) (hm : (c.node m).isCompound = false) :
    c.ByDefault m n ↔ n = m := by
  constructor
  · intro h
    cases h with
    | self => rfl
    | region hp' => rw [hp] at hp'; cases hp'
    | target hm' => rw [hm] at hm'; cases hm'
    | between hm' => rw [hm] at hm'; cases hm'
    | beside hm' => rw [hm] at hm'; cases hm'
  · rintro rfl
    exact .self n

namespace WellFormed

variable (hc : c.WellFormed)

include hc

/-- By default only states within the state are entered. -/
theorem within_of_byDefault (h : c.ByDefault m n) : c.Within n m := by
  have below {x m : NodeId} {t : TransitionId} (hm : (c.node m).isCompound = true)
      (ht : (c.node m).initial = some t) (hx : x ∈ (c.transition t).targets) :
      c.descends x m = true := by
    obtain ⟨u, hu, -, hts⟩ := hc.initial hm
    rw [ht] at hu
    cases hu
    exact (hts x hx).1
  induction h with
  | self => exact .refl _
  | region hm hk _ ih =>
    exact hc.within_trans ih (.inr (hc.descends_parent (hc.mem_children.1 hk).1))
  | target hm ht hx _ ih => exact hc.within_trans ih (.inr (below hm ht hx))
  | between _ _ _ _ hnm => exact .inr hnm
  | beside _ _ _ _ ham _ hk _ _ ih =>
    exact hc.within_trans ih (.inr (hc.descends_of_descends_within
      (hc.descends_parent (hc.mem_children.1 hk).1) (.inr ham)))

/-- Regions beside targets lie below the boundary. -/
theorem descends_of_beside (h : c.Beside b X k) : c.descends k b = true := by
  obtain ⟨⟨a, -, hk, hab, -⟩, -⟩ := h
  exact hc.descends_of_descends_within (hc.descends_parent (hc.mem_children.1 hk).1) (.inr hab)

/-- The states above a node up to a boundary above it are those between the two. -/
theorem mem_takeWhile_ancestors : ∀ {x : NodeId}, c.descends x b = true → ∀ {a : NodeId},
    (a ∈ (c.node x).ancestors.takeWhile fun a => some a ≠ some b) ↔
      c.descends x a = true ∧ c.descends a b = true := by
  intro x
  induction x using Nat.strongRecOn with
  | ind x ih =>
    intro hxb a
    obtain ⟨q, hq, hqb⟩ := hc.descends_iff_parent.1 hxb
    rw [hc.ancestors_some hq, List.takeWhile_cons]
    rw [hc.descends_iff_within hq]
    rcases hqb with rfl | hqb
    · -- the boundary is the parent, and nothing lies between
      simp only [ne_eq, not_true_eq_false, decide_false, Bool.false_eq_true, if_false,
        List.not_mem_nil, false_iff, not_and]
      exact fun hw hd => hc.not_within_of_descends hd hw
    · have hne : q ≠ b := hc.ne_of_descends hqb
      simp only [ne_eq, Option.some.injEq, hne, not_false_eq_true, decide_true, if_true,
        List.mem_cons]
      have hih := ih q (hc.parent_lt hq) hqb (a := a)
      simp only [ne_eq, Option.some.injEq] at hih
      rw [hih]
      constructor
      · rintro (rfl | ⟨h, hd⟩)
        · exact ⟨.refl a, hqb⟩
        · exact ⟨.inr h, hd⟩
      · rintro ⟨rfl | h, hd⟩
        · exact .inl rfl
        · exact .inr ⟨h, hd⟩

end WellFormed
end Chart

namespace EntryPlan

variable {c : Chart} {store : Store} {p q r : EntryPlan} {a b k m n x y : NodeId} {X : List NodeId}

/-- Whether a function adds to a plan that holds nothing within a state exactly what is entered by
    default. -/
def Precise (c : Chart) (enter : NodeId → EntryPlan → Option EntryPlan) (m : NodeId) : Prop :=
  ∀ {p q}, enter m p = some q → ¬c.Covers p.entry m →
    ∀ n, n ∈ q.entry ↔ n ∈ p.entry ∨ c.ByDefault m n

/-- Two states neither of which lies within the other. -/
def Incomparable (c : Chart) (x y : NodeId) : Prop := ¬c.Within x y ∧ ¬c.Within y x

instance : Std.Symm (Incomparable c) := ⟨fun _ _ => And.symm⟩

section

variable {enter : NodeId → EntryPlan → Option EntryPlan} (hc : c.WellFormed)
  (he : ∀ m, (c.node m).isHistory = false → Precise c enter m)

include hc he

/-- Filling the regions of a parallel state enters those by default in which nothing is entered yet. -/
theorem mem_fillRegions (hq : fillRegions c enter a p = some q) :
    n ∈ q.entry ↔ n ∈ p.entry ∨
      ∃ k ∈ (c.node a).children, ¬c.Covers p.entry k ∧ c.ByDefault k n := by
  suffices h : ∀ (ms : List NodeId) (p q : EntryPlan), (∀ m ∈ ms, m ∈ (c.node a).children) →
      ms.foldlM (fun p child => if p.covers c child then some p else enter child p) p = some q →
      ∀ n, n ∈ q.entry ↔ n ∈ p.entry ∨ ∃ k ∈ ms, ¬c.Covers p.entry k ∧ c.ByDefault k n from
    h _ p q (fun _ h => h) hq n
  intro ms
  induction ms with
  | nil =>
    intro p q _ hq n
    cases hq
    simp
  | cons m ms ih =>
    intro p q hms hq n
    rw [List.foldlM_cons] at hq
    obtain ⟨r, hr, hq⟩ := Option.bind_eq_some_iff.1 hq
    have hm := hc.mem_children.1 (hms m (by simp))
    have hrest : ∀ k ∈ ms, k ∈ (c.node a).children := fun k hk => hms k (List.mem_cons_of_mem _ hk)
    have hmem : ∀ n, n ∈ r.entry ↔ n ∈ p.entry ∨ ¬c.Covers p.entry m ∧ c.ByDefault m n := by
      intro n
      by_cases hcov : c.Covers p.entry m
      · rw [if_pos (covers_iff.2 hcov)] at hr
        cases hr
        simp [hcov]
      · rw [if_neg fun h => hcov (covers_iff.1 h)] at hr
        simp [he m hm.2 hr hcov n, hcov]
    rw [ih r q hrest hq n, hmem]
    constructor
    · rintro ((h | ⟨hcov, h⟩) | ⟨k, hk, hcov, h⟩)
      · exact .inl h
      · exact .inr ⟨m, by simp, hcov, h⟩
      · refine .inr ⟨k, List.mem_cons_of_mem _ hk, fun hk => hcov ?_, h⟩
        exact hk.mono fun x hx => (hmem x).2 (.inl hx)
    · rintro (h | ⟨k, hk, hcov, h⟩)
      · exact .inl (.inl h)
      · by_cases hkm : k = m
        · exact .inl (.inr (hkm ▸ ⟨hcov, h⟩))
        · -- filling one region does not reach into another
          have hk := (List.mem_cons.1 hk).resolve_left hkm
          refine .inr ⟨k, hk, ?_, h⟩
          rintro ⟨z, hz, hzk⟩
          rcases (hmem z).1 hz with hz | ⟨-, hz⟩
          · exact hcov ⟨z, hz, hzk⟩
          · have hpar := (hc.mem_children.1 (hrest k hk)).1.trans hm.1.symm
            exact hkm (hc.eq_of_within hpar hzk (hc.within_of_byDefault hz))

/-- Adding a state above others, with those of its regions in which nothing is entered yet. -/
theorem mem_enterAbove (hq : enterAbove c enter p a = some q) : n ∈ q.entry ↔
    n = a ∨ n ∈ p.entry ∨ (c.node a).isParallel = true ∧
      ∃ k ∈ (c.node a).children, ¬c.Covers p.entry k ∧ c.ByDefault k n := by
  have hcov {k : NodeId} (hk : k ∈ (c.node a).children) :
      c.Covers (p.add a).entry k ↔ c.Covers p.entry k := by
    refine covers_insert.trans (or_iff_right fun hw => ?_)
    exact Nat.not_lt.2 (hc.le_of_within hw) (hc.parent_lt (hc.mem_children.1 hk).1)
  unfold enterAbove at hq
  split at hq
  · rename_i hpar
    rw [mem_fillRegions hc he hq, mem_entry_add, or_assoc]
    refine or_congr_right (or_congr_right ?_)
    simp only [hpar, true_and]
    exact exists_congr fun k => and_congr_right fun hk => by rw [hcov hk]
  · rename_i hpar
    cases hq
    simp [mem_entry_add, hpar]

/-- Entering a list of states none of which lies within another. -/
theorem mem_enter_list : ∀ (X : List NodeId) (p q : EntryPlan),
    (∀ x ∈ X, (c.node x).isHistory = false ∧ ¬c.Covers p.entry x) → X.Pairwise (Incomparable c) →
    X.foldlM (fun p n => enter n p) p = some q →
    ∀ n, n ∈ q.entry ↔ n ∈ p.entry ∨ ∃ x ∈ X, c.ByDefault x n
  | [], p, q, _, _, hq, n => by
    cases hq
    simp
  | x :: X, p, q, hX, hinc, hq, n => by
    rw [List.foldlM_cons] at hq
    obtain ⟨r, hr, hq⟩ := Option.bind_eq_some_iff.1 hq
    obtain ⟨hx, hinc⟩ := List.pairwise_cons.1 hinc
    have hmem := he x (hX x (by simp)).1 hr (hX x (by simp)).2
    refine (mem_enter_list X r q (fun y hy => ?_) hinc hq n).trans ?_
    · refine ⟨(hX y (List.mem_cons_of_mem _ hy)).1, ?_⟩
      rintro ⟨z, hz, hzy⟩
      rcases (hmem z).1 hz with hz | hz
      · exact (hX y (List.mem_cons_of_mem _ hy)).2 ⟨z, hz, hzy⟩
      · exact (hc.comparable (hc.within_of_byDefault hz) hzy).elim (hx y hy).1 (hx y hy).2
    · rw [hmem, or_assoc]
      simp

end

/-- What is the case while one climbs from the states of a list to a boundary: the plan holds what they
    give by default and otherwise only what belongs to the list, and a region beside them is entered as
    a whole or not at all. -/
structure Grown (c : Chart) (b : NodeId) (X : List NodeId) (p r : EntryPlan) : Prop where
  old : ∀ n ∈ p.entry, n ∈ r.entry
  given : ∀ x ∈ X, ∀ n, c.ByDefault x n → n ∈ r.entry
  sound : ∀ n ∈ r.entry, n ∈ p.entry ∨ c.Given b X n
  full : ∀ k, c.Beside b X k → c.Covers r.entry k → ∀ n, c.ByDefault k n → n ∈ r.entry

/-- What is the case above the states of a list once one has climbed from them. -/
def Climbed (c : Chart) (b : NodeId) (x : NodeId) (r : EntryPlan) : Prop :=
  ∀ a, c.descends x a = true → c.descends a b = true → a ∈ r.entry ∧
    ((c.node a).isParallel = true → ∀ k ∈ (c.node a).children, c.Covers r.entry k)

theorem Climbed.mono (h : Climbed c b x r) (hr : ∀ n ∈ r.entry, n ∈ q.entry) : Climbed c b x q :=
  fun a hxa hab =>
    ⟨hr a (h a hxa hab).1, fun ha k hk => ((h a hxa hab).2 ha k hk).mono hr⟩

section

variable {enter : NodeId → EntryPlan → Option EntryPlan} (hc : c.WellFormed)
  (he : ∀ m, (c.node m).isHistory = false → Precise c enter m)

include hc

/-- When the states of a list have just been entered, nothing is entered beside them. -/
theorem Grown.start (hp : ∀ z ∈ p.entry, c.descends z b = false)
    (hinc : ∀ x ∈ X, ∀ y ∈ X, x ≠ y → Incomparable c x y)
    (hr : ∀ n, n ∈ r.entry ↔ n ∈ p.entry ∨ ∃ x ∈ X, c.ByDefault x n) : Grown c b X p r where
  old n hn := (hr n).2 (.inl hn)
  given x hx n hn := (hr n).2 (.inr ⟨x, hx, hn⟩)
  sound n hn := ((hr n).1 hn).imp_right .inl
  full k hk := by
    rintro ⟨z, hz, hzk⟩
    rcases (hr z).1 hz with hz | ⟨x, hx, hz⟩
    · have := hc.descends_of_within_descends hzk (hc.descends_of_beside hk)
      rw [hp z hz] at this
      cases this
    · obtain ⟨⟨a, -, hka, -, y, hy, hya⟩, hfree⟩ := hk
      have hka := (hc.mem_children.1 hka).1
      have hkx : c.Within k x :=
        (hc.comparable (hc.within_of_byDefault hz) hzk).resolve_left (hfree x hx)
      -- the parallel state lies within the one entered, and so does the other below it
      have hax : c.Within a x := hc.parent_within hkx (fun e => hfree x hx (.inl e.symm)) hka
      have hyx := hc.descends_of_descends_within hya hax
      exact ((hinc y hy x hx (hc.ne_of_descends hyx)).1 (.inr hyx)).elim

include he

/-- Climbing by one state keeps to the list. -/
theorem Grown.climb (h : Grown c b X p r) (hx : x ∈ X) (hxa : c.descends x a = true)
    (hab : c.descends a b = true) (hq : enterAbove c enter r a = some q) :
    Grown c b X p q ∧ (∀ n ∈ r.entry, n ∈ q.entry) ∧ a ∈ q.entry ∧
      ((c.node a).isParallel = true → ∀ k ∈ (c.node a).children, c.Covers q.entry k) := by
  have hmem (n : NodeId) := mem_enterAbove (n := n) hc he hq
  have hmono : ∀ n ∈ r.entry, n ∈ q.entry := fun n hn => (hmem n).2 (.inr (.inl hn))
  -- a region that is filled lies beside the list
  have beside {k : NodeId} (ha : (c.node a).isParallel = true) (hk : k ∈ (c.node a).children)
      (hcov : ¬c.Covers r.entry k) : c.Beside b X k :=
    ⟨⟨a, ha, hk, hab, x, hx, hxa⟩, fun y hy hw => hcov ⟨y, h.given y hy y (.self y), hw⟩⟩
  refine ⟨⟨fun n hn => hmono n (h.old n hn), fun y hy n hn => hmono n (h.given y hy n hn), ?_, ?_⟩,
    hmono, (hmem a).2 (.inl rfl), ?_⟩
  · intro n hn
    rcases (hmem n).1 hn with rfl | hn | ⟨ha, k, hk, hcov, hn⟩
    · exact .inr (.inr (.inl ⟨x, hx, hxa, hab⟩))
    · exact h.sound n hn
    · exact .inr (.inr (.inr ⟨k, beside ha hk hcov, hn⟩))
  · rintro k hk ⟨z, hz, hzk⟩ n hn
    rcases (hmem z).1 hz with rfl | hz | ⟨ha, l, hl, hcov, hz⟩
    · exact (hk.2 x hx (hc.within_trans (.inr hxa) hzk)).elim
    · exact hmono n (h.full k hk ⟨z, hz, hzk⟩ n hn)
    · by_cases e : l = k
      · exact (hmem n).2 (.inr (.inr ⟨ha, k, e ▸ hl, e ▸ hcov, hn⟩))
      · have hla := (hc.mem_children.1 hl).1
        rcases hc.comparable (hc.within_of_byDefault hz) hzk with hlk | hkl
        · -- the state climbed to lies within the region, and so does what one climbs from
          have hak := hc.parent_within hlk e hla
          exact (hk.2 x hx (hc.within_trans (.inr hxa) hak)).elim
        · obtain ⟨⟨a', -, hka', -, y, hy, hya'⟩, -⟩ := hk
          have hal := hc.parent_within hkl (Ne.symm e) (hc.mem_children.1 hka').1
          exact (hcov ⟨y, h.given y hy y (.self y), hc.within_trans (.inr hya') hal⟩).elim
  · intro ha k hk
    by_cases hcov : c.Covers r.entry k
    · exact hcov.mono hmono
    · exact .of_mem ((hmem k).2 (.inr (.inr ⟨ha, k, hk, hcov, .self k⟩)))

/-- Climbing from one state of the list to the boundary. -/
theorem Grown.climbTo (h : Grown c b X p r) (hx : x ∈ X) (hxb : c.descends x b = true)
    (hq : climbTo c enter (some b) r x = some q) :
    Grown c b X p q ∧ (∀ n ∈ r.entry, n ∈ q.entry) ∧ Climbed c b x q := by
  suffices hall : ∀ (as : List NodeId) (r q : EntryPlan), Grown c b X p r →
      (∀ a ∈ as, c.descends x a = true ∧ c.descends a b = true) →
      as.foldlM (enterAbove c enter) r = some q →
      Grown c b X p q ∧ (∀ n ∈ r.entry, n ∈ q.entry) ∧ ∀ a ∈ as, a ∈ q.entry ∧
        ((c.node a).isParallel = true → ∀ k ∈ (c.node a).children, c.Covers q.entry k) by
    obtain ⟨hg, hmono, hcl⟩ := hall _ r q h
      (fun a ha => (hc.mem_takeWhile_ancestors hxb).1 ha) hq
    exact ⟨hg, hmono, fun a hxa hab => hcl a ((hc.mem_takeWhile_ancestors hxb).2 ⟨hxa, hab⟩)⟩
  intro as
  induction as with
  | nil =>
    intro r q h _ hq
    cases hq
    exact ⟨h, fun _ hn => hn, by simp⟩
  | cons a as ih =>
    intro r q h has hq
    rw [List.foldlM_cons] at hq
    obtain ⟨r', hr', hq⟩ := Option.bind_eq_some_iff.1 hq
    obtain ⟨hxa, hab⟩ := has a (by simp)
    obtain ⟨hg, hmono, ha, hcov⟩ := h.climb hc he hx hxa hab hr'
    obtain ⟨hg', hmono', hcl⟩ := ih r' q hg (fun k hk => has k (List.mem_cons_of_mem _ hk)) hq
    refine ⟨hg', fun n hn => hmono' n (hmono n hn), fun k hk => ?_⟩
    rcases List.mem_cons.1 hk with rfl | hk
    · exact ⟨hmono' k ha, fun hp l hl => (hcov hp l hl).mono hmono'⟩
    · exact hcl k hk

/-- Entering states below a boundary, with what lies between, enters what the rule says. -/
theorem mem_enterTargets (hp : ∀ z ∈ p.entry, c.descends z b = false)
    (hX : ∀ x ∈ X, (c.node x).isHistory = false ∧ c.descends x b = true)
    (hinc : X.Pairwise (Incomparable c)) (hq : enterTargets c enter b X p = some q) :
    n ∈ q.entry ↔ n ∈ p.entry ∨ c.Given b X n := by
  obtain ⟨r, hr, hq⟩ := Option.bind_eq_some_iff.1 hq
  have hfree : ∀ x ∈ X, (c.node x).isHistory = false ∧ ¬c.Covers p.entry x := by
    refine fun x hx => ⟨(hX x hx).1, ?_⟩
    rintro ⟨z, hz, hw⟩
    have := hc.descends_of_within_descends hw (hX x hx).2
    rw [hp z hz] at this
    cases this
  have hstart : Grown c b X p r := Grown.start hc hp (fun x hx y hy => hinc.forall hx hy)
    (mem_enter_list hc he X p r hfree hinc hr)
  suffices hclimb : ∀ (xs : List NodeId) (r q : EntryPlan), Grown c b X p r → (∀ x ∈ xs, x ∈ X) →
      xs.foldlM (EntryPlan.climbTo c enter (some b)) r = some q →
      Grown c b X p q ∧ (∀ n ∈ r.entry, n ∈ q.entry) ∧ ∀ x ∈ xs, Climbed c b x q by
    obtain ⟨hg, -, hcl⟩ := hclimb X r q hstart (fun _ h => h) hq
    refine ⟨hg.sound n, ?_⟩
    rintro (hn | ⟨x, hx, hn⟩ | ⟨x, hx, hxn, hnb⟩ | ⟨k, hk, hn⟩)
    · exact hg.old n hn
    · exact hg.given x hx n hn
    · exact (hcl x hx n hxn hnb).1
    · obtain ⟨a, ha, hka, hab, x, hx, hxa⟩ := hk.1
      exact hg.full k hk ((hcl x hx a hxa hab).2 ha k hka) n hn
  intro xs
  induction xs with
  | nil =>
    intro r q h _ hq
    cases hq
    exact ⟨h, fun _ hn => hn, by simp⟩
  | cons x xs ih =>
    intro r q h hxs hq
    rw [List.foldlM_cons] at hq
    obtain ⟨r', hr', hq⟩ := Option.bind_eq_some_iff.1 hq
    have hx := hxs x (by simp)
    obtain ⟨hg, hmono, hcl⟩ := h.climbTo hc he hx (hX x hx).2 hr'
    obtain ⟨hg', hmono', hcl'⟩ := ih r' q hg (fun k hk => hxs k (List.mem_cons_of_mem _ hk)) hq
    refine ⟨hg', fun n hn => hmono' n (hmono n hn), fun k hk => ?_⟩
    rcases List.mem_cons.1 hk with rfl | hk
    · exact hcl.mono hmono'
    · exact hcl' k hk

end

/-- Entering a state adds exactly what is entered by default. The induction is on the fuel, which bounds
    the depth of the recursion. -/
theorem precise_enter (hc : c.WellFormed) {fuel : Nat} {m : NodeId}
    (hm : (c.node m).isHistory = false) : Precise c (enter c store fuel) m := by
  induction fuel generalizing m with
  | zero =>
    intro p q hq
    cases hq
  | succ fuel ih =>
    intro p q hq hcov n
    have hnew (z : NodeId) (hz : z ∈ (p.add m).entry) : c.descends z m = false := by
      refine Bool.eq_false_iff.2 fun hd => ?_
      rcases mem_entry_add.1 hz with rfl | hz
      · exact hc.ne_of_descends hd rfl
      · exact hcov ⟨z, hz, .inr hd⟩
    cases stateEntry_of_enter hc hm hq with
    | parallel hp _ hq =>
      rw [mem_fillRegions hc (fun k hk => ih hk) hq, mem_entry_add, byDefault_of_parallel hp,
        or_comm (a := n = m), or_assoc]
      refine or_congr_right (or_congr_right (exists_congr fun k => and_congr_right fun hk =>
        and_iff_right ?_))
      rintro ⟨z, hz, hw⟩
      have hd := hc.descends_of_within_descends hw (hc.descends_parent (hc.mem_children.1 hk).1)
      rw [hnew z hz] at hd
      cases hd
    | @compound t hcp ht hts hq =>
      have hinc : (c.transition t).targets.Pairwise (Incomparable c) :=
        (hc.apart_targets t).imp fun h => ⟨h.left, h.right⟩
      obtain ⟨p', hp', hq⟩ : ∃ p', p'.entry = (p.add m).entry ∧
          enterTargets c (EntryPlan.enter c store fuel) m (c.transition t).targets p' = some q :=
        ⟨_, rfl, hq⟩
      rw [mem_enterTargets hc (fun k hk => ih hk) (hp' ▸ hnew) hts hinc hq, hp',
        byDefault_of_compound hcp ht, mem_entry_add, or_comm (a := n = m), or_assoc]
    | leaf hp hcp hq => rw [hq, mem_entry_add, byDefault_of_leaf hp hcp, or_comm]

end EntryPlan
end Statechart
