import Statechart.Proofs.Configuration

/-! Configurations as trees.

    A configuration tree grows from a state: a leaf is one by itself, a compound state goes on with one
    of its children and a parallel one with all of them. Seen from its leaves, a set of leaves branches
    at a state if one child is covered below a compound state and every child below a parallel one. A
    set of leaves that branches at every state it covers is the leaves of a tree, and the leaves of a
    tree branch so. -/

namespace Statechart

open Chart

namespace Chart

variable {c : Chart} {K L : List NodeId} {k l m n : NodeId}

/-- The leaves of a configuration tree that grows from a state. -/
inductive Grown (c : Chart) : NodeId → List NodeId → Prop where
  | leaf {n : NodeId} (h : (c.node n).isAtomic = true) : Grown c n [n]
  | compound {n m : NodeId} {K : List NodeId} (h : (c.node n).isCompound = true)
      (hm : m ∈ (c.node n).children) (hK : Grown c m K) : Grown c n K
  | parallel {n : NodeId} {K : NodeId → List NodeId} (h : (c.node n).isParallel = true)
      (hK : ∀ m ∈ (c.node n).children, Grown c m (K m)) :
      Grown c n ((c.node n).children.flatMap K)

/-- Whether exactly one of some states lies above a leaf. -/
def CoversOne (c : Chart) (L ns : List NodeId) : Prop :=
  ∃ m ∈ ns, c.Covers L m ∧ ∀ k ∈ ns, c.Covers L k → k = m

/-- Whether leaves branch at a state: below one child of a compound state, below all children of a
    parallel one. -/
structure Branches (c : Chart) (L : List NodeId) (n : NodeId) : Prop where
  compound : (c.node n).isCompound = true → c.CoversOne L (c.node n).children
  parallel : (c.node n).isParallel = true → ∀ m ∈ (c.node n).children, c.Covers L m

/-- Whether the leaves within a state are those of a tree that grows from it. -/
def Spanned (c : Chart) (L : List NodeId) (n : NodeId) : Prop :=
  ∃ K, c.Grown n K ∧ ∀ l, l ∈ K ↔ l ∈ L ∧ c.Within l n

theorem coversOne_iff {ns : List NodeId} : c.CoversOne L ns ↔
    ∃ m ∈ ns, m ∈ c.closure L ∧ ∀ k ∈ ns, k ∈ c.closure L → k = m := by
  simp only [CoversOne, mem_closure_iff_covers]

theorem Branches.of_atomic (h : (c.node n).isAtomic = true) : c.Branches L n where
  compound hn := by rw [WellFormed.not_atomic_of_compound hn] at h; cases h
  parallel hn := by
    cases hk : (c.node n).kind <;> simp [Node.isAtomic, Node.isParallel, hk] at h hn

namespace WellFormed

variable (hc : c.WellFormed)

include hc

theorem within_child (hm : m ∈ (c.node n).children) (hw : c.Within l m) : c.Within l n :=
  hc.within_trans hw (.inr (hc.descends_parent (hc.mem_children.1 hm).1))

/-- Only one child of a state lies above a given node. -/
theorem eq_of_within_children (hm : m ∈ (c.node n).children) (hk : k ∈ (c.node n).children)
    (hlm : c.Within l m) (hlk : c.Within l k) : m = k :=
  hc.eq_of_within ((hc.mem_children.1 hm).1.trans (hc.mem_children.1 hk).1.symm) hlm hlk

/-- How leaves branch at a state depends on those within it alone. -/
theorem branches_congr (h : ∀ l, c.Within l n → (l ∈ K ↔ l ∈ L)) (hK : c.Branches K n) :
    c.Branches L n := by
  have covers {m : NodeId} (hm : m ∈ (c.node n).children) : c.Covers K m ↔ c.Covers L m :=
    exists_congr fun l => and_congr_left fun hw => h l (hc.within_child hm hw)
  refine ⟨fun hn => ?_, fun hn m hm => (covers hm).1 (hK.parallel hn m hm)⟩
  obtain ⟨m, hm, hcov, huniq⟩ := hK.compound hn
  exact ⟨m, hm, (covers hm).1 hcov, fun k hk hkL => huniq k hk ((covers hk).2 hkL)⟩

/-! ### From a tree to its leaves -/

/-- A tree has leaves, and they are states without children within the state from which it grows. -/
theorem leaves_of_grown (h : c.Grown n K) :
    K ≠ [] ∧ ∀ l ∈ K, (c.node l).isAtomic = true ∧ c.Within l n := by
  induction h with
  | leaf h => exact ⟨by simp, by simpa using ⟨h, .refl _⟩⟩
  | compound h hm hK ih => exact ⟨ih.1, fun l hl => ⟨(ih.2 l hl).1, hc.within_child hm (ih.2 l hl).2⟩⟩
  | @parallel n K h hK ih =>
    refine ⟨fun hnil => ?_, fun l hl => ?_⟩
    · obtain ⟨m, hm⟩ := List.exists_mem_of_ne_nil _ ((hc.shaped n).parallel h)
      exact (ih m hm).1 (List.flatMap_eq_nil_iff.1 hnil m hm)
    · obtain ⟨m, hm, hl⟩ := List.mem_flatMap.1 hl
      exact ⟨((ih m hm).2 l hl).1, hc.within_child hm ((ih m hm).2 l hl).2⟩

theorem covers_of_grown (h : c.Grown n K) : c.Covers K n := by
  obtain ⟨hne, hall⟩ := hc.leaves_of_grown h
  obtain ⟨l, hl⟩ := List.exists_mem_of_ne_nil _ hne
  exact ⟨l, hl, (hall l hl).2⟩

/-- What lies between a leaf and a state above a child of it lies within the child, if the leaf does. -/
theorem within_child_of_leaf (hl : (c.node l).isAtomic = true) (hlm : c.Within l m)
    (hmn : c.Within m n) (hne : m ≠ n) (hk : k ∈ (c.node n).children) (hlk : c.Within l k) :
    c.Within m k := by
  have hstate : (c.node m).isHistory = false := by
    rcases hlm with rfl | hd
    · exact not_history_of_atomic hl
    · exact hc.not_history_of_descends hd
  obtain ⟨k', hk', hmk'⟩ := hc.exists_state_child (hmn.resolve_left hne) hstate
  rwa [hc.eq_of_within_children hk' hk (hc.within_trans hlm hmk') hlk] at hmk'

/-- The leaves of a tree branch at every state above one of them. -/
theorem branches_of_grown (h : c.Grown n K) (hmn : c.Within m n) (hm : c.Covers K m) :
    c.Branches K m := by
  induction h generalizing m with
  | @leaf n h =>
    obtain ⟨l, hl, hlm⟩ := hm
    rw [List.mem_singleton.1 hl] at hlm
    rw [hc.within_antisymm hmn hlm]
    exact .of_atomic h
  | @compound n k K h hk hK ih =>
    obtain ⟨-, hleaf⟩ := hc.leaves_of_grown hK
    by_cases hne : m = n
    · subst hne
      refine ⟨fun _ => ⟨k, hk, hc.covers_of_grown hK, ?_⟩, fun hpar => ?_⟩
      · rintro k' hk' ⟨l, hl, hlk'⟩
        exact hc.eq_of_within_children hk' hk hlk' (hleaf l hl).2
      · rw [not_compound_of_parallel hpar] at h
        cases h
    · obtain ⟨l, hl, hlm⟩ := hm
      obtain ⟨ha, hlk⟩ := hleaf l hl
      exact ih (hc.within_child_of_leaf ha hlm hmn hne hk hlk) ⟨l, hl, hlm⟩
  | @parallel n K h hK ih =>
    by_cases hne : m = n
    · subst hne
      refine ⟨fun hcomp => ?_, fun _ k hk => ?_⟩
      · rw [not_compound_of_parallel h] at hcomp
        cases hcomp
      · exact (hc.covers_of_grown (hK k hk)).mono fun l hl => List.mem_flatMap.2 ⟨k, hk, hl⟩
    · obtain ⟨l, hl, hlm⟩ := hm
      obtain ⟨k, hk, hl⟩ := List.mem_flatMap.1 hl
      obtain ⟨ha, hlk⟩ := (hc.leaves_of_grown (hK k hk)).2 l hl
      have hmk := hc.within_child_of_leaf ha hlm hmn hne hk hlk
      refine hc.branches_congr (fun x hx => ⟨fun hxK => ?_, fun hxK => ?_⟩) (ih k hk hmk ⟨l, hl, hlm⟩)
      · exact List.mem_flatMap.2 ⟨k, hk, hxK⟩
      · -- a leaf within the child is one of the child's own tree
        obtain ⟨k', hk', hxK'⟩ := List.mem_flatMap.1 hxK
        have hxk' := ((hc.leaves_of_grown (hK k' hk')).2 x hxK').2
        rwa [hc.eq_of_within_children hk' hk hxk' (hc.within_trans hx hmk)] at hxK'

/-! ### From leaves to a tree -/

section

variable (hL : ∀ l ∈ L, (c.node l).isAtomic = true)

include hL

theorem spanned_of_atomic (ha : (c.node n).isAtomic = true) (hn : c.Covers L n) : c.Spanned L n := by
  have hself {x : NodeId} (hx : x ∈ L) (hw : c.Within x n) : x = n :=
    hc.eq_of_within_atomic hw ha (not_history_of_atomic (hL x hx))
  obtain ⟨l, hl, hln⟩ := hn
  refine ⟨[n], .leaf ha, fun x => ⟨fun hx => ?_, fun hx => ?_⟩⟩
  · rw [List.mem_singleton.1 hx]
    exact ⟨hself hl hln ▸ hl, .refl n⟩
  · exact List.mem_singleton.2 (hself hx.1 hx.2)

/-- Every leaf within a state with children lies within one of them. -/
theorem exists_child_above (ha : (c.node n).isAtomic = false) (hl : l ∈ L) (hw : c.Within l n) :
    ∃ k ∈ (c.node n).children, c.Within l k := by
  refine hc.exists_state_child (hw.resolve_left ?_) (not_history_of_atomic (hL l hl))
  rintro rfl
  rw [hL l hl] at ha
  cases ha

theorem spanned_of_compound (hcomp : (c.node n).isCompound = true) (hbr : c.Branches L n)
    (hK : ∀ k ∈ (c.node n).children, c.Covers L k → c.Spanned L k) : c.Spanned L n := by
  obtain ⟨k, hk, hcov, huniq⟩ := hbr.compound hcomp
  obtain ⟨K, hK, hmem⟩ := hK k hk hcov
  refine ⟨K, .compound hcomp hk hK, fun x => (hmem x).trans (and_congr_right fun hx => ?_)⟩
  refine ⟨hc.within_child hk, fun hw => ?_⟩
  obtain ⟨k', hk', hxk'⟩ := hc.exists_child_above hL (not_atomic_of_compound hcomp) hx hw
  exact huniq k' hk' ⟨x, hx, hxk'⟩ ▸ hxk'

theorem spanned_of_parallel (hpar : (c.node n).isParallel = true) (ha : (c.node n).isAtomic = false)
    (hK : ∀ k ∈ (c.node n).children, c.Spanned L k) : c.Spanned L n := by
  have htrees : ∀ k, ∃ K, k ∈ (c.node n).children →
      c.Grown k K ∧ ∀ l, l ∈ K ↔ l ∈ L ∧ c.Within l k := fun k => by
    by_cases hk : k ∈ (c.node n).children
    · obtain ⟨K, hK⟩ := hK k hk
      exact ⟨K, fun _ => hK⟩
    · exact ⟨[], fun h => absurd h hk⟩
  obtain ⟨K, hK⟩ := Classical.skolem.1 htrees
  refine ⟨_, .parallel hpar fun k hk => (hK k hk).1, fun x => ?_⟩
  rw [List.mem_flatMap]
  constructor
  · rintro ⟨k, hk, hx⟩
    obtain ⟨hxL, hxk⟩ := ((hK k hk).2 x).1 hx
    exact ⟨hxL, hc.within_child hk hxk⟩
  · rintro ⟨hx, hw⟩
    obtain ⟨k, hk, hxk⟩ := hc.exists_child_above hL ha hx hw
    exact ⟨k, hk, ((hK k hk).2 x).2 ⟨hx, hxk⟩⟩

/-- Leaves that branch at every state above them are those of a tree, state by state. The induction goes
    up from the last index. -/
theorem spanned_of_branches (hbr : ∀ m, c.Covers L m → c.Branches L m) :
    ∀ {n : NodeId}, c.Covers L n → c.Spanned L n := by
  suffices h : ∀ i n, c.nodes.size - n = i → c.Covers L n → c.Spanned L n from
    fun {n} hn => h _ n rfl hn
  intro i
  induction i using Nat.strongRecOn with
  | ind i ih =>
    rintro n rfl hn
    cases ha : (c.node n).isAtomic with
    | true => exact hc.spanned_of_atomic hL ha hn
    | false =>
      have inner {k : NodeId} (hk : k ∈ (c.node n).children) (hcov : c.Covers L k) :
          c.Spanned L k := by
        have hlt := hc.parent_lt (hc.mem_children.1 hk).1
        have hsize := lt_size_of_parent (hc.mem_children.1 hk).1
        exact ih _ (Nat.sub_lt_sub_left (Nat.lt_trans hlt hsize) hlt) k rfl hcov
      obtain ⟨l, hl, hln⟩ := hn
      obtain ⟨k, hk, -⟩ := hc.exists_child_above hL ha hl hln
      rcases (hc.compound_or_parallel (hc.parent_state (hc.mem_children.1 hk).1) ha).2 with h | h
      · exact hc.spanned_of_compound hL h (hbr n ⟨l, hl, hln⟩) fun k hk => inner hk
      · exact hc.spanned_of_parallel hL h ha fun k hk =>
          inner hk ((hbr n ⟨l, hl, hln⟩).parallel h k hk)

end

end WellFormed
end Chart
end Statechart
