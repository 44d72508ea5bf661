import Statechart.Proofs.WellFormed

/-! The tree of a chart: who lies below whom, and who can be active together.

    Parents have smaller indices than their children, so statements about everything above or below a
    node go by induction on indices. Of two nodes with the same parent at most one is active if the
    parent is compound, and so it is at the top; two nodes are apart if this never keeps them from
    being active together and neither lies below the other. -/

namespace Statechart.Chart

variable {c : Chart} {a b d m n p : NodeId}

/-- Whether `a` is `b` or lies below it. -/
def Within (c : Chart) (a b : NodeId) : Prop := a = b ∨ c.descends a b = true

/-- Whether two nodes have the same parent, one that has one active child at most; so do the nodes at
    the top. -/
def Rivals (c : Chart) (a b : NodeId) : Prop :=
  (c.node a).parent = (c.node b).parent ∧
    ∀ p, (c.node a).parent = some p → (c.node p).isCompound = true

/-- Whether nodes can be active together without one containing the other. -/
structure Apart (c : Chart) (a b : NodeId) : Prop where
  left : ¬c.Within a b
  right : ¬c.Within b a
  rivals : ∀ {m n}, c.Rivals m n → c.Within a m → c.Within b n → m = n

theorem descends_iff : c.descends a b = true ↔ b ∈ (c.node a).ancestors := by
  simp [descends, NodeTable.descends, node]

theorem Within.refl (a : NodeId) : c.Within a a := .inl rfl

/-- A node with a parent is in the table. -/
theorem lt_size_of_parent (h : (c.node a).parent = some p) : a < c.nodes.size :=
  NodeTable.lt_size_of_parent h

/-- A node with transitions is in the table. -/
theorem lt_size_of_transition {t : TransitionId} (h : t ∈ (c.node a).transitions) : a < c.nodes.size :=
  NodeTable.lt_size_of_transition h

/-- A node that is entered through a transition is in the table. -/
theorem lt_size_of_initial {t : TransitionId} (h : (c.node a).initial = some t) : a < c.nodes.size :=
  NodeTable.lt_size_of_initial h

namespace WellFormed

variable (hc : c.WellFormed)

include hc

omit hc in
theorem not_compound_of_parallel (h : (c.node n).isParallel = true) :
    (c.node n).isCompound = false := by
  cases hk : (c.node n).kind <;> simp [Node.isCompound, Node.isParallel, hk] at h ⊢

/-- A node lies below its parent and what its parent lies below. -/
theorem descends_iff_parent :
    c.descends a b = true ↔ ∃ p, (c.node a).parent = some p ∧ c.Within p b := by
  rw [descends_iff]
  cases hp : (c.node a).parent with
  | none => simp [hc.ancestors_none hp]
  | some p =>
    rw [hc.ancestors_some hp, List.mem_cons]
    simp only [Option.some.injEq, exists_eq_left', Within, descends_iff]
    exact or_congr_left eq_comm

theorem descends_iff_within (hp : (c.node a).parent = some p) :
    c.descends a b = true ↔ c.Within p b := by
  rw [hc.descends_iff_parent, hp]
  simp

theorem descends_parent (h : (c.node a).parent = some p) : c.descends a p = true :=
  (hc.descends_iff_within h).2 (.refl p)

theorem not_descends_of_top (hp : (c.node a).parent = none) : ¬c.descends a b = true := by
  rw [hc.descends_iff_parent, hp]
  rintro ⟨p, h, -⟩
  cases h

theorem lt_of_descends (h : c.descends a b = true) : b < a := by
  induction a using Nat.strongRecOn with
  | ind a ih =>
    obtain ⟨p, hp, hw⟩ := hc.descends_iff_parent.1 h
    have hlt := hc.parent_lt hp
    rcases hw with rfl | hw
    · exact hlt
    · exact Nat.lt_trans (ih p hlt hw) hlt

theorem le_of_within (h : c.Within a b) : b ≤ a := by
  rcases h with rfl | h
  · exact Nat.le_refl a
  · exact Nat.le_of_lt (hc.lt_of_descends h)

theorem ne_of_descends (h : c.descends a b = true) : a ≠ b := by
  rintro rfl
  exact Nat.lt_irrefl a (hc.lt_of_descends h)

/-- Nothing that a node lies below lies within it. -/
theorem not_within_of_descends (h : c.descends a b = true) : ¬c.Within b a := fun hw =>
  Nat.not_lt.2 (hc.le_of_within hw) (hc.lt_of_descends h)

theorem descends_of_descends_within (h : c.descends a b = true) (h' : c.Within b d) :
    c.descends a d = true := by
  induction a using Nat.strongRecOn with
  | ind a ih =>
    obtain ⟨p, hp, hw⟩ := hc.descends_iff_parent.1 h
    refine hc.descends_iff_parent.2 ⟨p, hp, ?_⟩
    rcases hw with rfl | hw
    · exact h'
    · exact .inr (ih p (hc.parent_lt hp) hw)

theorem within_trans (h : c.Within a b) (h' : c.Within b d) : c.Within a d := by
  rcases h with rfl | h
  · exact h'
  · exact .inr (hc.descends_of_descends_within h h')

theorem descends_of_within_descends (h : c.Within a b) (h' : c.descends b d = true) :
    c.descends a d = true := by
  rcases h with rfl | h
  · exact h'
  · exact hc.descends_of_descends_within h (.inr h')

theorem within_antisymm (h : c.Within a b) (h' : c.Within b a) : a = b :=
  Nat.le_antisymm (hc.le_of_within h') (hc.le_of_within h)

theorem lt_size_of_descends (h : c.descends a b = true) : a < c.nodes.size := by
  obtain ⟨p, hp, -⟩ := hc.descends_iff_parent.1 h
  exact lt_size_of_parent hp

/-- Of two nodes above a third one lies above the other. -/
theorem comparable (h : c.Within a b) (h' : c.Within a d) : c.Within b d ∨ c.Within d b := by
  induction a using Nat.strongRecOn with
  | ind a ih =>
    rcases h with rfl | h
    · exact .inl h'
    rcases h' with rfl | h'
    · exact .inr (.inr h)
    obtain ⟨p, hp, hw⟩ := hc.descends_iff_parent.1 h
    exact ih p (hc.parent_lt hp) hw ((hc.descends_iff_within hp).1 h')

/-- Every node lies within one at the top. -/
theorem exists_top (n : NodeId) : ∃ r, c.Within n r ∧ (c.node r).parent = none := by
  induction n using Nat.strongRecOn with
  | ind n ih =>
    cases hp : (c.node n).parent with
    | none => exact ⟨n, .refl n, hp⟩
    | some p =>
      obtain ⟨r, hw, hr⟩ := ih p (hc.parent_lt hp)
      exact ⟨r, hc.within_trans (.inr (hc.descends_parent hp)) hw, hr⟩

/-- What lies below a node lies within one of its children. -/
theorem exists_child (h : c.descends a b = true) :
    ∃ m, (c.node m).parent = some b ∧ c.Within a m := by
  induction a using Nat.strongRecOn with
  | ind a ih =>
    obtain ⟨p, hp, hw⟩ := hc.descends_iff_parent.1 h
    rcases hw with rfl | hw
    · exact ⟨a, hp, .refl a⟩
    · obtain ⟨m, hm, hwm⟩ := ih p (hc.parent_lt hp) hw
      exact ⟨m, hm, .inr (hc.descends_iff_parent.2 ⟨p, hp, hwm⟩)⟩

/-- Nothing lies below a history. -/
theorem not_history_of_descends (h : c.descends a b = true) : (c.node b).isHistory = false := by
  obtain ⟨m, hm, -⟩ := hc.exists_child h
  exact hc.parent_state hm

/-- A state with states below it has them among its children. -/
theorem exists_state_child (h : c.descends a b = true) (ha : (c.node a).isHistory = false) :
    ∃ m ∈ (c.node b).children, c.Within a m := by
  obtain ⟨m, hm, hw⟩ := hc.exists_child h
  refine ⟨m, hc.mem_children.2 ⟨hm, ?_⟩, hw⟩
  rcases hw with rfl | hw
  · exact ha
  · exact hc.not_history_of_descends hw

/-- Nothing but itself lies within a leaf, histories apart. -/
theorem eq_of_within_atomic (h : c.Within a b) (hb : (c.node b).isAtomic = true)
    (ha : (c.node a).isHistory = false) : a = b := by
  rcases h with rfl | h
  · rfl
  · obtain ⟨m, hm, -⟩ := hc.exists_state_child h ha
    have hne : (c.node b).children = [] := by
      cases hk : (c.node b).kind <;> simp [Node.isAtomic, hk] at hb
      · exact hb
      · exact ((hc.shaped b).final (by simp [Node.isFinal, hk])).1
    rw [hne] at hm
    cases hm

/-- A node lies within one of the nodes with the same parent only. -/
theorem eq_of_within (hp : (c.node m).parent = (c.node n).parent) (hm : c.Within a m)
    (hn : c.Within a n) : m = n := by
  -- were one below the other, its parent would be so too
  have absurd_of {x y : NodeId} (hp : (c.node x).parent = (c.node y).parent)
      (h : c.descends x y = true) : False := by
    obtain ⟨p, hx, hw⟩ := hc.descends_iff_parent.1 h
    exact Nat.not_lt.2 (hc.le_of_within hw) (hc.parent_lt (hp ▸ hx))
  rcases hc.comparable hm hn with (h | h) | (h | h)
  · exact h
  · exact (absurd_of hp h).elim
  · exact h.symm
  · exact (absurd_of hp.symm h).elim

/-- Whoever has a parent other than a node it lies within has a parent within that node. -/
theorem parent_within (h : c.Within a b) (hne : a ≠ b) (hp : (c.node a).parent = some p) :
    c.Within p b :=
  (hc.descends_iff_within hp).1 (h.resolve_left hne)

/-- What comes behind a node among someone's ancestors are the node's own. -/
theorem ancestors_of_append : ∀ {as bs : List NodeId} {a : NodeId},
    (c.node a).ancestors = as ++ m :: bs → (c.node m).ancestors = bs
  | as, bs, a, h => by
    cases hp : (c.node a).parent with
    | none =>
      rw [hc.ancestors_none hp] at h
      simp at h
    | some p =>
      rw [hc.ancestors_some hp] at h
      cases as with
      | nil =>
        obtain ⟨rfl, rfl⟩ := List.cons.inj h
        rfl
      | cons x as =>
        obtain ⟨-, h⟩ := List.cons.inj h
        exact ancestors_of_append h

/-- The first ancestor of a node that another lies below is the innermost node that both lie below. -/
theorem innermost_of_find? {meet : NodeId}
    (hf : (c.node a).ancestors.find? (c.descends b ·) = some meet) :
    c.descends a meet = true ∧ c.descends b meet = true ∧
      ∀ {q}, c.descends a q = true → c.descends b q = true → c.Within meet q := by
  obtain ⟨hbm, as, bs, hsplit, hfirst⟩ := List.find?_eq_some_iff_append.1 hf
  refine ⟨descends_iff.2 (by rw [hsplit]; simp), hbm, fun {q} ha hb => ?_⟩
  rw [descends_iff, hsplit, List.mem_append, List.mem_cons] at ha
  rcases ha with ha | rfl | ha
  · have := hfirst q ha
    simp [hb] at this
  · exact .refl q
  · refine .inr (descends_iff.2 ?_)
    rw [hc.ancestors_of_append hsplit]
    exact ha

/-- The check that two targets can be active together, read in the tree. -/
theorem apart_of_compatible (hne : a ≠ b) (h : c.nodes.compatible a b = true) : c.Apart a b := by
  unfold NodeTable.compatible at h
  simp only [Bool.and_eq_true, Bool.not_eq_true'] at h
  obtain ⟨⟨hab, hba⟩, hmeet⟩ := h
  have hab : ¬c.Within a b := fun h => h.elim hne fun h => by simp [descends, hab] at h
  have hba : ¬c.Within b a := fun h => h.elim (hne ∘ Eq.symm) fun h => by simp [descends, hba] at h
  refine ⟨hab, hba, ?_⟩
  split at hmeet
  case h_2 => cases hmeet
  rename_i meet hf
  obtain ⟨ham, hbm, innermost⟩ := hc.innermost_of_find? hf
  intro m n hr hm hn
  have below : c.Within meet m → m = n := fun h =>
    hc.eq_of_within hr.1 (.inr (hc.descends_of_descends_within hbm h)) hn
  rcases hc.comparable (.inr ham) hm with h | h | h
  · exact below h
  · exact below (.inl h.symm)
  · -- the meet lies above the rivals, so it is their parent at the innermost
    obtain ⟨p, hp, hw⟩ := hc.descends_iff_parent.1 h
    have hap := hc.descends_of_within_descends hm (hc.descends_parent hp)
    have hbp := hc.descends_of_within_descends hn (hc.descends_parent (hr.1 ▸ hp))
    have hcomp := hr.2 p hp
    rw [hc.within_antisymm hw (innermost hap hbp)] at hcomp
    have hkind : (c.node meet).isParallel = true := hmeet
    cases hk : (c.node meet).kind <;> simp [Node.isCompound, Node.isParallel, hk] at hcomp hkind

/-- The targets of a transition can be active together. -/
theorem apart_targets (t : TransitionId) : (c.transition t).targets.Pairwise c.Apart :=
  (hc.targets_nodup t).imp₂ (fun _ _ => hc.apart_of_compatible) (hc.compatible t)

end WellFormed
end Statechart.Chart
