import Mathlib.Data.List.Pairwise
import Statechart.Proofs.Tree
import Statechart.Step.Entry

/-! Sets of states that branch as configurations do.

    A set covers a node if something in it lies within the node. A configuration is a set of states
    that is closed upward and in which every compound state has one covered child and every parallel one
    all of them; sets that are still being built are judged by what they cover, since filling in the
    states between does not change that. -/

namespace Statechart

namespace Chart

variable {c : Chart} {E E' : NodeSet} {a b m n t u : NodeId}

/-- Whether a set holds something within a node. -/
def Covers (c : Chart) (E : NodeSet) (n : NodeId) : Prop := ∃ x ∈ E, c.Within x n

/-- Whether a state has its share of covered children: a compound one some, a parallel one all. -/
structure Complete (c : Chart) (E : NodeSet) (n : NodeId) : Prop where
  lt : n < c.nodes.size
  state : (c.node n).isHistory = false
  compound : (c.node n).isCompound = true → ∃ m ∈ (c.node n).children, c.Covers E m
  parallel : (c.node n).isParallel = true → ∀ m ∈ (c.node n).children, c.Covers E m

/-- Whether no two rivals are covered. -/
def Tidy (c : Chart) (E : NodeSet) : Prop :=
  ∀ {m n}, c.Rivals m n → c.Covers E m → c.Covers E n → m = n

/-- Whether nothing within a node is in a set yet, nor within a rival of what contains the node. -/
structure Fits (c : Chart) (E : NodeSet) (n : NodeId) : Prop where
  fresh : ¬c.Covers E n
  rivals : ∀ {m k}, c.Rivals m k → c.Within n m → c.Covers E k → m = k

theorem Covers.of_mem (h : n ∈ E) : c.Covers E n := ⟨n, h, .refl n⟩

theorem Covers.mono (h : ∀ x ∈ E, x ∈ E') (hE : c.Covers E n) : c.Covers E' n := by
  obtain ⟨x, hx, hw⟩ := hE
  exact ⟨x, h x hx, hw⟩

theorem Complete.mono (h : ∀ x ∈ E, x ∈ E') (hE : c.Complete E n) : c.Complete E' n where
  lt := hE.lt
  state := hE.state
  compound hn := by
    obtain ⟨m, hm, hE⟩ := hE.compound hn
    exact ⟨m, hm, hE.mono h⟩
  parallel hn m hm := (hE.parallel hn m hm).mono h

theorem covers_insert : c.Covers (NodeSet.insert a E) n ↔ c.Within a n ∨ c.Covers E n := by
  simp [Covers, or_and_right, exists_or]

namespace WellFormed

variable (hc : c.WellFormed)

include hc

theorem Covers.up (h : c.Covers E a) (hw : c.Within a b) : c.Covers E b := by
  obtain ⟨x, hx, hxa⟩ := h
  exact ⟨x, hx, hc.within_trans hxa hw⟩

/-- What lies above a member of a set adds nothing to what the set covers. -/
theorem covers_insert_of_covers (h : c.Covers E a) :
    c.Covers (NodeSet.insert a E) n ↔ c.Covers E n :=
  covers_insert.trans ⟨fun h' => h'.elim (Covers.up hc h) id, .inr⟩

theorem tidy_insert_of_covers (h : c.Covers E a) (hE : c.Tidy E) : c.Tidy (NodeSet.insert a E) :=
  fun hr hm hn =>
    hE hr ((hc.covers_insert_of_covers h).1 hm) ((hc.covers_insert_of_covers h).1 hn)

/-- A node that fits can be added. -/
theorem tidy_insert (h : c.Fits E n) (hE : c.Tidy E) : c.Tidy (NodeSet.insert n E) := by
  intro m k hr hm hk
  rcases covers_insert.1 hm with hm | hm
  · rcases covers_insert.1 hk with hk | hk
    · exact hc.eq_of_within hr.1 hm hk
    · exact h.rivals hr hm hk
  · rcases covers_insert.1 hk with hk | hk
    · have hr' : c.Rivals k m := ⟨hr.1.symm, fun p hp => hr.2 p (hr.1.trans hp)⟩
      exact (h.rivals hr' hk hm).symm
    · exact hE hr hm hk

/-- What lies below a node that fits does too. -/
theorem fits_of_descends (h : c.Fits E n) (ht : c.descends t n = true) : c.Fits E t where
  fresh hE := h.fresh (Covers.up hc hE (.inr ht))
  rivals {m k} hr hm hk := by
    rcases hc.comparable (.inr ht) hm with hn | hn
    · exact h.rivals hr hn hk
    · by_cases e : m = n
      · exact h.rivals hr (.inl e.symm) hk
      · -- the parent of the rivals lies within the node, and so does the covered one
        obtain ⟨p, hp, hw⟩ := hc.descends_iff_parent.1 (hn.resolve_left e)
        have hkp : (c.node k).parent = some p := hr.1 ▸ hp
        exact absurd (Covers.up hc hk (hc.within_trans (.inr (hc.descends_parent hkp)) hw)) h.fresh

/-- What lies below a node that fits does too once the node is there. -/
theorem fits_insert (h : c.Fits E n) (ht : c.descends t n = true) :
    c.Fits (NodeSet.insert n E) t where
  fresh hE := by
    rcases covers_insert.1 hE with hw | hE
    · exact Nat.not_lt.2 (hc.le_of_within hw) (hc.lt_of_descends ht)
    · exact (hc.fits_of_descends h ht).fresh hE
  rivals {m k} hr hm hk := by
    rcases covers_insert.1 hk with hk | hk
    · exact hc.eq_of_within hr.1 hm (.inr (hc.descends_of_descends_within ht hk))
    · exact (hc.fits_of_descends h ht).rivals hr hm hk

/-- A node still fits after something apart from it was entered. -/
theorem fits_of_growth (h : c.Fits E u) (hE : ∀ x ∈ E', x ∈ E ∨ c.Within x t) (ha : c.Apart t u) :
    c.Fits E' u where
  fresh := by
    rintro ⟨x, hx, hw⟩
    rcases hE x hx with hx | hx
    · exact h.fresh ⟨x, hx, hw⟩
    · exact (hc.comparable hx hw).elim ha.left ha.right
  rivals {m k} hr hm := by
    rintro ⟨x, hx, hw⟩
    rcases hE x hx with hx | hx
    · exact h.rivals hr hm ⟨x, hx, hw⟩
    have hr' : c.Rivals k m := ⟨hr.1.symm, fun p hp => hr.2 p (hr.1.trans hp)⟩
    rcases hc.comparable hx hw with ht | ht
    · exact (ha.rivals hr' ht hm).symm
    · by_cases e : k = t
      · exact (ha.rivals hr' (.inl e.symm) hm).symm
      · obtain ⟨p, hp, hwp⟩ := hc.descends_iff_parent.1 (ht.resolve_left e)
        have hmp : (c.node m).parent = some p := hr.1.trans hp
        exact absurd (hc.within_trans hm (hc.within_trans (.inr (hc.descends_parent hmp)) hwp)) ha.right

/-- A region of an entered parallel state fits as long as nothing in it is entered. -/
theorem fits_region (hE : c.Tidy E) (ha : a ∈ E) (hp : (c.node a).isParallel = true)
    (hm : (c.node m).parent = some a) (hf : ¬c.Covers E m) : c.Fits E m where
  fresh := hf
  rivals {k l} hr hk hl := by
    have hne : m ≠ k := by
      rintro rfl
      have := hr.2 a hm
      cases hkind : (c.node a).kind <;> simp [Node.isCompound, Node.isParallel, hkind] at this hp
    exact hE hr ⟨a, ha, hc.parent_within hk hne hm⟩ hl

end WellFormed

/-- Apartness does not depend on the order. -/
theorem Apart.symm (h : c.Apart a b) : c.Apart b a where
  left := h.right
  right := h.left
  rivals hr hm hn :=
    (h.rivals ⟨hr.1.symm, fun p hp => hr.2 p (hr.1.trans hp)⟩ hn hm).symm

instance : Std.Symm c.Apart := ⟨fun _ _ h => h.symm⟩

end Chart

/-- The plan's own test is whether its entries cover a node. -/
theorem EntryPlan.covers_iff {c : Chart} {n : NodeId} {p : EntryPlan} :
    p.covers c n = true ↔ c.Covers p.entry n := by
  simp [covers, Chart.Covers, Chart.Within]

end Statechart
