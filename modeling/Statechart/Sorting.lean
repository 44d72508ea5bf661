/-! Stable sorting by a key.

    Elements are inserted from the right, each in front of the first one that does not come before it,
    so elements with equal keys keep their order. -/

namespace Statechart

variable {α : Type}

/-- Puts an element in front of the first one that need not come before it. -/
def insertBefore (le : α → α → Bool) (a : α) : List α → List α
  | [] => [a]
  | b :: bs => if le a b then a :: b :: bs else b :: insertBefore le a bs

/-- Sorts a list, keeping the order of elements that may stand either way. -/
def stableSort (le : α → α → Bool) : List α → List α
  | [] => []
  | a :: as => insertBefore le a (stableSort le as)

theorem insertBefore_perm (le : α → α → Bool) (a : α) (as : List α) :
    (insertBefore le a as).Perm (a :: as) := by
  induction as with
  | nil => exact .refl _
  | cons b bs ih =>
    simp only [insertBefore]
    split
    · exact .refl _
    · exact (ih.cons b).trans (.swap a b bs)

/-- Sorting only reorders. -/
theorem stableSort_perm (le : α → α → Bool) (as : List α) : (stableSort le as).Perm as := by
  induction as with
  | nil => exact .refl _
  | cons a as ih => exact (insertBefore_perm le a _).trans (ih.cons a)

@[simp] theorem mem_stableSort {le : α → α → Bool} {a : α} {as : List α} :
    a ∈ stableSort le as ↔ a ∈ as := (stableSort_perm le as).mem_iff

theorem pairwise_insertBefore {le : α → α → Bool} (total : ∀ a b, le a b = true ∨ le b a = true)
    (trans : ∀ a b c, le a b = true → le b c = true → le a c = true) (a : α) {as : List α}
    (h : as.Pairwise fun x y => le x y = true) :
    (insertBefore le a as).Pairwise fun x y => le x y = true := by
  induction as with
  | nil => simp [insertBefore]
  | cons b bs ih =>
    obtain ⟨hb, hbs⟩ := List.pairwise_cons.1 h
    simp only [insertBefore]
    split
    · rename_i hab
      refine List.pairwise_cons.2 ⟨fun c hc => ?_, h⟩
      rcases List.mem_cons.1 hc with rfl | hc
      · exact hab
      · exact trans _ _ _ hab (hb c hc)
    · rename_i hab
      refine List.pairwise_cons.2 ⟨fun c hc => ?_, ih hbs⟩
      rcases List.mem_cons.1 ((insertBefore_perm le a bs).mem_iff.1 hc) with rfl | hc
      · exact (total c b).resolve_left hab
      · exact hb c hc

/-- Sorting by a total and transitive relation gives a sorted list. -/
theorem pairwise_stableSort {le : α → α → Bool} (total : ∀ a b, le a b = true ∨ le b a = true)
    (trans : ∀ a b c, le a b = true → le b c = true → le a c = true) (as : List α) :
    (stableSort le as).Pairwise fun x y => le x y = true := by
  induction as with
  | nil => simp [stableSort]
  | cons a as ih => exact pairwise_insertBefore total trans a ih

/-- Sorting by a number, the smallest first. -/
theorem pairwise_stableSort_le (key : α → Nat) (as : List α) :
    (stableSort (fun a b => decide (key a ≤ key b)) as).Pairwise fun a b => key a ≤ key b := by
  refine (pairwise_stableSort ?_ ?_ as).imp fun h => by simpa using h
  · intro a b
    simpa using Nat.le_total _ _
  · intro a b c hab hbc
    simp only [decide_eq_true_eq] at hab hbc ⊢
    exact Nat.le_trans hab hbc

/-- Sorting by a number, the largest first. -/
theorem pairwise_stableSort_ge (key : α → Nat) (as : List α) :
    (stableSort (fun a b => decide (key b ≤ key a)) as).Pairwise fun a b => key b ≤ key a := by
  refine (pairwise_stableSort ?_ ?_ as).imp fun h => by simpa using h
  · intro a b
    simpa using Nat.le_total _ _
  · intro a b c hab hbc
    simp only [decide_eq_true_eq] at hab hbc ⊢
    exact Nat.le_trans hbc hab

end Statechart
