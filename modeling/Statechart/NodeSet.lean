/-! Sets of small numbers as increasing lists.

    States, transitions and processes are named by their index in the chart, so a set of them is an
    increasing list of indices and walking the list walks the set in that order. -/

namespace Statechart

/-- A set of indices, as an increasing list. -/
abbrev NodeSet := List Nat

namespace NodeSet

/-- Adds an index. -/
def insert (n : Nat) : NodeSet → NodeSet
  | [] => [n]
  | m :: s => if n = m then m :: s else if n < m then n :: m :: s else m :: insert n s

/-- Adds every index of a list. -/
def insertAll (s : NodeSet) (ns : List Nat) : NodeSet := ns.foldl (fun s n => insert n s) s

/-- The set of the indices of a list. -/
def ofList (ns : List Nat) : NodeSet := insertAll [] ns

/-- Takes an index out. -/
def erase (n : Nat) (s : NodeSet) : NodeSet := s.filter fun m => decide (m ≠ n)

/-- Takes every index of a list out. -/
def eraseAll (s : NodeSet) (ns : List Nat) : NodeSet := s.filter fun m => !ns.contains m

/-- Whether no index lies in both sets. -/
def disjoint (s t : NodeSet) : Bool := s.all fun n => !t.contains n

@[simp] theorem mem_insert {n m : Nat} {s : NodeSet} : m ∈ insert n s ↔ m = n ∨ m ∈ s := by
  induction s with
  | nil => simp [insert]
  | cons k s ih =>
    simp only [insert]
    split
    · rename_i h
      subst h
      simp
    · split
      · simp
      · simp only [List.mem_cons, ih]
        exact or_left_comm

@[simp] theorem mem_insertAll {m : Nat} {ns : List Nat} :
    ∀ {s : NodeSet}, m ∈ insertAll s ns ↔ m ∈ s ∨ m ∈ ns := by
  induction ns with
  | nil => simp [insertAll]
  | cons n ns ih =>
    intro s
    have : insertAll s (n :: ns) = insertAll (insert n s) ns := rfl
    rw [this, ih, mem_insert, List.mem_cons, or_assoc, or_left_comm]

@[simp] theorem mem_ofList {m : Nat} {ns : List Nat} : m ∈ ofList ns ↔ m ∈ ns := by
  simp [ofList]

@[simp] theorem mem_erase {n m : Nat} {s : NodeSet} : m ∈ erase n s ↔ m ∈ s ∧ m ≠ n := by
  simp [erase]

@[simp] theorem mem_eraseAll {m : Nat} {s : NodeSet} {ns : List Nat} :
    m ∈ eraseAll s ns ↔ m ∈ s ∧ m ∉ ns := by
  simp [eraseAll]

theorem eraseAll_cons {n : Nat} {s : NodeSet} {ns : List Nat} :
    eraseAll s (n :: ns) = eraseAll (erase n s) ns := by
  rw [eraseAll, eraseAll, erase, List.filter_filter]
  exact List.filter_congr fun m _ => by simp [Bool.and_comm]

theorem disjoint_iff {s t : NodeSet} : disjoint s t = true ↔ ∀ n ∈ s, n ∉ t := by
  simp [disjoint]

/-- Insertion keeps a list strictly increasing. -/
theorem pairwise_insert {n : Nat} {s : NodeSet} (h : s.Pairwise (· < ·)) :
    (insert n s).Pairwise (· < ·) := by
  induction s with
  | nil => simp [insert]
  | cons m s ih =>
    obtain ⟨hm, hs⟩ := List.pairwise_cons.1 h
    simp only [insert]
    split
    · exact h
    · split
      · rename_i hlt
        refine List.pairwise_cons.2 ⟨fun k hk => ?_, h⟩
        rcases List.mem_cons.1 hk with rfl | hk
        · exact hlt
        · exact Nat.lt_trans hlt (hm k hk)
      · refine List.pairwise_cons.2 ⟨fun k hk => ?_, ih hs⟩
        rcases mem_insert.1 hk with rfl | hk
        · omega
        · exact hm k hk

theorem pairwise_insertAll {ns : List Nat} :
    ∀ {s : NodeSet}, s.Pairwise (· < ·) → (insertAll s ns).Pairwise (· < ·) := by
  induction ns with
  | nil => exact id
  | cons n ns ih => exact fun h => ih (pairwise_insert h)

theorem pairwise_ofList (ns : List Nat) : (ofList ns).Pairwise (· < ·) :=
  pairwise_insertAll List.Pairwise.nil

/-- A set whose only element is `n`. -/
theorem eq_singleton {n : Nat} {s : NodeSet} (hd : s.Nodup) (hn : n ∈ s) (hall : ∀ m ∈ s, m = n) :
    s = [n] := by
  match s, hn, hall, hd with
  | [m], _, hall, _ => rw [hall m (by simp)]
  | m :: k :: s, _, hall, hd =>
    refine absurd ?_ (List.nodup_cons.1 hd).1
    rw [hall m (by simp), hall k (by simp)]
    exact List.mem_cons_self

theorem nodup_of_pairwise {s : NodeSet} (h : s.Pairwise (· < ·)) : s.Nodup := h.imp Nat.ne_of_lt

end NodeSet
end Statechart
