import Statechart.Journal

/-! Who listens to what.

    Listeners are registered under observables, those of the chart under zero. A listener is registered
    under an observable at most once, and listeners are told in the order of their registration: each of
    them once for a notice, and nobody else. -/

namespace Statechart

/-- The listeners of every observable. -/
abbrev Listeners := Dict Nat (List Listener)

namespace Listeners

/-- The observable of the chart itself. -/
def chart : Nat := 0

/-- The listeners of an observable. -/
def of (observable : Nat) (ls : Listeners) : List Listener := (Dict.get? observable ls).getD []

/-- Registers a listener; registering it again changes nothing. -/
def add (observable : Nat) (l : Listener) (ls : Listeners) : Listeners :=
  if (ls.of observable).contains l then ls else Dict.insert observable (ls.of observable ++ [l]) ls

/-- Takes a listener out. -/
def remove (observable : Nat) (l : Listener) (ls : Listeners) : Listeners :=
  match (ls.of observable).filter fun k => decide (k ≠ l) with
  | [] => Dict.erase observable ls
  | rest => Dict.insert observable rest ls

/-- How many listeners an observable has. -/
def count (observable : Nat) (ls : Listeners) : Nat := (ls.of observable).length

/-- What a notice to the listeners of an observable adds to the journal. -/
def tell (observable : Nat) (notice : Notice) (ls : Listeners) : List Entry :=
  (ls.of observable).map fun l => .noticed l notice

/-- Whether nobody is registered twice under one observable. -/
def Distinct (ls : Listeners) : Prop := ∀ observable, (ls.of observable).Nodup

variable {observable other : Nat} {l k : Listener} {ls : Listeners}

/-! ### Registering -/

@[simp] theorem of_insert_self (observable : Nat) (l : List Listener) (ls : Listeners) :
    of observable (Dict.insert observable l ls) = l := by simp [of]

@[simp] theorem of_erase_self (observable : Nat) (ls : Listeners) :
    of observable (Dict.erase observable ls) = [] := by simp [of, Dict.get?_erase_self]

theorem of_add_of_ne (h : other ≠ observable) : (ls.add observable l).of other = ls.of other := by
  unfold add
  split
  · rfl
  · rw [of, Dict.get?_insert_of_ne h, ← of]

theorem of_remove (observable : Nat) (l : Listener) (ls : Listeners) :
    (ls.remove observable l).of observable = (ls.of observable).filter fun k => decide (k ≠ l) := by
  unfold remove
  split
  · rename_i h
    rw [of_erase_self, h]
  · rw [of_insert_self]

theorem of_remove_of_ne (h : other ≠ observable) :
    (ls.remove observable l).of other = ls.of other := by
  unfold remove
  split
  · rw [of, Dict.get?_erase_of_ne h, ← of]
  · rw [of, Dict.get?_insert_of_ne h, ← of]

theorem mem_of_add : k ∈ (ls.add observable l).of observable ↔ k = l ∨ k ∈ ls.of observable := by
  unfold add
  split
  · rename_i h
    have hl : l ∈ ls.of observable := by simpa using h
    exact ⟨Or.inr, fun hk => hk.elim (fun e => e ▸ hl) id⟩
  · rw [of_insert_self, List.mem_append, List.mem_singleton, or_comm]

theorem mem_of_remove :
    k ∈ (ls.remove observable l).of observable ↔ k ∈ ls.of observable ∧ k ≠ l := by
  rw [of_remove, List.mem_filter, decide_eq_true_iff]

theorem distinct_nil : Distinct [] := fun _ => .nil

theorem Distinct.add (h : ls.Distinct) (observable : Nat) (l : Listener) :
    (ls.add observable l).Distinct := by
  intro other
  by_cases ho : other = observable
  · subst ho
    unfold Listeners.add
    split
    · exact h other
    · rename_i hnew
      rw [of_insert_self]
      refine List.nodup_append.2 ⟨h other, List.pairwise_singleton _ _, ?_⟩
      rintro k hk _ hl rfl
      exact hnew (by simpa using List.mem_singleton.1 hl ▸ hk)
  · rw [of_add_of_ne ho]
    exact h other

theorem Distinct.remove (h : ls.Distinct) (observable : Nat) (l : Listener) :
    (ls.remove observable l).Distinct := by
  intro other
  by_cases ho : other = observable
  · subst ho
    rw [of_remove]
    exact (h other).filter _
  · rw [of_remove_of_ne ho]
    exact h other

/-! ### Telling -/

/-- A listener is told of a notice as often as it is registered under the observable. -/
theorem heard_tell (l : Listener) (observable : Nat) (notice : Notice) (ls : Listeners) :
    (ls.tell observable notice).filterMap (Entry.heard? l) =
      List.replicate ((ls.of observable).count l) notice := by
  unfold tell
  induction ls.of observable with
  | nil => rfl
  | cons k ks ih =>
    by_cases h : k = l
    · simp [Entry.heard?, h, ih, List.replicate_succ]
    · simp [Entry.heard?, h, ih]

/-- For a notice everyone who is registered under the observable gets one entry, in the order of
    registration, and nobody else gets any. -/
theorem Distinct.heard_tell (h : ls.Distinct) (observable : Nat) (notice : Notice) :
    (ls.tell observable notice).length = ls.count observable ∧ ∀ l,
      (ls.tell observable notice).filterMap (Entry.heard? l) =
        if l ∈ ls.of observable then [notice] else [] := by
  refine ⟨List.length_map _, fun l => ?_⟩
  rw [Listeners.heard_tell, (h observable).count]
  split <;> rfl

end Listeners
end Statechart
