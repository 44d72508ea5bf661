/-! Finite maps as lists of pairs in increasing key order.

    `insert` keeps the order, so two maps built by insertions from the same bindings are equal lists,
    and a map can be printed by walking it. The laws of `get?` hold of every list of pairs, sorted or
    not, since `get?` answers with the first pair of a key and `insert` puts its pair in front of any
    later one. -/

namespace Statechart

/-- Bindings from keys to values, in increasing key order. -/
abbrev Dict (κ α : Type) := List (κ × α)

namespace Dict

variable {κ α : Type} [DecidableEq κ]

/-- The value bound to a key. -/
def get? (k : κ) : Dict κ α → Option α
  | [] => none
  | (k', a) :: d => if k = k' then some a else get? k d

/-- Whether a key is bound. -/
def has (k : κ) (d : Dict κ α) : Bool := (get? k d).isSome

/-- The keys in order. -/
def keys (d : Dict κ α) : List κ := d.map Prod.fst

/-- The map without a key. -/
def erase (k : κ) (d : Dict κ α) : Dict κ α := d.filter fun p => decide (p.1 ≠ k)

/-- Binds a key, replacing what was bound to it. -/
def insert [LT κ] [DecidableLT κ] (k : κ) (a : α) : Dict κ α → Dict κ α
  | [] => [(k, a)]
  | (k', a') :: d =>
    if k = k' then (k, a) :: d
    else if k < k' then (k, a) :: (k', a') :: d
    else (k', a') :: insert k a d

/-- Adds the bindings of a list from left to right, so the last one of a key wins. -/
def insertAll [LT κ] [DecidableLT κ] (d : Dict κ α) (bindings : List (κ × α)) : Dict κ α :=
  bindings.foldl (fun d p => insert p.1 p.2 d) d

/-- The map of a list of bindings, the last one of a key winning. -/
def ofList [LT κ] [DecidableLT κ] (bindings : List (κ × α)) : Dict κ α := insertAll [] bindings

@[simp] theorem get?_nil (k : κ) : get? k ([] : Dict κ α) = none := rfl

@[simp] theorem get?_insert_self [LT κ] [DecidableLT κ] (k : κ) (a : α) (d : Dict κ α) :
    get? k (insert k a d) = some a := by
  induction d with
  | nil => simp [insert, get?]
  | cons p d ih =>
    obtain ⟨k', a'⟩ := p
    simp only [insert]
    split
    · simp [get?]
    · split
      · simp [get?]
      · rename_i h _
        simp [get?, h, ih]

theorem get?_insert_of_ne [LT κ] [DecidableLT κ] {k k' : κ} (h : k' ≠ k) (a : α)
    (d : Dict κ α) : get? k' (insert k a d) = get? k' d := by
  induction d with
  | nil => simp [insert, get?, h]
  | cons p d ih =>
    obtain ⟨k'', a''⟩ := p
    simp only [insert]
    split
    · rename_i e
      subst e
      simp [get?, h]
    · split
      · simp [get?, h]
      · by_cases e : k' = k'' <;> simp [get?, e, ih]

theorem get?_erase_self (k : κ) (d : Dict κ α) : get? k (erase k d) = none := by
  induction d with
  | nil => rfl
  | cons p d ih =>
    obtain ⟨k', a⟩ := p
    by_cases e : k' = k
    · simpa [erase, e] using ih
    · have e' : ¬ k = k' := fun h => e h.symm
      simpa [erase, e, e', get?] using ih

theorem get?_erase_of_ne {k k' : κ} (h : k' ≠ k) (d : Dict κ α) :
    get? k' (erase k d) = get? k' d := by
  induction d with
  | nil => rfl
  | cons p d ih =>
    obtain ⟨k'', a⟩ := p
    by_cases e : k'' = k
    · subst e
      simpa [erase, get?, h] using ih
    · by_cases e' : k' = k''
      · simp [erase, e, get?, e']
      · simpa [erase, e, get?, e'] using ih

theorem mem_keys_insert [LT κ] [DecidableLT κ] {k k' : κ} {a : α} {d : Dict κ α} :
    k' ∈ keys (insert k a d) ↔ k' = k ∨ k' ∈ keys d := by
  induction d with
  | nil => simp [insert, keys]
  | cons p d ih =>
    obtain ⟨k'', a''⟩ := p
    simp only [insert]
    split
    · rename_i e
      subst e
      simp [keys]
    · split
      · simp [keys]
      · simp only [keys, List.map_cons, List.mem_cons] at ih ⊢
        rw [ih]
        exact or_left_comm

/-- Insertion keeps the keys strictly increasing, whatever the linear order of the keys is. -/
theorem pairwise_keys_insert [LT κ] [DecidableLT κ]
    (hlt : ∀ a b c : κ, a < b → b < c → a < c) (hne : ∀ a b : κ, a ≠ b → a < b ∨ b < a)
    {k : κ} {a : α} {d : Dict κ α} (h : (keys d).Pairwise (· < ·)) :
    (keys (insert k a d)).Pairwise (· < ·) := by
  induction d with
  | nil => simp [insert, keys]
  | cons p d ih =>
    obtain ⟨k', a'⟩ := p
    have hd : (keys ((k', a') :: d)) = k' :: keys d := rfl
    obtain ⟨hk', hs⟩ := List.pairwise_cons.1 (hd ▸ h)
    simp only [insert]
    split
    · rename_i e
      subst e
      exact h
    · rename_i e
      split
      · rename_i hk
        refine List.pairwise_cons.2 ⟨fun m hm => ?_, h⟩
        rcases List.mem_cons.1 hm with rfl | hm
        · exact hk
        · exact hlt _ _ _ hk (hk' m hm)
      · rename_i hk
        refine List.pairwise_cons.2 ⟨fun m hm => ?_, ih hs⟩
        rcases mem_keys_insert.1 hm with rfl | hm
        · exact (hne _ _ e).resolve_left hk
        · exact hk' m hm

/-- Names stay in order. -/
theorem sorted_insert {k : String} {a : α} {d : Dict String α} (h : (keys d).Pairwise (· < ·)) :
    (keys (insert k a d)).Pairwise (· < ·) := by
  refine pairwise_keys_insert (fun _ _ _ => String.lt_trans) (fun a b hne => ?_) h
  by_cases hab : a < b
  · exact .inl hab
  · by_cases hba : b < a
    · exact .inr hba
    · exact absurd (String.le_antisymm (String.not_lt.1 hba) (String.not_lt.1 hab)) hne

theorem has_iff {k : κ} {d : Dict κ α} : has k d = true ↔ k ∈ keys d := by
  induction d with
  | nil => simp [has, keys]
  | cons p d ih =>
    obtain ⟨k', a'⟩ := p
    by_cases e : k = k'
    · simp [has, get?, keys, e]
    · simpa [has, get?, keys, e] using ih

theorem get?_eq_none_iff {k : κ} {d : Dict κ α} : get? k d = none ↔ k ∉ keys d := by
  rw [← has_iff, has]
  simp

theorem erase_of_not_mem {k : κ} {d : Dict κ α} (h : k ∉ keys d) : erase k d = d := by
  refine List.filter_eq_self.2 fun p hp => ?_
  simp only [ne_eq, decide_eq_true_eq]
  rintro rfl
  exact h (List.mem_map_of_mem hp)

theorem mem_of_get? {k : κ} {a : α} {d : Dict κ α} (h : get? k d = some a) : (k, a) ∈ d := by
  induction d with
  | nil => cases h
  | cons p d ih =>
    obtain ⟨k', a'⟩ := p
    rw [get?] at h
    split at h
    · rename_i e
      cases h
      exact e ▸ List.mem_cons_self
    · exact List.mem_cons_of_mem _ (ih h)

theorem get?_of_mem {k : κ} {a : α} {d : Dict κ α} (hd : (keys d).Nodup) (h : (k, a) ∈ d) :
    get? k d = some a := by
  induction d with
  | nil => cases h
  | cons p d ih =>
    obtain ⟨k', a'⟩ := p
    obtain ⟨hk', hd⟩ := List.nodup_cons.1 hd
    rw [get?]
    rcases List.mem_cons.1 h with h | h
    · cases h
      exact if_pos rfl
    · have e : k ≠ k' := fun e => hk' (List.mem_map.2 ⟨(k, a), h, e⟩)
      rw [if_neg e, ih hd h]

theorem mem_of_mem_insert [LT κ] [DecidableLT κ] {k : κ} {a : α} {d : Dict κ α} {p : κ × α}
    (h : p ∈ insert k a d) : p = (k, a) ∨ p ∈ d := by
  induction d with
  | nil => exact .inl (List.mem_singleton.1 h)
  | cons q d ih =>
    obtain ⟨k', a'⟩ := q
    rw [insert] at h
    split at h
    · exact (List.mem_cons.1 h).imp_right (List.mem_cons_of_mem _)
    split at h
    · exact List.mem_cons.1 h
    · rcases List.mem_cons.1 h with h | h
      · exact .inr (h ▸ List.mem_cons_self)
      · exact (ih h).imp_right (List.mem_cons_of_mem _)

/-- What is bound in the end was so before or is one of the bindings added. -/
theorem mem_of_mem_insertAll [LT κ] [DecidableLT κ] {p : κ × α} : ∀ {bs : List (κ × α)}
    {d : Dict κ α}, p ∈ insertAll d bs → p ∈ d ∨ p ∈ bs
  | [], _, h => .inl h
  | b :: bs, d, h => by
    rcases mem_of_mem_insertAll (d := insert b.1 b.2 d) h with h | h
    · rcases mem_of_mem_insert h with rfl | h
      · exact .inr List.mem_cons_self
      · exact .inl h
    · exact .inr (List.mem_cons_of_mem _ h)

theorem mem_keys_insertAll [LT κ] [DecidableLT κ] {k : κ} : ∀ {bs : List (κ × α)} {d : Dict κ α},
    k ∈ keys (insertAll d bs) ↔ k ∈ keys d ∨ ∃ a, (k, a) ∈ bs
  | [], _ => by simp [insertAll]
  | b :: bs, d => by
    rw [insertAll, List.foldl_cons]
    refine (mem_keys_insertAll (d := insert b.1 b.2 d)).trans ?_
    rw [mem_keys_insert, or_comm (a := k = b.1), or_assoc]
    simp [exists_or, Prod.ext_iff]

/-- Binding a key anew adds one binding. -/
theorem insert_perm [LT κ] [DecidableLT κ] {k : κ} {a : α} {d : Dict κ α} (h : k ∉ keys d) :
    (insert k a d).Perm ((k, a) :: d) := by
  induction d with
  | nil => exact .refl _
  | cons p d ih =>
    obtain ⟨k', a'⟩ := p
    have hd : k ≠ k' ∧ k ∉ keys d := by simpa [keys] using h
    rw [insert, if_neg hd.1]
    split
    · exact .refl _
    · exact ((ih hd.2).cons _).trans (.swap _ _ _)

theorem insertAll_perm [LT κ] [DecidableLT κ] {bs : List (κ × α)} :
    ∀ {d : Dict κ α}, ((d ++ bs).map Prod.fst).Nodup → (insertAll d bs).Perm (d ++ bs) := by
  induction bs with
  | nil => exact fun _ => by simp [insertAll]
  | cons b bs ih =>
    intro d h
    have hb : b.1 ∉ keys d := fun hm => by
      rw [List.map_append, List.nodup_append] at h
      exact h.2.2 b.1 hm b.1 (by simp) rfl
    have hperm : (insert b.1 b.2 d ++ bs).Perm (d ++ b :: bs) :=
      ((insert_perm hb).append_right bs).trans List.perm_middle.symm
    exact (ih ((hperm.map Prod.fst).nodup_iff.2 h)).trans hperm

/-- A map of bindings with different keys has these bindings. -/
theorem ofList_perm [LT κ] [DecidableLT κ] {bs : List (κ × α)} (h : (bs.map Prod.fst).Nodup) :
    (ofList bs).Perm bs := insertAll_perm (d := []) h

/-- A map in order binds no name twice. -/
theorem nodup_of_sorted {d : Dict String α} (h : (keys d).Pairwise (· < ·)) : (keys d).Nodup := by
  refine List.Pairwise.imp ?_ h
  rintro a b hlt rfl
  exact String.lt_irrefl a hlt

/-- Binding a bound key anew keeps the keys, in a map that is in order. -/
theorem keys_insert_of_mem [LT κ] [DecidableLT κ] (hlt : ∀ a b : κ, a < b → ¬ b < a) {k : κ} {a : α}
    {d : Dict κ α} (hd : (keys d).Pairwise (· < ·)) (h : k ∈ keys d) :
    keys (insert k a d) = keys d := by
  induction d with
  | nil => cases h
  | cons p d ih =>
    obtain ⟨k', a'⟩ := p
    obtain ⟨hk', hd⟩ := List.pairwise_cons.1 hd
    rw [insert]
    split
    · rename_i e
      rw [e]
      rfl
    · rename_i hne
      have hk : k ∈ keys d := (List.mem_cons.1 h).resolve_left hne
      rw [if_neg (hlt _ _ (hk' k hk))]
      exact congrArg (k' :: ·) (ih hd hk)

/-- Bindings that are added hide those that were there. -/
theorem get?_insertAll [LT κ] [DecidableLT κ] {k : κ} : ∀ {bs : List (κ × α)} {d : Dict κ α},
    (keys bs).Nodup → get? k (insertAll d bs) = (get? k bs).or (get? k d)
  | [], _, _ => rfl
  | (k', a) :: bs, d, h => by
    obtain ⟨hk', hbs⟩ := List.nodup_cons.1 h
    have htail : get? k (insertAll d ((k', a) :: bs)) = (get? k bs).or (get? k (insert k' a d)) :=
      get?_insertAll hbs
    rw [htail, get?]
    split
    · rename_i e
      subst e
      rw [get?_eq_none_iff.2 hk', get?_insert_self, Option.none_or, Option.some_or]
    · rename_i hne
      rw [get?_insert_of_ne hne]

end Dict
end Statechart
