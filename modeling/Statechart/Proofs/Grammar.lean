import Statechart.Guard.Parser

/-! The grammar of expressions, and that the parser accepts exactly what it derives.

    Alternatives and conjuncts are runs of phrases with the operator between them, taken together from
    the left; a comparison has two primaries and is not chained; a negation reaches over a comparison.
    The parser takes the longest phrase that stands in front, so what it reads there is what the
    grammar derives unless the token behind could go on with the phrase. Its fuel is no part of the
    grammar: what a list of tokens needs is bounded by its length. -/

namespace Statechart.Guard

/-- The phrases of the grammar, from loose to tight. -/
inductive Phrase where
  | disjunction
  | conjunction
  | unary
  | comparison
  | primary

/-- The names that stand for no variable: the literal words and the whole scope. -/
def keywords : List String := ["true", "false", "null", "ctx"]

/-- Phrases with an operator in front of each. -/
def joined (o : Operator) (more : List (List Token × Expr)) : List Token :=
  more.flatMap fun p => .operator o :: p.1

/-- The tokens of a phrase and the expression that they write. -/
inductive Derives : Phrase → List Token → Expr → Prop where
  | disjunction {ts : List Token} {e : Expr} {more : List (List Token × Expr)}
      (first : Derives .conjunction ts e) (others : ∀ p ∈ more, Derives .conjunction p.1 p.2) :
      Derives .disjunction (ts ++ joined .or more) (more.foldl (fun l p => .or l p.2) e)
  | conjunction {ts : List Token} {e : Expr} {more : List (List Token × Expr)}
      (first : Derives .unary ts e) (others : ∀ p ∈ more, Derives .unary p.1 p.2) :
      Derives .conjunction (ts ++ joined .and more) (more.foldl (fun l p => .and l p.2) e)
  | negation {ts : List Token} {e : Expr} (inner : Derives .unary ts e) :
      Derives .unary (.operator .not :: ts) (.not e)
  | bare {ts : List Token} {e : Expr} (inner : Derives .comparison ts e) : Derives .unary ts e
  | comparison {ts us : List Token} {op : Comparison} {l r : Expr} (left : Derives .primary ts l)
      (right : Derives .primary us r) :
      Derives .comparison (ts ++ .operator (.comparison op) :: us) (.compare op l r)
  | single {ts : List Token} {e : Expr} (inner : Derives .primary ts e) : Derives .comparison ts e
  | group {ts : List Token} {e : Expr} (inner : Derives .disjunction ts e) :
      Derives .primary (.open :: ts ++ [.close]) e
  | text (s : String) : Derives .primary [.text s] (.literal (.string s))
  | number (n : Number) : Derives .primary [.number n] (.literal (.number n))
  | yes : Derives .primary [.name "true"] (.literal (.bool true))
  | no : Derives .primary [.name "false"] (.literal (.bool false))
  | null : Derives .primary [.name "null"] (.literal .null)
  | scope : Derives .primary [.name "ctx"] (.path [])
  | path {s : String} (free : s ∉ keywords) : Derives .primary [.name s] (.path (pathSegments s))

namespace Phrase

/-- The function that reads a phrase at the front of a list of tokens. -/
def parse : Phrase → (fuel : Nat) → List Token → Except Fault (Expr × List Token)
  | .disjunction => parseOr
  | .conjunction => parseAnd
  | .unary => parseUnary
  | .comparison => parseComparison
  | .primary => parsePrimary

/-- Whether a token behind a phrase could go on with it. -/
def GoesOn (p : Phrase) (t : Token) : Prop :=
  match p with
  | .disjunction => t = .operator .or ∨ t = .operator .and ∨ ∃ c, t = .operator (.comparison c)
  | .conjunction => t = .operator .and ∨ ∃ c, t = .operator (.comparison c)
  | .unary | .comparison => ∃ c, t = .operator (.comparison c)
  | .primary => False

/-- Whether a phrase ends where the given tokens begin. -/
def Ends (p : Phrase) (rest : List Token) : Prop := ∀ t ∈ rest.head?, ¬p.GoesOn t

/-- How many calls lie between a phrase and the next token at most. -/
def rank : Phrase → Nat
  | .disjunction => 5
  | .conjunction => 4
  | .unary => 3
  | .comparison => 2
  | .primary => 1

/-- The fuel with which a phrase is read out of so many tokens. -/
def need (p : Phrase) (length : Nat) : Nat := 6 * length + p.rank

end Phrase

theorem ofName_of_free {s : String} (h : s ∉ keywords) : Expr.ofName s = .path (pathSegments s) := by
  simp only [keywords, List.mem_cons, List.not_mem_nil, not_or] at h
  simp only [Expr.ofName, if_neg h.1, if_neg h.2.1, if_neg h.2.2.1, if_neg h.2.2.2.1]

/-- A name writes the expression that it stands for. -/
theorem derives_ofName (s : String) : Derives .primary [.name s] (Expr.ofName s) := by
  by_cases h : s ∈ keywords
  · simp only [keywords, List.mem_cons, List.not_mem_nil, or_false] at h
    rcases h with rfl | rfl | rfl | rfl
    · exact .yes
    · exact .no
    · exact .null
    · exact .scope
  · rw [ofName_of_free h]
    exact .path h

@[simp] theorem joined_cons (o : Operator) (p : List Token × Expr) (more : List (List Token × Expr)) :
    joined o (p :: more) = .operator o :: (p.1 ++ joined o more) := by simp [joined]

/-! ### Runs of phrases -/

/-- What reads a phrase at the front of a list of tokens with some fuel. -/
abbrev Reader := Nat → List Token → Except Fault (Expr × List Token)

/-- Whether a function reads a run of phrases: one phrase, and behind it as many as follow with an
    operator in front of them. -/
structure Runs (o : Operator) (join : Expr → Expr → Expr) (read : Reader)
    (loop : Nat → Expr → List Token → Except Fault (Expr × List Token)) (run : Reader) : Prop where
  first (fuel : Nat) (ts : List Token) :
    run (fuel + 1) ts =
      match read fuel ts with
      | .error f => .error f
      | .ok (l, ts) => loop fuel l ts
  exhausted (l : Expr) (ts : List Token) : loop 0 l ts = .error .exhausted
  more (fuel : Nat) (l : Expr) (ts : List Token) :
    loop (fuel + 1) l (.operator o :: ts) =
      match read fuel ts with
      | .error f => .error f
      | .ok (r, ts) => loop fuel (join l r) ts
  done (fuel : Nat) (l : Expr) (ts : List Token) (h : ts.head? ≠ some (.operator o)) :
    loop (fuel + 1) l ts = .ok (l, ts)

theorem runs_parseOr : Runs .or .or parseAnd parseOrTail parseOr where
  first fuel ts := by
    cases h : parseAnd fuel ts <;> simp only [parseOr, h]
  exhausted _ _ := by rw [parseOrTail]
  more fuel l ts := by
    cases h : parseAnd fuel ts <;> simp only [parseOrTail, h]
  done fuel l ts h := by
    rw [parseOrTail]
    rintro us rfl
    exact h rfl

theorem runs_parseAnd : Runs .and .and parseUnary parseAndTail parseAnd where
  first fuel ts := by
    cases h : parseUnary fuel ts <;> simp only [parseAnd, h]
  exhausted _ _ := by rw [parseAndTail]
  more fuel l ts := by
    cases h : parseUnary fuel ts <;> simp only [parseAndTail, h]
  done fuel l ts h := by
    rw [parseAndTail]
    rintro us rfl
    exact h rfl

/-! ### What is read is derived -/

/-- Whether a function reads only what the grammar derives. -/
def Sound (p : Phrase) (read : List Token → Except Fault (Expr × List Token)) : Prop :=
  ∀ ⦃ts e rest⦄, read ts = .ok (e, rest) → ∃ us, ts = us ++ rest ∧ Derives p us e

variable {p : Phrase} {o : Operator} {join : Expr → Expr → Expr} {read run : Reader}
  {loop : Nat → Expr → List Token → Except Fault (Expr × List Token)} {ts rest : List Token}
  {l e : Expr} {fuel : Nat}

theorem Runs.sound_loop (hl : Runs o join read loop run) :
    ∀ {fuel : Nat} {l : Expr} {ts : List Token}, (∀ f < fuel, Sound p (read f)) →
      loop fuel l ts = .ok (e, rest) →
        ∃ more, (∀ q ∈ more, Derives p q.1 q.2) ∧ ts = joined o more ++ rest ∧
          e = more.foldl (fun l q => join l q.2) l
  | 0, _, _, _, h => by
    rw [hl.exhausted] at h
    cases h
  | fuel + 1, l, ts, hread, h => by
    by_cases hhead : ts.head? = some (.operator o)
    case neg =>
      rw [hl.done fuel l ts hhead] at h
      cases h
      exact ⟨[], by simp, rfl, rfl⟩
    obtain ⟨us, rfl⟩ := List.head?_eq_some_iff.1 hhead
    rw [hl.more] at h
    split at h
    · cases h
    rename_i r vs hr
    obtain ⟨ws, rfl, hw⟩ := hread fuel (Nat.lt_succ_self _) hr
    obtain ⟨more, hall, rfl, rfl⟩ := hl.sound_loop (fun f hf => hread f (Nat.lt_succ_of_lt hf)) h
    refine ⟨(ws, r) :: more, ?_, by simp, rfl⟩
    rintro q (_ | ⟨_, hq⟩)
    · exact hw
    · exact hall q hq

theorem Runs.sound (hl : Runs o join read loop run) (hread : ∀ f ≤ fuel, Sound p (read f))
    (h : run (fuel + 1) ts = .ok (e, rest)) :
    ∃ us l more, ts = (us ++ joined o more) ++ rest ∧ Derives p us l ∧
      (∀ q ∈ more, Derives p q.1 q.2) ∧ e = more.foldl (fun l q => join l q.2) l := by
  rw [hl.first] at h
  split at h
  · cases h
  rename_i l vs hr
  obtain ⟨us, rfl, hu⟩ := hread fuel (Nat.le_refl _) hr
  obtain ⟨more, hall, rfl, rfl⟩ := hl.sound_loop (fun f hf => hread f (Nat.le_of_lt hf)) h
  exact ⟨us, l, more, (List.append_assoc ..).symm, hu, hall, rfl⟩

theorem sound_parseOr (hread : ∀ f ≤ fuel, Sound .conjunction (parseAnd f)) :
    Sound .disjunction (parseOr (fuel + 1)) := by
  intro ts e rest h
  obtain ⟨us, l, more, rfl, hus, hmore, rfl⟩ := runs_parseOr.sound hread h
  exact ⟨_, rfl, .disjunction hus hmore⟩

theorem sound_parseAnd (hread : ∀ f ≤ fuel, Sound .unary (parseUnary f)) :
    Sound .conjunction (parseAnd (fuel + 1)) := by
  intro ts e rest h
  obtain ⟨us, l, more, rfl, hus, hmore, rfl⟩ := runs_parseAnd.sound hread h
  exact ⟨_, rfl, .conjunction hus hmore⟩

/-- A unary phrase that does not begin with a negation is a comparison. -/
theorem parseUnary_of_head (h : ts.head? ≠ some (.operator .not)) :
    parseUnary (fuel + 1) ts = parseComparison fuel ts := by
  rw [parseUnary]
  rintro us rfl
  exact h rfl

theorem sound_parseUnary (hu : Sound .unary (parseUnary fuel))
    (hc : Sound .comparison (parseComparison fuel)) : Sound .unary (parseUnary (fuel + 1)) := by
  intro ts e rest h
  by_cases hhead : ts.head? = some (.operator .not)
  case neg =>
    rw [parseUnary_of_head hhead] at h
    obtain ⟨us, rfl, hus⟩ := hc h
    exact ⟨us, rfl, .bare hus⟩
  obtain ⟨vs, rfl⟩ := List.head?_eq_some_iff.1 hhead
  rw [parseUnary] at h
  split at h
  · cases h
  rename_i e' vs' hr
  cases h
  obtain ⟨us, rfl, hus⟩ := hu hr
  exact ⟨.operator .not :: us, rfl, .negation hus⟩

theorem sound_parseComparison (hp : Sound .primary (parsePrimary fuel)) :
    Sound .comparison (parseComparison (fuel + 1)) := by
  intro ts e rest h
  rw [parseComparison] at h
  split at h
  · cases h
  · rename_i l op vs hl
    obtain ⟨us, rfl, hus⟩ := hp hl
    split at h
    · cases h
    rename_i r vs' hr
    cases h
    obtain ⟨ws, rfl, hws⟩ := hp hr
    exact ⟨us ++ .operator (.comparison op) :: ws, by simp, .comparison hus hws⟩
  · rename_i l vs _ hl
    cases h
    obtain ⟨us, rfl, hus⟩ := hp hl
    exact ⟨us, rfl, .single hus⟩

theorem sound_parsePrimary (ho : Sound .disjunction (parseOr fuel)) :
    Sound .primary (parsePrimary (fuel + 1)) := by
  intro ts e rest h
  match ts, h with
  | [], h => cases h
  | .open :: vs, h =>
    rw [parsePrimary] at h
    split at h
    · cases h
    · rename_i e' vs' hr
      cases h
      obtain ⟨us, rfl, hus⟩ := ho hr
      exact ⟨.open :: us ++ [.close], by simp, .group hus⟩
    · cases h
  | .text s :: vs, h =>
    cases h
    exact ⟨[.text s], rfl, .text s⟩
  | .number n :: vs, h =>
    cases h
    exact ⟨[.number n], rfl, .number n⟩
  | .name s :: vs, h =>
    cases h
    exact ⟨[.name s], rfl, derives_ofName s⟩
  | .operator _ :: vs, h => cases h
  | .close :: vs, h => cases h

/-- What the parser reads as a phrase the grammar derives as one. -/
theorem sound_parse (fuel : Nat) : ∀ p : Phrase, Sound p (p.parse fuel) := by
  induction fuel using Nat.strongRecOn with
  | ind fuel ih =>
  cases fuel with
  | zero => intro p ts e rest h; cases p <;> cases h
  | succ fuel =>
    intro p
    cases p with
    | disjunction => exact sound_parseOr fun f hf => ih f (Nat.lt_succ_of_le hf) .conjunction
    | conjunction => exact sound_parseAnd fun f hf => ih f (Nat.lt_succ_of_le hf) .unary
    | unary =>
      exact sound_parseUnary (ih fuel (Nat.lt_succ_self _) .unary)
        (ih fuel (Nat.lt_succ_self _) .comparison)
    | comparison => exact sound_parseComparison (ih fuel (Nat.lt_succ_self _) .primary)
    | primary => exact sound_parsePrimary (ih fuel (Nat.lt_succ_self _) .disjunction)

/-! ### What is derived is read -/

namespace Phrase

theorem ends_nil (p : Phrase) : p.Ends [] := by simp [Ends]

theorem ends_cons {t : Token} (h : ¬p.GoesOn t) (rest : List Token) : p.Ends (t :: rest) := by
  rintro _ ⟨⟩
  exact h

theorem ends_primary (rest : List Token) : Phrase.primary.Ends rest := fun _ _ h => h

/-- A phrase ends where a looser one does. -/
theorem Ends.conjunction (h : Phrase.disjunction.Ends rest) : Phrase.conjunction.Ends rest :=
  fun t ht hg => h t ht (.inr hg)

theorem Ends.unary (h : Phrase.conjunction.Ends rest) : Phrase.unary.Ends rest :=
  fun t ht hg => h t ht (.inr hg)

end Phrase

/-- Whether a phrase is read in front of whatever does not go on with it, with the fuel that it
    needs. -/
def Complete (p : Phrase) (ts : List Token) (e : Expr) : Prop :=
  ∀ ⦃fuel rest⦄, p.need ts.length ≤ fuel → p.Ends rest → p.parse fuel (ts ++ rest) = .ok (e, rest)

theorem ends_joined (hp : ¬p.GoesOn (.operator o)) (hends : p.Ends rest)
    {more : List (List Token × Expr)} : p.Ends (joined o more ++ rest) := by
  cases more with
  | nil => exact hends
  | cons q more =>
    rw [joined_cons]
    exact Phrase.ends_cons hp _

theorem Runs.complete_loop (hl : Runs o join p.parse loop run)
    (hrank : p.rank ≤ 4) (hp : ¬p.GoesOn (.operator o))
    (hrest : rest.head? ≠ some (.operator o)) (hends : p.Ends rest)
    {more : List (List Token × Expr)} (hall : ∀ q ∈ more, Complete p q.1 q.2)
    (hfuel : 6 * (joined o more).length + 1 ≤ fuel) :
    loop fuel l (joined o more ++ rest) = .ok (more.foldl (fun l q => join l q.2) l, rest) := by
  induction more generalizing fuel l with
  | nil =>
    obtain ⟨fuel, rfl⟩ := Nat.exists_eq_succ_of_ne_zero (n := fuel) (by omega)
    exact hl.done fuel l rest hrest
  | cons q more ih =>
    simp only [joined_cons, List.cons_append, List.append_assoc, List.length_cons,
      List.length_append] at hfuel ⊢
    obtain ⟨fuel, rfl⟩ := Nat.exists_eq_succ_of_ne_zero (n := fuel) (by omega)
    rw [hl.more, hall q List.mem_cons_self (by simp only [Phrase.need]; omega)
      (ends_joined hp hends)]
    exact ih (fun q' hq' => hall q' (List.mem_cons_of_mem _ hq')) (by omega)

/-- A primary begins with no operator. -/
theorem Derives.head_primary (h : Derives .primary ts e) (o : Operator) (rest : List Token) :
    (ts ++ rest).head? ≠ some (.operator o) := by
  cases h <;> simp

theorem Derives.head_comparison (h : Derives .comparison ts e) (o : Operator) (rest : List Token) :
    (ts ++ rest).head? ≠ some (.operator o) := by
  cases h with
  | comparison hl _ =>
    rw [List.append_assoc]
    exact hl.head_primary o _
  | single h => exact h.head_primary o rest

theorem Runs.complete (hl : Runs o join p.parse loop run) (hrank : p.rank ≤ 4)
    (hp : ¬p.GoesOn (.operator o)) (hrest : rest.head? ≠ some (.operator o)) (hends : p.Ends rest)
    {more : List (List Token × Expr)} (first : Complete p ts e)
    (others : ∀ q ∈ more, Complete p q.1 q.2)
    (hfuel : p.need (ts ++ joined o more).length < fuel) :
    run fuel (ts ++ joined o more ++ rest) = .ok (more.foldl (fun l q => join l q.2) e, rest) := by
  obtain ⟨fuel, rfl⟩ := Nat.exists_eq_succ_of_ne_zero (n := fuel) (by omega)
  simp only [Phrase.need, List.length_append] at hfuel
  have hpos : 0 < p.rank := by cases p <;> decide
  have hfirst : p.Ends (joined o more ++ rest) := ends_joined hp hends
  rw [hl.first, List.append_assoc, first (by simp only [Phrase.need]; omega) hfirst]
  exact hl.complete_loop hrank hp hrest hends others (by omega)

theorem complete_disjunction {more : List (List Token × Expr)} (first : Complete .conjunction ts e)
    (others : ∀ q ∈ more, Complete .conjunction q.1 q.2) :
    Complete .disjunction (ts ++ joined .or more) (more.foldl (fun l q => .or l q.2) e) := by
  intro fuel rest hfuel hends
  have hrest : rest.head? ≠ some (.operator .or) := fun h => hends _ h (.inl rfl)
  exact runs_parseOr.complete (p := .conjunction) (by decide) (by simp [Phrase.GoesOn]) hrest
    hends.conjunction first others hfuel

theorem complete_conjunction {more : List (List Token × Expr)} (first : Complete .unary ts e)
    (others : ∀ q ∈ more, Complete .unary q.1 q.2) :
    Complete .conjunction (ts ++ joined .and more) (more.foldl (fun l q => .and l q.2) e) := by
  intro fuel rest hfuel hends
  have hrest : rest.head? ≠ some (.operator .and) := fun h => hends _ h (.inl rfl)
  exact runs_parseAnd.complete (p := .unary) (by decide) (by simp [Phrase.GoesOn]) hrest hends.unary
    first others hfuel

theorem complete_negation (inner : Complete .unary ts e) :
    Complete .unary (.operator .not :: ts) (.not e) := by
  rintro (_ | fuel) rest hfuel hends
  · cases hfuel
  simp only [Phrase.need, Phrase.rank, List.length_cons] at hfuel
  have hinner := @inner fuel rest (by simp only [Phrase.need, Phrase.rank]; omega) hends
  simp only [Phrase.parse] at hinner
  simp only [Phrase.parse, List.cons_append, parseUnary, hinner]

theorem complete_comparison {us : List Token} {op : Comparison} {r : Expr}
    (left : Complete .primary ts l) (right : Complete .primary us r) :
    Complete .comparison (ts ++ .operator (.comparison op) :: us) (.compare op l r) := by
  rintro (_ | fuel) rest hfuel -
  · cases hfuel
  simp only [Phrase.need, Phrase.rank, List.length_append, List.length_cons] at hfuel
  have hleft := @left fuel _ (by simp only [Phrase.need, Phrase.rank]; omega)
    (Phrase.ends_primary (.operator (.comparison op) :: (us ++ rest)))
  have hright := @right fuel rest (by simp only [Phrase.need, Phrase.rank]; omega)
    (Phrase.ends_primary rest)
  simp only [Phrase.parse] at hleft hright
  simp only [Phrase.parse, List.append_assoc, List.cons_append, parseComparison, hleft, hright]

theorem complete_single (inner : Complete .primary ts e) : Complete .comparison ts e := by
  rintro (_ | fuel) rest hfuel hends
  · cases hfuel
  have hinner := inner (Nat.le_of_succ_le_succ hfuel) (Phrase.ends_primary rest)
  simp only [Phrase.parse] at hinner ⊢
  rw [parseComparison, hinner]
  cases rest with
  | nil => rfl
  | cons t rest =>
    have ht : ∀ c, t ≠ .operator (.comparison c) := fun c hc => hends t rfl ⟨c, hc⟩
    split
    · rename_i heq
      cases heq
    · rename_i heq
      cases heq
      exact absurd rfl (ht _)
    · rename_i heq
      cases heq
      rfl

theorem complete_group (inner : Complete .disjunction ts e) :
    Complete .primary (.open :: ts ++ [.close]) e := by
  rintro (_ | fuel) rest hfuel -
  · cases hfuel
  simp only [Phrase.need, Phrase.rank, List.length_append, List.length_cons, List.length_nil]
    at hfuel
  have hclose : Phrase.disjunction.Ends (.close :: rest) :=
    Phrase.ends_cons (by simp [Phrase.GoesOn]) rest
  have hinner := @inner fuel _ (by simp only [Phrase.need, Phrase.rank]; omega) hclose
  simp only [Phrase.parse] at hinner
  simp only [Phrase.parse, List.cons_append, List.append_assoc, List.nil_append, parsePrimary, hinner]

/-- A token that is a primary by itself. -/
theorem complete_token {t : Token}
    (h : ∀ fuel rest, parsePrimary (fuel + 1) (t :: rest) = .ok (e, rest)) :
    Complete .primary [t] e := by
  rintro (_ | fuel) rest hfuel -
  · cases hfuel
  exact h fuel rest

/-- What the grammar derives as a phrase the parser reads as one. -/
theorem Derives.complete (h : Derives p ts e) : Complete p ts e := by
  induction h with
  | disjunction _ _ ih ihs => exact complete_disjunction ih ihs
  | conjunction _ _ ih ihs => exact complete_conjunction ih ihs
  | negation _ ih => exact complete_negation ih
  | bare h ih =>
    rintro (_ | fuel) rest hfuel hends
    · cases hfuel
    have hinner := ih (Nat.le_of_succ_le_succ hfuel) hends
    exact (parseUnary_of_head (h.head_comparison .not rest)).trans hinner
  | comparison _ _ ihl ihr => exact complete_comparison ihl ihr
  | single _ ih => exact complete_single ih
  | group _ ih => exact complete_group ih
  | path h => exact complete_token fun fuel rest => by rw [parsePrimary, ofName_of_free h]
  | text | number | yes | no | null | scope => exact complete_token fun _ _ => rfl

/-! ### The fuel suffices -/

/-- Whether reading never runs out of the fuel that is needed. -/
def Ample (p : Phrase) (fuel : Nat) : Prop :=
  ∀ ⦃ts⦄, p.need ts.length ≤ fuel → p.parse fuel ts ≠ .error .exhausted

/-- What is left behind a phrase is no longer than what it was read from. -/
theorem length_of_parse (h : p.parse fuel ts = .ok (e, rest)) : rest.length ≤ ts.length := by
  obtain ⟨us, rfl, -⟩ := sound_parse fuel p h
  simp

theorem Runs.ample_loop (hl : Runs o join p.parse loop run) (hrank : p.rank ≤ 4)
    (hp : ∀ f < fuel, Ample p f) (hfuel : 6 * ts.length + 1 ≤ fuel) :
    loop fuel l ts ≠ .error .exhausted := by
  induction fuel generalizing l ts with
  | zero => cases hfuel
  | succ fuel ih =>
    by_cases hhead : ts.head? = some (.operator o)
    case neg =>
      rw [hl.done fuel l ts hhead]
      nofun
    obtain ⟨us, rfl⟩ := List.head?_eq_some_iff.1 hhead
    simp only [List.length_cons] at hfuel
    have hread := @hp fuel (Nat.lt_succ_self _) us (by simp only [Phrase.need]; omega)
    rw [hl.more]
    split
    · rename_i f hf
      exact fun h => hread (hf.trans h)
    · rename_i r vs hr
      have hshort := length_of_parse hr
      exact ih (fun f hf => hp f (Nat.lt_succ_of_lt hf)) (by omega)

theorem Runs.ample (hl : Runs o join p.parse loop run) (hrank : p.rank ≤ 4)
    (hp : ∀ f ≤ fuel, Ample p f) (hfuel : p.need ts.length ≤ fuel) :
    run (fuel + 1) ts ≠ .error .exhausted := by
  have hpos : 0 < p.rank := by cases p <;> decide
  have hread := hp fuel (Nat.le_refl _) hfuel
  simp only [Phrase.need] at hfuel
  rw [hl.first]
  split
  · rename_i f hf
    exact fun h => hread (hf.trans h)
  · rename_i e us hr
    have hshort := length_of_parse hr
    exact hl.ample_loop hrank (fun f hf => hp f (Nat.le_of_lt hf)) (by omega)

theorem ample_parseUnary (hu : Ample .unary fuel) (hc : Ample .comparison fuel) :
    Ample .unary (fuel + 1) := by
  intro ts hfuel
  simp only [Phrase.need, Phrase.rank] at hfuel
  by_cases hhead : ts.head? = some (.operator .not)
  case neg =>
    have hread := @hc ts (by simp only [Phrase.need, Phrase.rank]; omega)
    rw [Phrase.parse, parseUnary_of_head hhead]
    exact hread
  obtain ⟨us, rfl⟩ := List.head?_eq_some_iff.1 hhead
  simp only [List.length_cons] at hfuel
  have hread := @hu us (by simp only [Phrase.need, Phrase.rank]; omega)
  simp only [Phrase.parse] at hread ⊢
  rw [parseUnary]
  split
  · rename_i f hf
    exact fun h => hread (hf.trans h)
  · nofun

theorem ample_parseComparison (hp : Ample .primary fuel) : Ample .comparison (fuel + 1) := by
  intro ts hfuel
  simp only [Phrase.need, Phrase.rank] at hfuel
  have hleft := @hp ts (by simp only [Phrase.need, Phrase.rank]; omega)
  simp only [Phrase.parse] at hleft ⊢
  rw [parseComparison]
  split
  · rename_i f hf
    exact fun h => hleft (hf.trans h)
  · rename_i l op us hl
    have hshort := length_of_parse (p := .primary) hl
    simp only [List.length_cons] at hshort
    have hright := @hp us (by simp only [Phrase.need, Phrase.rank]; omega)
    simp only [Phrase.parse] at hright
    split
    · rename_i f hf
      exact fun h => hright (hf.trans h)
    · nofun
  · nofun

theorem ample_parsePrimary (ho : Ample .disjunction fuel) : Ample .primary (fuel + 1) := by
  intro ts hfuel
  match ts, hfuel with
  | .open :: us, hfuel =>
    simp only [Phrase.need, Phrase.rank, List.length_cons] at hfuel
    have hread := @ho us (by simp only [Phrase.need, Phrase.rank]; omega)
    simp only [Phrase.parse] at hread ⊢
    rw [parsePrimary]
    split
    · rename_i f hf
      exact fun h => hread (hf.trans h)
    · nofun
    · nofun
  | [], _ | .text _ :: _, _ | .number _ :: _, _ | .name _ :: _, _ | .operator _ :: _, _
  | .close :: _, _ => nofun

theorem ample_parse (fuel : Nat) : ∀ p : Phrase, Ample p fuel := by
  induction fuel using Nat.strongRecOn with
  | ind fuel ih =>
  cases fuel with
  | zero => intro p ts h; cases p <;> cases h
  | succ fuel =>
    intro p
    cases p with
    | disjunction =>
      exact fun ts hfuel => runs_parseOr.ample (p := .conjunction) (by decide)
        (fun f hf => ih f (Nat.lt_succ_of_le hf) .conjunction) (Nat.le_of_succ_le_succ hfuel)
    | conjunction =>
      exact fun ts hfuel => runs_parseAnd.ample (p := .unary) (by decide)
        (fun f hf => ih f (Nat.lt_succ_of_le hf) .unary) (Nat.le_of_succ_le_succ hfuel)
    | unary =>
      exact ample_parseUnary (ih fuel (Nat.lt_succ_self _) .unary)
        (ih fuel (Nat.lt_succ_self _) .comparison)
    | comparison => exact ample_parseComparison (ih fuel (Nat.lt_succ_self _) .primary)
    | primary => exact ample_parsePrimary (ih fuel (Nat.lt_succ_self _) .disjunction)

/-! ### The parser -/

/-- A phrase writes one expression. -/
theorem Derives.unique {e' : Expr} (h : Derives p ts e) (h' : Derives p ts e') : e = e' := by
  have hread := h.complete (Nat.le_refl _) p.ends_nil
  rw [h'.complete (Nat.le_refl _) p.ends_nil] at hread
  cases hread
  rfl

/-- A list of tokens is read as an expression if and only if the grammar derives it as one, and there is
    at most one that it derives, as for every phrase. A list that is not read is at fault itself: no
    list needs more fuel than there is. -/
theorem parseTokens_iff_derives (ts : List Token) :
    (∀ e, parseTokens ts = .ok e ↔ Derives .disjunction ts e) ∧
    (∀ p e e', Derives p ts e → Derives p ts e' → e = e') ∧
    parseTokens ts ≠ .error .exhausted := by
  have hneed : Phrase.disjunction.need ts.length ≤ 8 * ts.length + 8 := by
    simp only [Phrase.need, Phrase.rank]
    omega
  refine ⟨fun e => ⟨fun h => ?_, fun h => ?_⟩, fun p e e' h h' => h.unique h', fun h => ?_⟩
  · unfold parseTokens at h
    split at h
    · cases h
    · rename_i hr
      cases h
      obtain ⟨us, rfl, hus⟩ := sound_parse (8 * ts.length + 8) .disjunction hr
      rwa [List.append_nil]
    · cases h
  · have hread := h.complete hneed (Phrase.ends_nil _)
    rw [List.append_nil] at hread
    simp only [Phrase.parse] at hread
    rw [parseTokens, hread]
  · have hread := ample_parse _ .disjunction hneed
    simp only [Phrase.parse] at hread
    unfold parseTokens at h
    split at h
    · rename_i f hf
      cases h
      exact hread hf
    · cases h
    · cases h

/-- A negation reaches over the comparison behind it. -/
example : parseTokens [.operator .not, .name "a", .operator (.comparison .eq), .name "b"] =
    .ok (.not (.compare .eq (Expr.ofName "a") (Expr.ofName "b"))) := rfl

end Statechart.Guard
