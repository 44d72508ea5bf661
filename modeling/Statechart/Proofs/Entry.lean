import Statechart.Proofs.Covering

/-! Entering states has an end and leaves nothing half entered.

    Every call of the recursion goes from a state to states below it, so the fuel suffices. What a call
    adds is complete downward (`Chart.Complete`) and closed upward as far as the call is responsible:
    `EntryPlan.Extends` says which states may be added and which of them may lack their parent. If what
    is to be entered fits what is there, no two rivals are entered. -/

namespace Statechart

open Chart

namespace EntryPlan

variable {c : Chart} {store : Store} {inside inside' anchor anchor' : NodeId → Prop}
  {p q r : EntryPlan} {a b m n x : NodeId}

/-- Parts of the construction one after the other are related as each of them is, as long as what each
    needs is not lost. -/
theorem foldlM_rel {α : Type} {R : EntryPlan → EntryPlan → Prop} {I : EntryPlan → Prop}
    {f : EntryPlan → α → Option EntryPlan} (hrefl : ∀ p, R p p)
    (htrans : ∀ {p q r}, R p q → R q r → R p r) (hI : ∀ {p q}, I p → R p q → I q) :
    ∀ (as : List α) {p q : EntryPlan}, I p → (∀ a ∈ as, ∀ {p q}, I p → f p a = some q → R p q) →
      as.foldlM f p = some q → R p q
  | [], p, q, _, _, hq => by
    cases hq
    exact hrefl p
  | a :: as, p, q, hp, hf, hq => by
    rw [List.foldlM_cons] at hq
    obtain ⟨r, hr, hq⟩ := Option.bind_eq_some_iff.1 hq
    have hone := hf a (by simp) hp hr
    exact htrans hone (foldlM_rel hrefl htrans hI as (hI hp hone)
      (fun b hb => hf b (List.mem_cons_of_mem _ hb)) hq)

/-- What a part of the construction adds to a plan: only states inside somewhere, complete in the end,
    and with their parents but for some that anchor the others. -/
structure Extends (c : Chart) (inside anchor : NodeId → Prop) (p q : EntryPlan) : Prop where
  mono : ∀ m ∈ p.entry, m ∈ q.entry
  new : ∀ m ∈ q.entry, m ∈ p.entry ∨ inside m ∧ c.Complete q.entry m ∧
    (anchor m ∨ ∃ a ∈ q.entry, (c.node m).parent = some a)

namespace Extends

theorem refl (p : EntryPlan) : Extends c inside anchor p p where
  mono _ h := h
  new _ h := .inl h

/-- Two parts one after the other. What lacks its parent after the first may get it in the second. -/
theorem trans (h : Extends c inside anchor p q) (h' : Extends c inside anchor' q r)
    (ha : ∀ m, anchor m → anchor' m ∨ ∃ a ∈ r.entry, (c.node m).parent = some a) :
    Extends c inside anchor' p r where
  mono m hm := h'.mono m (h.mono m hm)
  new m hm := by
    rcases h'.new m hm with hm | hm
    · rcases h.new m hm with hm | ⟨hi, hf, hp⟩
      · exact .inl hm
      · refine .inr ⟨hi, hf.mono h'.mono, ?_⟩
        rcases hp with hp | ⟨a, ha, hp⟩
        · exact ha m hp
        · exact .inr ⟨a, h'.mono a ha, hp⟩
    · exact .inr hm

theorem weaken (h : Extends c inside anchor p q) (hi : ∀ m, inside m → inside' m)
    (ha : ∀ m, inside m → anchor m → anchor' m ∨ ∃ a ∈ q.entry, (c.node m).parent = some a) :
    Extends c inside' anchor' p q where
  mono := h.mono
  new m hm := by
    rcases h.new m hm with hm | ⟨h₁, h₂, h₃⟩
    · exact .inl hm
    · exact .inr ⟨hi m h₁, h₂, h₃.elim (ha m h₁) .inr⟩

end Extends

/-- What entering a state does to a plan. -/
structure Entered (c : Chart) (n : NodeId) (p q : EntryPlan) : Prop where
  adds : Extends c (c.Within · n) (· = n) p q
  mem : n ∈ q.entry
  tidy : c.Fits p.entry n → c.Tidy p.entry → c.Tidy q.entry

/-- Whether a function enters a state, whatever is in the plan already. -/
def Enters (c : Chart) (enter : NodeId → EntryPlan → Option EntryPlan) (n : NodeId) : Prop :=
  ∀ p, ∃ q, enter n p = some q ∧ Entered c n p q

section

variable {enter : NodeId → EntryPlan → Option EntryPlan} (hc : c.WellFormed)

include hc

/-- Filling regions of a parallel state in the plan, one after the other. -/
theorem fill_list (hp : (c.node n).isParallel = true) : ∀ {ms : List NodeId},
    (∀ m ∈ ms, m ∈ (c.node n).children) → (∀ m ∈ ms, Enters c enter m) →
    ∀ {p : EntryPlan}, n ∈ p.entry → ∃ q,
      ms.foldlM (fun p child => if p.covers c child then some p else enter child p) p = some q ∧
      Extends c (fun m => c.descends m n = true) (fun _ => False) p q ∧
      (∀ m ∈ ms, c.Covers q.entry m) ∧ (c.Tidy p.entry → c.Tidy q.entry)
  | [], _, _, p, _ => ⟨p, rfl, .refl p, by simp, id⟩
  | m :: ms, hm, he, p, hn => by
    have hpar := (hc.mem_children.1 (hm m (by simp))).1
    have below {k : NodeId} (hk : c.Within k m) : c.descends k n = true :=
      hc.descends_of_within_descends hk (hc.descends_parent hpar)
    obtain ⟨q, hq, hadd, hcov, ht⟩ : ∃ q,
        (if p.covers c m then some p else enter m p) = some q ∧
        Extends c (fun m => c.descends m n = true) (fun _ => False) p q ∧ c.Covers q.entry m ∧
        (c.Tidy p.entry → c.Tidy q.entry) := by
      by_cases hcov : c.Covers p.entry m
      · exact ⟨p, if_pos (covers_iff.2 hcov), .refl p, hcov, id⟩
      · obtain ⟨q, hq, h⟩ := he m (by simp) p
        refine ⟨q, (if_neg fun e => hcov (covers_iff.1 e)).trans hq, ?_, .of_mem h.mem,
          fun ht => h.tidy (hc.fits_region ht hn hp hpar hcov) ht⟩
        exact h.adds.weaken (fun k hk => below hk) fun k _ e => .inr ⟨n, h.adds.mono n hn, e ▸ hpar⟩
    obtain ⟨r, hr, hadd', hcov', ht'⟩ := fill_list hp (fun k hk => hm k (List.mem_cons_of_mem _ hk))
      (fun k hk => he k (List.mem_cons_of_mem _ hk)) (hadd.mono n hn)
    refine ⟨r, by rw [List.foldlM_cons, hq]; exact hr, hadd.trans hadd' (by simp), ?_, ht' ∘ ht⟩
    intro k hk
    rcases List.mem_cons.1 hk with rfl | hk
    · exact hcov.mono hadd'.mono
    · exact hcov' k hk

/-- Filling the regions of a parallel state in the plan covers all of them. -/
theorem fillRegions_spec (hp : (c.node n).isParallel = true)
    (he : ∀ m ∈ (c.node n).children, Enters c enter m) (hn : n ∈ p.entry) :
    ∃ q, fillRegions c enter n p = some q ∧
      Extends c (fun m => c.descends m n = true) (fun _ => False) p q ∧
      (∀ m ∈ (c.node n).children, c.Covers q.entry m) ∧ (c.Tidy p.entry → c.Tidy q.entry) :=
  fill_list hc hp (fun _ h => h) he hn

/-- Adding a state above an entered one, with its other regions if it is parallel. -/
theorem enterAbove_spec (he : ∀ m ∈ (c.node a).children, Enters c enter m) {y : NodeId}
    (hy : y ∈ p.entry) (hs : (c.node y).isHistory = false) (hd : c.descends y a = true) :
    ∃ q, enterAbove c enter p a = some q ∧ Extends c (c.Within · a) (· = a) p q ∧ a ∈ q.entry ∧
      (c.Tidy p.entry → c.Tidy q.entry) := by
  have ha : a < c.nodes.size := Nat.lt_trans (hc.lt_of_descends hd) (hc.lt_size_of_descends hd)
  have hcov : c.Covers p.entry a := ⟨y, hy, .inr hd⟩
  have hmono : ∀ m ∈ p.entry, m ∈ (p.add a).entry := fun m hm => mem_entry_add.2 (.inr hm)
  have htidy : c.Tidy p.entry → c.Tidy (p.add a).entry := hc.tidy_insert_of_covers hcov
  have hself : a ∈ (p.add a).entry := mem_entry_add.2 (.inl rfl)
  obtain ⟨m, hm, hw⟩ := hc.exists_state_child hd hs
  unfold enterAbove
  by_cases hp : (c.node a).isParallel = true
  · obtain ⟨q, hq, hadd, hall, ht⟩ := fillRegions_spec hc hp he hself
    refine ⟨q, by rw [if_pos hp]; exact hq, ⟨fun m hm => hadd.mono m (hmono m hm), ?_⟩,
      hadd.mono a hself, ht ∘ htidy⟩
    intro k hk
    rcases hadd.new k hk with hk | ⟨hi, hf, hpar⟩
    · rcases mem_entry_add.1 hk with rfl | hk
      · refine .inr ⟨.refl k, ⟨ha, hc.not_history_of_descends hd, ?_, fun _ => hall⟩, .inl rfl⟩
        exact fun _ => ⟨m, hm, hall m hm⟩
      · exact .inl hk
    · exact .inr ⟨.inr hi, hf, .inr (hpar.resolve_left id)⟩
  · refine ⟨p.add a, by rw [if_neg hp], ⟨hmono, ?_⟩, hself, htidy⟩
    intro k hk
    rcases mem_entry_add.1 hk with rfl | hk
    · exact .inr ⟨.refl k, ⟨ha, hc.not_history_of_descends hd,
        fun _ => ⟨m, hm, y, hmono y hy, hw⟩, fun h => absurd h hp⟩, .inl rfl⟩
    · exact .inl hk

/-- Climbing from a node above an entered state to the boundary. The induction follows the parents. -/
theorem climbTo_spec {boundary : Option NodeId}
    (he : ∀ m < c.nodes.size, (c.node m).isHistory = false →
      (∀ d, boundary = some d → c.descends m d = true) → Enters c enter m) :
    ∀ {x : NodeId} {p : EntryPlan} {y : NodeId}, y ∈ p.entry → (c.node y).isHistory = false →
      (∀ a ∈ (c.node x).ancestors, c.descends y a = true) →
      (∀ d, boundary = some d → c.descends x d = true) →
      ∃ q, climbTo c enter boundary p x = some q ∧
        Extends c (fun m => ∀ d, boundary = some d → c.descends m d = true)
          (fun m => (c.node m).parent = boundary) p q ∧
        ((c.node x).parent = boundary ∨ ∃ a ∈ q.entry, (c.node x).parent = some a) ∧
        (c.Tidy p.entry → c.Tidy q.entry) := by
  intro x
  induction x using Nat.strongRecOn with
  | ind x ih =>
    intro p y hy hs hanc hb
    cases hx : (c.node x).parent with
    | none =>
      refine ⟨p, by simp [climbTo, hc.ancestors_none hx], .refl p, .inl ?_, id⟩
      cases hbd : boundary with
      | none => rfl
      | some d =>
        exact (hc.not_descends_of_top hx (hb d hbd)).elim
    | some a =>
      have hxa := hc.ancestors_some hx
      by_cases hab : some a = boundary
      · refine ⟨p, ?_, .refl p, .inl hab, id⟩
        simp [climbTo, hxa, hab]
      have hba : ∀ d, boundary = some d → c.descends a d = true := by
        intro d hd
        exact ((hc.descends_iff_within hx).1 (hb d hd)).resolve_left fun e => hab (e ▸ hd.symm)
      have hchild : ∀ m ∈ (c.node a).children, Enters c enter m := by
        intro m hm
        obtain ⟨hma, hms⟩ := hc.mem_children.1 hm
        exact he m (lt_size_of_parent hma) hms fun d hd =>
          hc.descends_of_within_descends (.inr (hc.descends_parent hma)) (hba d hd)
      obtain ⟨q, hq, hadd, haq, ht⟩ :=
        enterAbove_spec hc hchild hy hs (hanc a (by simp [hxa]))
      obtain ⟨r, hr, hadd', hpar, ht'⟩ := ih a (hc.parent_lt hx) (hadd.mono y hy) hs
        (fun b hb => hanc b (by simp [hxa, hb])) hba
      refine ⟨r, ?_, ?_, .inr ⟨a, hadd'.mono a haq, rfl⟩, ht' ∘ ht⟩
      · simp only [climbTo, hxa, List.takeWhile_cons, hab, ne_eq, not_false_eq_true, decide_true,
          if_true, List.foldlM_cons, hq]
        exact hr
      · refine Extends.trans (hadd.weaken ?_ fun m _ e => .inl e) hadd' ?_
        · intro m hm d hd
          exact hc.descends_of_within_descends hm (hba d hd)
        · intro m e
          exact e ▸ hpar

/-- Entering a list of states one after the other. -/
theorem enter_list : ∀ (ts : List NodeId), (∀ t ∈ ts, Enters c enter t) → ∀ {p : EntryPlan},
    ∃ q, ts.foldlM (fun p n => enter n p) p = some q ∧
      Extends c (fun m => ∃ t ∈ ts, c.Within m t) (· ∈ ts) p q ∧ (∀ t ∈ ts, t ∈ q.entry) ∧
      ((∀ t ∈ ts, c.Fits p.entry t) → ts.Pairwise c.Apart → c.Tidy p.entry → c.Tidy q.entry)
  | [], _, p => ⟨p, rfl, .refl p, by simp, fun _ _ h => h⟩
  | t :: ts, he, p => by
    obtain ⟨q, hq, h⟩ := he t (by simp) p
    obtain ⟨r, hr, hadd, hmem, ht⟩ :=
      enter_list ts (fun k hk => he k (List.mem_cons_of_mem _ hk)) (p := q)
    refine ⟨r, by rw [List.foldlM_cons, hq]; exact hr, ?_, ?_, ?_⟩
    · refine Extends.trans (h.adds.weaken (fun m hm => ⟨t, by simp, hm⟩) fun m _ e => .inl (by simp [e]))
        (hadd.weaken ?_ fun m _ e => .inl (List.mem_cons_of_mem _ e)) fun m e => .inl e
      intro m hm
      obtain ⟨t', ht', hm⟩ := hm
      exact ⟨t', List.mem_cons_of_mem _ ht', hm⟩
    · intro k hk
      rcases List.mem_cons.1 hk with rfl | hk
      · exact hadd.mono k h.mem
      · exact hmem k hk
    · intro hf ha hp
      obtain ⟨hta, hts⟩ := List.pairwise_cons.1 ha
      refine ht ?_ hts (h.tidy (hf t (by simp)) hp)
      intro k hk
      refine hc.fits_of_growth (hf k (List.mem_cons_of_mem _ hk)) ?_ (hta k hk)
      intro x hx
      exact (h.adds.new x hx).imp_right And.left

/-- Climbing from states of the plan one after the other. -/
theorem climb_list (boundary : Option NodeId)
    (he : ∀ m < c.nodes.size, (c.node m).isHistory = false →
      (∀ d, boundary = some d → c.descends m d = true) → Enters c enter m) :
    ∀ (ts : List NodeId) {p : EntryPlan},
      (∀ t ∈ ts, (∃ y ∈ p.entry, (c.node y).isHistory = false ∧
        ∀ a ∈ (c.node t).ancestors, c.descends y a = true) ∧
        ∀ d, boundary = some d → c.descends t d = true) →
      ∃ q, ts.foldlM (climbTo c enter boundary) p = some q ∧
        Extends c (fun m => ∀ d, boundary = some d → c.descends m d = true)
          (fun m => (c.node m).parent = boundary) p q ∧
        (∀ t ∈ ts, (c.node t).parent = boundary ∨ ∃ a ∈ q.entry, (c.node t).parent = some a) ∧
        (c.Tidy p.entry → c.Tidy q.entry)
  | [], p, _ => ⟨p, rfl, .refl p, by simp, id⟩
  | t :: ts, p, h => by
    obtain ⟨⟨y, hy, hs, hanc⟩, hb⟩ := h t (by simp)
    obtain ⟨q, hq, hadd, hpar, ht⟩ := climbTo_spec hc he hy hs hanc hb
    obtain ⟨r, hr, hadd', hpar', ht'⟩ := climb_list boundary he ts (p := q) fun k hk => by
      obtain ⟨⟨z, hz, h'⟩, hb'⟩ := h k (List.mem_cons_of_mem _ hk)
      exact ⟨⟨z, hadd.mono z hz, h'⟩, hb'⟩
    refine ⟨r, by rw [List.foldlM_cons, hq]; exact hr, hadd.trans hadd' fun m e => .inl e, ?_,
      ht' ∘ ht⟩
    intro k hk
    rcases List.mem_cons.1 hk with rfl | hk
    · exact hpar.imp_right fun ⟨a, ha, e⟩ => ⟨a, hadd'.mono a ha, e⟩
    · exact hpar' k hk

/-- Entering states below a boundary, with what lies between. -/
theorem enterTargets_spec (he : ∀ m < c.nodes.size, (c.node m).isHistory = false →
      c.descends m b = true → Enters c enter m) {ts : List NodeId}
    (hts : ∀ t ∈ ts, (c.node t).isHistory = false ∧ c.descends t b = true) :
    ∃ q, enterTargets c enter b ts p = some q ∧
      Extends c (fun m => c.descends m b = true) (fun m => (c.node m).parent = some b) p q ∧
      (∀ t ∈ ts, t ∈ q.entry) ∧
      ((∀ t ∈ ts, c.Fits p.entry t) → ts.Pairwise c.Apart → c.Tidy p.entry → c.Tidy q.entry) := by
  obtain ⟨q, hq, hadd, hmem, ht⟩ := enter_list hc ts (p := p) fun t h =>
    he t (hc.lt_size_of_descends (hts t h).2) (hts t h).1 (hts t h).2
  obtain ⟨r, hr, hadd', hpar, ht'⟩ := climb_list hc (some b)
    (fun m hm hs hb => he m hm hs (hb b rfl)) ts (p := q) fun t h =>
      ⟨⟨t, hmem t h, (hts t h).1, fun a ha => descends_iff.2 ha⟩, fun d hd =>
        Option.some.inj hd ▸ (hts t h).2⟩
  refine ⟨r, by rw [enterTargets, hq]; exact hr, ?_, fun t h => hadd'.mono t (hmem t h),
    fun hf ha hp => ht' (ht hf ha hp)⟩
  refine Extends.trans (hadd.weaken ?_ fun m _ e => .inl e)
    (hadd'.weaken (fun m h => h b rfl) fun m _ e => .inl e) hpar
  rintro m ⟨t, h, hm⟩
  exact hc.descends_of_within_descends hm (hts t h).2

end

/-- Whether so many calls inside one another suffice for entering: a measure below that number falls from
    every state to those below it. -/
def Suffices (c : Chart) (fuel : Nat) : Prop :=
  ∃ μ : NodeId → Nat, (∀ m n, c.descends m n = true → μ m < μ n) ∧ ∀ n < c.nodes.size, μ n < fuel

variable (hc : c.WellFormed)

include hc

/-- The ways in which a state is entered, given a function that enters those below it. -/
inductive StateEntry (c : Chart) (enter : NodeId → EntryPlan → Option EntryPlan) (n : NodeId)
    (p q : EntryPlan) : Prop where
  | parallel (hp : (c.node n).isParallel = true) (hn : (c.node n).isCompound = false)
      (hq : fillRegions c enter n (p.add n) = some q) : StateEntry c enter n p q
  | compound {t : TransitionId} (hn : (c.node n).isCompound = true) (ht : (c.node n).initial = some t)
      (hts : ∀ x ∈ (c.transition t).targets, (c.node x).isHistory = false ∧ c.descends x n = true)
      (hq : enterTargets c enter n (c.transition t).targets
        { p.add n with defaultEntry := NodeSet.insert n p.defaultEntry } = some q) :
      StateEntry c enter n p q
  | leaf (hp : (c.node n).isParallel = false) (hn : (c.node n).isCompound = false)
      (hq : q = p.add n) : StateEntry c enter n p q

/-- A state that is entered is entered in one of these ways. -/
theorem stateEntry_of_enter {fuel : Nat} (hs : (c.node n).isHistory = false)
    (hq : enter c store (fuel + 1) n p = some q) : StateEntry c (enter c store fuel) n p q := by
  cases hp : (c.node n).isParallel with
  | true =>
    rw [enter_parallel hs hp] at hq
    exact .parallel hp (WellFormed.not_compound_of_parallel hp) hq
  | false =>
    cases hcp : (c.node n).isCompound with
    | true =>
      obtain ⟨t, ht, -, hts⟩ := hc.initial hcp
      rw [enter_compound hs hp hcp ht] at hq
      exact .compound hcp ht (fun x hx => (hts x hx).symm) hq
    | false =>
      rw [enter_leaf hs hp hcp] at hq
      exact .leaf hp hcp (Option.some.inj hq).symm

/-- A state is entered when it has been added and everything below it that belongs to it. -/
theorem entered_of_added {n : NodeId} (hadd : ∀ m ∈ q.entry, m ∈ (p.add n).entry ∨
      c.descends m n = true ∧ c.Complete q.entry m ∧ ∃ a ∈ q.entry, (c.node m).parent = some a)
    (hmono : ∀ m ∈ (p.add n).entry, m ∈ q.entry) (hcomp : c.Complete q.entry n)
    (ht : c.Fits p.entry n → c.Tidy (p.add n).entry → c.Tidy q.entry) : Entered c n p q := by
  have hp : ∀ m ∈ p.entry, m ∈ (p.add n).entry := fun m hm => mem_entry_add.2 (.inr hm)
  refine ⟨⟨fun m hm => hmono m (hp m hm), ?_⟩, hmono n (mem_entry_add.2 (.inl rfl)),
    fun hfit hp => ht hfit (hc.tidy_insert hfit hp)⟩
  intro m hm
  rcases hadd m hm with hm | ⟨hd, hf, hp⟩
  · rcases mem_entry_add.1 hm with rfl | hm
    · exact .inr ⟨.refl m, hcomp, .inl rfl⟩
    · exact .inl hm
  · exact .inr ⟨.inr hd, hf, .inr hp⟩

/-- Entering a state has an end within a measure that falls from every state to those below it. -/
theorem enters_of_measure {μ : NodeId → Nat} (hμ : ∀ m n, c.descends m n = true → μ m < μ n)
    {fuel : Nat} {n : NodeId} (hf : μ n < fuel) (hn : n < c.nodes.size)
    (hs : (c.node n).isHistory = false) : Enters c (enter c store fuel) n := by
  induction fuel generalizing n with
  | zero => cases hf
  | succ fuel ih =>
    have below : ∀ m < c.nodes.size, (c.node m).isHistory = false → c.descends m n = true →
        Enters c (enter c store fuel) m := fun m hm hms hd =>
      ih (Nat.lt_of_lt_of_le (hμ m n hd) (Nat.le_of_lt_succ hf)) hm hms
    intro p
    have hself : n ∈ (p.add n).entry := mem_entry_add.2 (.inl rfl)
    cases hp : (c.node n).isParallel with
    | true =>
      obtain ⟨q, hq, hadd, hall, ht⟩ := fillRegions_spec hc hp (fun m hm => by
        obtain ⟨hmn, hms⟩ := hc.mem_children.1 hm
        exact below m (lt_size_of_parent hmn) hms (hc.descends_parent hmn)) hself
      refine ⟨q, by rw [enter_parallel hs hp, hq], entered_of_added hc ?_ hadd.mono ?_ fun _ => ht⟩
      · intro m hm
        refine (hadd.new m hm).imp_right ?_
        rintro ⟨h₁, h₂, h₃⟩
        exact ⟨h₁, h₂, h₃.resolve_left id⟩
      · refine ⟨hn, hs, fun hcp => ?_, fun _ => hall⟩
        rw [WellFormed.not_compound_of_parallel hp] at hcp
        cases hcp
    | false =>
      have hnp : ¬(c.node n).isParallel = true := Bool.eq_false_iff.1 hp
      cases hcp : (c.node n).isCompound with
      | true =>
        obtain ⟨t, ht, hne, hts⟩ := hc.initial hcp
        have hts' : ∀ x ∈ (c.transition t).targets,
            (c.node x).isHistory = false ∧ c.descends x n = true := fun x hx => (hts x hx).symm
        obtain ⟨q, hq, hadd, hmem, htd⟩ := enterTargets_spec hc below hts'
          (p := { p.add n with defaultEntry := NodeSet.insert n p.defaultEntry })
        refine ⟨q, by rw [enter_compound hs hp hcp ht, hq],
          entered_of_added hc ?_ hadd.mono ?_ fun hfit => htd ?_ (hc.apart_targets t)⟩
        · intro m hm
          refine (hadd.new m hm).imp_right ?_
          rintro ⟨h₁, h₂, h₃ | h₃⟩
          · exact ⟨h₁, h₂, n, hadd.mono n hself, h₃⟩
          · exact ⟨h₁, h₂, h₃⟩
        · refine ⟨hn, hs, fun _ => ?_, fun h => absurd h hnp⟩
          obtain ⟨x, xs, e⟩ := List.exists_cons_of_ne_nil hne
          have hx : x ∈ (c.transition t).targets := by simp [e]
          obtain ⟨m, hm, hw⟩ := hc.exists_state_child (hts x hx).1 (hts x hx).2
          exact ⟨m, hm, x, hmem x hx, hw⟩
        · exact fun x hx => hc.fits_insert hfit (hts x hx).1
      | false =>
        have hcomp : c.Complete (p.add n).entry n :=
          ⟨hn, hs, fun h => absurd h (Bool.eq_false_iff.1 hcp), fun h => absurd h hnp⟩
        refine ⟨p.add n, enter_leaf hs hp hcp, ?_⟩
        exact entered_of_added hc (fun m hm => .inl hm) (fun _ h => h) hcomp fun _ h => h

/-- More calls inside one another than there are nodes suffice, since indices grow downward. -/
theorem suffices_of_size {fuel : Nat} (h : c.nodes.size < fuel) : Suffices c fuel := by
  refine ⟨fun n => c.nodes.size - n, fun m n hd => ?_, fun n _ => ?_⟩
  · have hlt := hc.lt_of_descends hd
    exact Nat.sub_lt_sub_left (Nat.lt_trans hlt (hc.lt_size_of_descends hd)) hlt
  · exact Nat.lt_of_le_of_lt (Nat.sub_le _ _) h

end EntryPlan
end Statechart
