import Statechart.Proofs.Entry

/-! What a step enters.

    A target of a transition is a state or a history, and a history is entered in the area of the state
    it belongs to. The plan of a step is complete downward, and upward it reaches the domains of the
    transitions: a state of the plan that lacks its parent there has a domain as its parent. If the areas
    of the targets are apart, and so are the states that a history has recorded, no two rivals are
    entered. -/

namespace Statechart

open Chart

namespace Chart

variable {c : Chart} {d x : NodeId} {t : TransitionId}

/-- Where a target is entered: the state itself, or the state whose history it is. -/
def area (c : Chart) (x : NodeId) : NodeId :=
  if (c.node x).isHistory then (c.node x).parent.getD x else x

/-- Whether a transition leads to states inside its domain, a node among them. -/
def Leads (c : Chart) (t : TransitionId) (m : NodeId) : Prop :=
  (c.transition t).targets ≠ [] ∧ ∀ d, (c.transition t).domain = some d → c.descends m d = true

theorem area_of_state (h : (c.node x).isHistory = false) : c.area x = x := by
  simp [area, h]

theorem area_of_history {p : NodeId} (h : (c.node x).isHistory = true)
    (hp : (c.node x).parent = some p) : c.area x = p := by
  simp [area, h, hp]

namespace WellFormed

variable (hc : c.WellFormed)

include hc

/-- A domain is a compound state, its transition's source or one above it, and contains the targets. -/
theorem of_domain (h : (c.transition t).domain = some d) : (c.node d).isCompound = true ∧
    (∃ s, (c.transition t).source = some s ∧ c.Within s d) ∧
    ∀ x ∈ (c.transition t).targets, c.descends x d = true := by
  rw [hc.domain_eq, hc.internal_eq] at h
  unfold NodeTable.domain at h
  split at h
  · cases h
  split at h
  · cases h
  rename_i s hs
  split at h
  · rename_i hi
    cases h
    simp only [NodeTable.isInternal, hs, Bool.and_eq_true, List.all_eq_true] at hi
    exact ⟨hi.1.2, ⟨d, hs, .refl d⟩, hi.2⟩
  · have hm := List.mem_of_find?_eq_some h
    have hp := List.find?_some h
    simp only [Bool.and_eq_true, List.all_eq_true] at hp
    exact ⟨hp.1, ⟨s, hs, .inr (descends_iff.2 hm)⟩, hp.2⟩

/-- A history has a default, and that lies below the state whose history it is. -/
theorem default_below {owner : NodeId} (hh : (c.node x).isHistory = true)
    (ho : (c.node x).parent = some owner) : ∃ t, (c.node x).initial = some t ∧
      (c.transition t).targets ≠ [] ∧ ∀ y ∈ (c.transition t).targets,
        (c.node y).isHistory = false ∧ c.descends y owner = true := by
  obtain ⟨kind, hk⟩ : ∃ kind, (c.node x).kind = .history kind := by
    cases hk : (c.node x).kind <;> simp [Node.isHistory, hk] at hh
    exact ⟨_, rfl⟩
  obtain ⟨t, ht, hne, hcov⟩ := hc.default hk ho
  refine ⟨t, ht, hne, fun y hy => ?_⟩
  have := hcov y hy
  unfold NodeTable.historyCovers at this
  rw [Bool.and_eq_true, Bool.not_eq_true'] at this
  refine ⟨this.2, ?_⟩
  cases kind with
  | shallow => exact hc.descends_parent (by simpa [Chart.node] using this.1)
  | deep => exact this.1

theorem leads_of_target (h : x ∈ (c.transition t).targets) : c.Leads t x :=
  ⟨List.ne_nil_of_mem h, fun _ hd => (hc.of_domain hd).2.2 x h⟩

end WellFormed
end Chart

namespace Store

/-- Whether what histories have recorded lies below the states whose histories they are. -/
def Recalls (c : Chart) (s : Store) : Prop :=
  ∀ h states, s.recorded? h = some states → ∀ x ∈ states,
    (c.node x).isHistory = false ∧ ∀ p, (c.node h).parent = some p → c.descends x p = true

/-- Whether the states that a history has recorded can be active together. -/
def Agrees (c : Chart) (s : Store) (h : NodeId) : Prop :=
  ∀ states, s.recorded? h = some states → states.Pairwise c.Apart

/-- What a target stands for: a state for itself, a history for what it has recorded or else for the
    targets of its default. -/
def stands (c : Chart) (s : Store) (x : NodeId) : List NodeId :=
  if (c.node x).isHistory then
    match s.remembered? x with
    | some states => states
    | none => ((c.node x).initial.map fun t => (c.transition t).targets).getD []
  else [x]

theorem stands_of_state {c : Chart} {s : Store} {x : NodeId} (h : (c.node x).isHistory = false) :
    s.stands c x = [x] := by
  simp [stands, h]

theorem recorded?_of_remembered? {s : Store} {h : NodeId} {states : NodeSet}
    (hr : s.remembered? h = some states) : s.recorded? h = some states ∧ states ≠ [] := by
  unfold remembered? at hr
  split at hr
  · cases hr
  · rename_i hne
    exact ⟨hr, fun e => hne (e ▸ hr)⟩

theorem remembered?_of_recorded? {s : Store} {h : NodeId} {states : NodeSet}
    (hr : s.recorded? h = some states) (hne : states ≠ []) : s.remembered? h = some states := by
  unfold remembered?
  split
  · rename_i hnil
    rw [hr] at hnil
    exact (hne (Option.some.inj hnil)).elim
  · exact hr

end Store

namespace EntryPlan

variable {c : Chart} {store : Store} {p q : EntryPlan} {n x : NodeId}

/-- What entering a target does to a plan. -/
structure Opened (c : Chart) (store : Store) (x : NodeId) (p q : EntryPlan) : Prop where
  adds : Extends c
    (fun m => c.Within m (c.area x) ∧ ∀ d, c.descends x d = true → c.descends m d = true)
    (fun m => (c.node m).parent = (c.node x).parent) p q
  mem : ∀ y ∈ store.stands c x, y ∈ q.entry
  reached : ∃ y ∈ q.entry, (c.node y).isHistory = false ∧
    ∀ a ∈ (c.node x).ancestors, c.descends y a = true
  tidy : c.Fits p.entry (c.area x) → store.Agrees c x → c.Tidy p.entry → c.Tidy q.entry

variable (hc : c.WellFormed) (hs : store.Recalls c)

include hc hs

/-- What a history stands for: some states below its own, which can be active together if those that it
    has recorded can. -/
theorem historyTargets_spec {owner : NodeId} (hh : (c.node x).isHistory = true)
    (ho : (c.node x).parent = some owner) (p : EntryPlan) :
    ∃ ts q, historyTargets c store x owner p = (ts, q) ∧ store.stands c x = ts ∧
      q.entry = p.entry ∧ ts ≠ [] ∧
      (∀ t ∈ ts, (c.node t).isHistory = false ∧ c.descends t owner = true) ∧
      (store.Agrees c x → ts.Pairwise c.Apart) := by
  rw [Store.stands, if_pos hh]
  unfold historyTargets
  cases hr : store.remembered? x with
  | some states =>
    obtain ⟨hr, hne⟩ := Store.recorded?_of_remembered? hr
    refine ⟨states, p, rfl, rfl, rfl, hne, ?_, fun ha => ha states hr⟩
    intro t ht
    obtain ⟨h₁, h₂⟩ := hs x states hr t ht
    exact ⟨h₁, h₂ owner ho⟩
  | none =>
    obtain ⟨t, ht, hne, hbelow⟩ := hc.default_below hh ho
    rw [ht]
    exact ⟨_, _, rfl, rfl, rfl, hne, hbelow, fun _ => hc.apart_targets t⟩

/-- What a history stands for lies below its state, so it is entered with one call less. -/
theorem opened_history {fuel : Nat} (hf : Suffices c fuel) (hx : x < c.nodes.size)
    (hh : (c.node x).isHistory = true) (p : EntryPlan) :
    ∃ q, enter c store fuel x p = some q ∧ Opened c store x p q := by
  obtain ⟨μ, hμ, hlt⟩ := hf
  obtain ⟨owner, ho⟩ := Option.isSome_iff_exists.1 ((hc.shaped x).top hh)
  have harea := area_of_history hh ho
  have habove {d : NodeId} (h : c.descends x d = true) : c.Within owner d :=
    (hc.descends_iff_within ho).1 h
  obtain ⟨ts, p', hts, hstands, hp', hne, hbelow, hapart⟩ := historyTargets_spec hc hs hh ho p
  obtain ⟨fuel, rfl⟩ := Nat.exists_eq_succ_of_ne_zero (Nat.ne_zero_of_lt (hlt x hx))
  have howner : μ owner < fuel + 1 := hlt owner (Nat.lt_trans (hc.parent_lt ho) hx)
  obtain ⟨q, hq, hadd, hmem, htidy⟩ := enterTargets_spec hc (b := owner)
    (fun m hm hms hd => enters_of_measure hc hμ
      (Nat.lt_of_lt_of_le (hμ m owner hd) (Nat.le_of_lt_succ howner)) hm hms)
    (p := p') hbelow
  refine ⟨q, by rw [enter_history hh ho, hts]; exact hq, ⟨?_, by rwa [hstands], ?_, ?_⟩⟩
  · refine ⟨hp' ▸ hadd.mono, fun m hm => ?_⟩
    rcases hadd.new m hm with hm | ⟨h₁, h₂, h₃⟩
    · exact .inl (hp' ▸ hm)
    · exact .inr ⟨⟨by rw [harea]; exact .inr h₁, fun d hd =>
        hc.descends_of_descends_within h₁ (habove hd)⟩, h₂, h₃.imp_left fun h => h.trans ho.symm⟩
  · obtain ⟨y, hy⟩ := List.exists_mem_of_ne_nil ts hne
    obtain ⟨hys, hyo⟩ := hbelow y hy
    exact ⟨y, hmem y hy, hys, fun a ha =>
      hc.descends_of_descends_within hyo (habove (descends_iff.2 ha))⟩
  · intro hfit ha hp
    refine htidy (fun t ht => ?_) (hapart ha) (hp' ▸ hp)
    rw [hp']
    exact hc.fits_of_descends (harea ▸ hfit) (hbelow t ht).2

/-- Entering a target has an end. -/
theorem opened_enter {fuel : Nat} (hf : Suffices c fuel) (hx : x < c.nodes.size) (p : EntryPlan) :
    ∃ q, enter c store fuel x p = some q ∧ Opened c store x p q := by
  cases hh : (c.node x).isHistory with
  | true => exact opened_history hc hs hf hx hh p
  | false =>
    obtain ⟨μ, hμ, hlt⟩ := hf
    have harea := area_of_state hh
    have henters : Enters c (enter c store fuel) x := enters_of_measure hc hμ (hlt x hx) hx hh
    obtain ⟨q, hq, h⟩ := henters p
    refine ⟨q, hq, ⟨h.adds.weaken (fun m hm => ⟨by rw [harea]; exact hm, ?_⟩) fun m _ e => .inl (e ▸ rfl),
      by simpa [Store.stands_of_state hh] using h.mem,
      ⟨x, h.mem, hh, fun a ha => descends_iff.2 ha⟩, fun hfit _ => h.tidy (harea ▸ hfit)⟩⟩
    exact fun d hd => hc.descends_of_within_descends hm hd

/-- Entering targets one after the other. -/
theorem open_list {fuel : Nat} (hf : Suffices c fuel) : ∀ (xs : List NodeId),
    (∀ x ∈ xs, x < c.nodes.size) → ∀ (p : EntryPlan),
    ∃ q, xs.foldlM (fun p n => enter c store fuel n p) p = some q ∧
      Extends c
        (fun m => ∃ x ∈ xs, c.Within m (c.area x) ∧
          ∀ d, c.descends x d = true → c.descends m d = true)
        (fun m => ∃ x ∈ xs, (c.node m).parent = (c.node x).parent ∧
          ∀ d, c.descends x d = true → c.descends m d = true) p q ∧
      (∀ x ∈ xs, ∀ y ∈ store.stands c x, y ∈ q.entry) ∧
      (∀ x ∈ xs, ∃ y ∈ q.entry, (c.node y).isHistory = false ∧
        ∀ a ∈ (c.node x).ancestors, c.descends y a = true) ∧
      ((∀ x ∈ xs, c.Fits p.entry (c.area x)) → (∀ x ∈ xs, store.Agrees c x) →
        (xs.Pairwise fun x y => c.Apart (c.area x) (c.area y)) → c.Tidy p.entry → c.Tidy q.entry)
  | [], _, p => ⟨p, rfl, .refl p, by simp, by simp, fun _ _ _ h => h⟩
  | x :: xs, hlt, p => by
    obtain ⟨q, hq, h⟩ := opened_enter hc hs hf (hlt x (by simp)) p
    obtain ⟨r, hr, hadd, hmem, hreach, ht⟩ :=
      open_list hf xs (fun k hk => hlt k (List.mem_cons_of_mem _ hk)) q
    refine ⟨r, by rw [List.foldlM_cons, hq]; exact hr, ?_, ?_, ?_, ?_⟩
    · refine Extends.trans (h.adds.weaken (fun m hm => ⟨x, by simp, hm⟩)
        fun m hm e => .inl ⟨x, by simp, e, hm.2⟩) (hadd.weaken ?_ ?_) fun m e => .inl e
      · rintro m ⟨k, hk, hm⟩
        exact ⟨k, List.mem_cons_of_mem _ hk, hm⟩
      · rintro m - ⟨k, hk, hm⟩
        exact .inl ⟨k, List.mem_cons_of_mem _ hk, hm⟩
    · intro k hk y hy
      rcases List.mem_cons.1 hk with rfl | hk
      · exact hadd.mono y (h.mem y hy)
      · exact hmem k hk y hy
    · intro k hk
      rcases List.mem_cons.1 hk with rfl | hk
      · obtain ⟨y, hy, h'⟩ := h.reached
        exact ⟨y, hadd.mono y hy, h'⟩
      · exact hreach k hk
    · intro hfit ha hxs hp
      obtain ⟨hx, hxs⟩ := List.pairwise_cons.1 hxs
      refine ht ?_ (fun k hk => ha k (List.mem_cons_of_mem _ hk)) hxs
        (h.tidy (hfit x (by simp)) (ha x (by simp)) hp)
      intro k hk
      refine hc.fits_of_growth (hfit k (List.mem_cons_of_mem _ hk)) ?_ (hx k hk)
      intro m hm
      exact (h.adds.new m hm).imp_right fun h => h.1.1

omit hs in
/-- Climbing from the targets of transitions to their domains. -/
theorem climb_all {fuel : Nat} (hf : Suffices c fuel) : ∀ (ts : List TransitionId)
    {p : EntryPlan}, (∀ t ∈ ts, ∀ x ∈ (c.transition t).targets, ∃ y ∈ p.entry,
      (c.node y).isHistory = false ∧ ∀ a ∈ (c.node x).ancestors, c.descends y a = true) →
    ∃ q, ts.foldlM (fun p t => (c.transition t).targets.foldlM
        (climbTo c (enter c store fuel) (c.transition t).domain) p) p = some q ∧
      Extends c (fun m => ∃ t ∈ ts, c.Leads t m)
        (fun m => ∃ t ∈ ts, c.Leads t m ∧ (c.node m).parent = (c.transition t).domain) p q ∧
      (∀ t ∈ ts, ∀ x ∈ (c.transition t).targets, (c.node x).parent = (c.transition t).domain ∨
        ∃ a ∈ q.entry, (c.node x).parent = some a) ∧
      (c.Tidy p.entry → c.Tidy q.entry)
  | [], p, _ => ⟨p, rfl, .refl p, by simp, id⟩
  | t :: ts, p, h => by
    obtain ⟨μ, hμ, hlt⟩ := id hf
    obtain ⟨q, hq, hadd, hpar, ht⟩ := climb_list hc (c.transition t).domain
      (fun m hm hms _ => enters_of_measure hc hμ (hlt m hm) hm hms)
      (c.transition t).targets (p := p) fun x hx =>
        ⟨h t (by simp) x hx, (hc.leads_of_target hx).2⟩
    obtain ⟨r, hr, hadd', hpar', ht'⟩ := climb_all hf ts (p := q) fun k hk x hx => by
      obtain ⟨y, hy, h'⟩ := h k (List.mem_cons_of_mem _ hk) x hx
      exact ⟨y, hadd.mono y hy, h'⟩
    refine ⟨r, by rw [List.foldlM_cons, hq]; exact hr, ?_, ?_, ht' ∘ ht⟩
    · have hfirst : Extends c (fun m => ∃ k ∈ t :: ts, c.Leads k m)
          (fun m => ∃ k ∈ t :: ts, c.Leads k m ∧ (c.node m).parent = (c.transition k).domain)
          p q := by
        by_cases hne : (c.transition t).targets = []
        · rw [hne] at hq
          cases hq
          exact .refl p
        · exact hadd.weaken (fun m hm => ⟨t, by simp, hne, hm⟩)
            fun m hm e => .inl ⟨t, by simp, ⟨hne, hm⟩, e⟩
      refine hfirst.trans (hadd'.weaken ?_ ?_) fun m e => .inl e
      · rintro m ⟨k, hk, hm⟩
        exact ⟨k, List.mem_cons_of_mem _ hk, hm⟩
      · rintro m - ⟨k, hk, hm⟩
        exact .inl ⟨k, List.mem_cons_of_mem _ hk, hm⟩
    · intro k hk x hx
      rcases List.mem_cons.1 hk with rfl | hk
      · exact (hpar x hx).imp_right fun ⟨a, ha, e⟩ => ⟨a, hadd'.mono a ha, e⟩
      · exact hpar' k hk x hx

/-- What the plan of a step is like: every state in it has its children in it too, and its parent
    unless that is a domain; and it holds the targets, or what histories among them stand for. -/
structure Planned (c : Chart) (ts : List TransitionId) (p : EntryPlan) : Prop where
  complete : ∀ m ∈ p.entry, c.Complete p.entry m
  led : ∀ m ∈ p.entry, ∃ t ∈ ts, c.Leads t m
  placed : ∀ m ∈ p.entry,
    (∃ t ∈ ts, c.Leads t m ∧ (c.node m).parent = (c.transition t).domain) ∨
      ∃ a ∈ p.entry, (c.node m).parent = some a
  target : ∀ t ∈ ts, ∀ x ∈ (c.transition t).targets, (c.node x).isHistory = false → x ∈ p.entry
  reached : ∀ t ∈ ts, (c.transition t).targets ≠ [] → ∃ y ∈ p.entry, c.Leads t y

omit hc hs in
theorem mem_targetsOf {ts : List TransitionId} :
    x ∈ targetsOf c ts ↔ ∃ t ∈ ts, x ∈ (c.transition t).targets := by
  unfold targetsOf
  rw [List.mem_append, List.mem_filter, List.mem_filter, List.mem_eraseDups, List.mem_flatMap]
  cases (c.node x).isHistory <;> simp

/-- The states that transitions enter, if entering takes no more than so many calls inside one
    another. -/
def within (c : Chart) (store : Store) (fuel : Nat) (ts : List TransitionId) : Option EntryPlan := do
  let enter := enter c store fuel
  let p ← (targetsOf c ts).foldlM (fun p n => enter n p) empty
  ts.foldlM (fun p t => (c.transition t).targets.foldlM (climbTo c enter (c.transition t).domain) p) p

omit hc hs in
theorem within_depthBound (ts : List TransitionId) :
    within c store (depthBound c) ts = ofTransitions c store ts := rfl

/-- Every step has a plan, which enters what its targets stand for; and if nothing keeps the areas of the
    targets from being active together, the plan enters no two rivals. -/
theorem planned_within {fuel : Nat} (hf : Suffices c fuel) (ts : List TransitionId) :
    ∃ p, within c store fuel ts = some p ∧ Planned c ts p ∧
      (∀ x ∈ targetsOf c ts, ∀ y ∈ store.stands c x, y ∈ p.entry) ∧
      ((∀ x ∈ targetsOf c ts, store.Agrees c x) →
        ((targetsOf c ts).Pairwise fun x y => c.Apart (c.area x) (c.area y)) →
        c.Tidy p.entry) := by
  obtain ⟨q, hq, hadd, hmem, hreach, ht⟩ := open_list hc hs hf (targetsOf c ts)
    (fun x hx => by obtain ⟨t, -, hx⟩ := mem_targetsOf.1 hx; exact hc.target_lt hx) empty
  have hreach' : ∀ t ∈ ts, ∀ x ∈ (c.transition t).targets, ∃ y ∈ q.entry,
      (c.node y).isHistory = false ∧ ∀ a ∈ (c.node x).ancestors, c.descends y a = true :=
    fun t ht x hx => hreach x (mem_targetsOf.2 ⟨t, ht, hx⟩)
  obtain ⟨r, hr, hadd', hpar, ht'⟩ := climb_all hc hf ts hreach'
  have leads {t : TransitionId} {x m : NodeId} (hx : x ∈ (c.transition t).targets)
      (h : ∀ d, c.descends x d = true → c.descends m d = true) : c.Leads t m :=
    ⟨List.ne_nil_of_mem hx, fun d hd => h d ((hc.leads_of_target hx).2 d hd)⟩
  have hopened : Extends c (fun m => ∃ t ∈ ts, c.Leads t m) (fun m => ∃ t ∈ ts, c.Leads t m ∧
      ∃ x ∈ (c.transition t).targets, (c.node m).parent = (c.node x).parent) empty q := by
    refine hadd.weaken ?_ ?_
    · rintro m ⟨x, hx, -, hd⟩
      obtain ⟨t, ht, hx⟩ := mem_targetsOf.1 hx
      exact ⟨t, ht, leads hx hd⟩
    · rintro m - ⟨x, hx, e, hd⟩
      obtain ⟨t, ht, hx⟩ := mem_targetsOf.1 hx
      exact .inl ⟨t, ht, leads hx hd, x, hx, e⟩
  have hall : Extends c (fun m => ∃ t ∈ ts, c.Leads t m)
      (fun m => ∃ t ∈ ts, c.Leads t m ∧ (c.node m).parent = (c.transition t).domain) empty r := by
    refine hopened.trans hadd' ?_
    rintro m ⟨t, ht, hm, x, hx, e⟩
    rw [e]
    exact (hpar t ht x hx).imp_left fun h => ⟨t, ht, hm, h⟩
  refine ⟨r, ?_, ⟨?_, ?_, ?_, ?_, ?_⟩, fun x hx y hy => hadd'.mono y (hmem x hx y hy), ?_⟩
  · simp only [within, hq]
    exact hr
  · intro m hm
    exact ((hall.new m hm).resolve_left List.not_mem_nil).2.1
  · intro m hm
    exact ((hall.new m hm).resolve_left List.not_mem_nil).1
  · intro m hm
    exact ((hall.new m hm).resolve_left List.not_mem_nil).2.2
  · intro t ht x hx hs
    exact hadd'.mono x (hmem x (mem_targetsOf.2 ⟨t, ht, hx⟩) x (by simp [Store.stands_of_state hs]))
  · intro t ht hne
    obtain ⟨x, xs, e⟩ := List.exists_cons_of_ne_nil hne
    have hx : x ∈ (c.transition t).targets := by simp [e]
    obtain ⟨y, hy, -, hanc⟩ := hreach' t ht x hx
    exact ⟨y, hadd'.mono y hy, leads hx fun d hd => hanc d (descends_iff.1 hd)⟩
  · intro ha hp
    have hnone {n : NodeId} : ¬c.Covers empty.entry n := fun ⟨_, hx, _⟩ => List.not_mem_nil hx
    intro m n
    exact ht' (ht (fun _ _ => ⟨hnone, fun _ _ h => absurd h hnone⟩) ha hp fun _ h => absurd h hnone)

omit hs in
theorem suffices_depthBound : Suffices c (depthBound c) :=
  suffices_of_size hc
    (Nat.lt_of_lt_of_le (Nat.lt_add_of_pos_right Nat.two_pos) (Nat.le_mul_self (c.nodes.size + 2)))

omit hs in
/-- The plan of a step comes about in two parts: its targets are entered, and then the states between
    each of them and the domain of its transition. -/
theorem parts_of_ofTransitions {ts : List TransitionId} (hp : ofTransitions c store ts = some p) :
    ∃ fuel q, Suffices c (fuel + 1) ∧
      (targetsOf c ts).foldlM (fun p n => enter c store (fuel + 1) n p) empty = some q ∧
      ts.foldlM (fun p t => (c.transition t).targets.foldlM
        (climbTo c (enter c store (fuel + 1)) (c.transition t).domain) p) q = some p := by
  obtain ⟨fuel, hfuel⟩ : ∃ fuel, depthBound c = fuel + 1 :=
    Nat.exists_eq_succ_of_ne_zero (by simp [depthBound])
  simp only [ofTransitions, hfuel] at hp
  obtain ⟨q, hq, hp⟩ := Option.bind_eq_some_iff.1 hp
  exact ⟨fuel, q, hfuel ▸ suffices_depthBound hc, hq, hp⟩

/-- Every step has a plan. -/
theorem planned_ofTransitions (ts : List TransitionId) :
    ∃ p, ofTransitions c store ts = some p ∧ Planned c ts p ∧
      (∀ x ∈ targetsOf c ts, ∀ y ∈ store.stands c x, y ∈ p.entry) ∧
      ((∀ x ∈ targetsOf c ts, store.Agrees c x) →
        ((targetsOf c ts).Pairwise fun x y => c.Apart (c.area x) (c.area y)) →
        c.Tidy p.entry) := planned_within hc hs (suffices_depthBound hc) ts

end EntryPlan
end Statechart
