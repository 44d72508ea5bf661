import Statechart.Proofs.DefaultEntry

/-! Which of the states that a step enters are entered through their initial transitions.

    A step is bound for the states that its targets stand for, and from there on for the targets of the
    initial transitions of those it enters. A compound state for which it is bound is entered through its
    initial transition, and so is a region of a parallel state that is entered along with it; what is
    entered otherwise lies on the way to something further below. -/

namespace Statechart

open Chart

namespace Chart

/-- Where the initial transition of a state leads, or the default of a history. -/
def onward (c : Chart) (n : NodeId) : List NodeId :=
  ((c.node n).initial.map fun t => (c.transition t).targets).getD []

/-- Whether a step that names some states is bound for `x`, as seen from `n`: `x` is named, or the initial
    transition of a state above `n` that is entered through it leads there. -/
def Bound (c : Chart) (named : NodeId → Prop) (D : NodeSet) (n x : NodeId) : Prop :=
  named x ∨ ∃ m ∈ D, c.descends n m = true ∧ x ∈ c.onward m

/-- Whether a state is entered through its initial transition for a reason: everything that transition
    leads to is entered, and in the same way; and the step is bound for the state, or it is a region of
    an entered parallel state. -/
structure Begins (c : Chart) (named : NodeId → Prop) (E D : NodeSet) (n : NodeId) : Prop where
  entered : n ∈ E
  compound : (c.node n).isCompound = true
  onward : ∀ x ∈ c.onward n, x ∈ E ∧ ((c.node x).isCompound = true → x ∈ D)
  meant : c.Bound named D n n ∨ ∃ p ∈ E, (c.node p).isParallel = true ∧ n ∈ (c.node p).children

/-- Whether a compound state is entered through its initial transition unless it lies on the way to
    something that the step is bound for. -/
def Passed (c : Chart) (named : NodeId → Prop) (D : NodeSet) (n : NodeId) : Prop :=
  (c.node n).isCompound = true → n ∈ D ∨ ∃ x, c.Bound named D n x ∧ c.descends x n = true

/-- Which of the states that are entered are entered through their initial transitions, if a step names
    some states. -/
structure Begun (c : Chart) (named : NodeId → Prop) (E D : NodeSet) : Prop where
  present : ∀ x, named x → x ∈ E ∧ ((c.node x).isCompound = true → x ∈ D)
  begins : ∀ n ∈ D, c.Begins named E D n
  passed : ∀ n ∈ E, c.Passed named D n

variable {c : Chart} {named named' : NodeId → Prop} {E E' D D' : NodeSet} {m n x : NodeId}
  {t : TransitionId}

theorem onward_of_initial (h : (c.node n).initial = some t) : c.onward n = (c.transition t).targets := by
  rw [onward, h]
  rfl

theorem Bound.mono (hD : ∀ m ∈ D, m ∈ D') (h : c.Bound named D n x) : c.Bound named D' n x :=
  h.imp_right fun ⟨m, hm, hn, hx⟩ => ⟨m, hD m hm, hn, hx⟩

theorem Begins.mono (hE : ∀ m ∈ E, m ∈ E') (hD : ∀ m ∈ D, m ∈ D') (h : c.Begins named E D n) :
    c.Begins named E' D' n where
  entered := hE n h.entered
  compound := h.compound
  onward x hx := (h.onward x hx).imp (hE x) fun hd hc => hD x (hd hc)
  meant := h.meant.imp (.mono hD) fun ⟨p, hp, hn⟩ => ⟨p, hE p hp, hn⟩

theorem Passed.mono (hD : ∀ m ∈ D, m ∈ D') (h : c.Passed named D n) : c.Passed named D' n :=
  fun hn => (h hn).imp (hD n) fun ⟨x, hx, hd⟩ => ⟨x, hx.mono hD, hd⟩

end Chart

namespace EntryPlan

variable {c : Chart} {store : Store} {named named' inside inside' : NodeId → Prop}
  {p q r : EntryPlan} {a b m n x y : NodeId} {X : List NodeId}

/-- What a part of the construction notes in a plan: it works inside somewhere, is bound for some states,
    and follows no history. -/
structure Noted (c : Chart) (named inside : NodeId → Prop) (p q : EntryPlan) : Prop where
  entries : ∀ n ∈ p.entry, n ∈ q.entry
  kept : ∀ n ∈ p.defaultEntry, n ∈ q.defaultEntry
  histories : q.defaultHistory = p.defaultHistory
  begins : ∀ n ∈ q.defaultEntry, n ∈ p.defaultEntry ∨ c.Begins named q.entry q.defaultEntry n
  passed : ∀ n ∈ q.entry, n ∈ p.entry ∨ inside n ∧ c.Passed named q.defaultEntry n

namespace Noted

theorem refl (p : EntryPlan) : Noted c named inside p p where
  entries _ h := h
  kept _ h := h
  histories := rfl
  begins _ h := .inl h
  passed _ h := .inl h

theorem trans (h : Noted c named inside p q) (h' : Noted c named inside q r) :
    Noted c named inside p r where
  entries n hn := h'.entries n (h.entries n hn)
  kept n hn := h'.kept n (h.kept n hn)
  histories := h'.histories.trans h.histories
  begins n hn := by
    rcases h'.begins n hn with hn | hn
    · exact (h.begins n hn).imp_right (.mono h'.entries h'.kept)
    · exact .inr hn
  passed n hn := by
    rcases h'.passed n hn with hn | hn
    · exact (h.passed n hn).imp_right (And.imp_right (.mono h'.kept))
    · exact .inr hn

/-- One part of the construction seen as a part of another, which is bound for what it is bound for or
    has it as a region, and does not pass it on the way. -/
theorem within (h : Noted c named inside p q) (hin : ∀ n, inside n → inside' n)
    (hself : ∀ n, named n → c.Bound named' q.defaultEntry n n ∨
      ∃ a ∈ q.entry, (c.node a).isParallel = true ∧ n ∈ (c.node a).children)
    (hpast : ∀ n x, inside n → named x → c.descends x n = true → c.Bound named' q.defaultEntry n x) :
    Noted c named' inside' p q where
  entries := h.entries
  kept := h.kept
  histories := h.histories
  begins n hn := by
    refine (h.begins n hn).imp_right fun hb => { hb with meant := ?_ }
    rcases hb.meant with (hn | hm) | hp
    · exact hself n hn
    · exact .inl (.inr hm)
    · exact .inr hp
  passed n hn := by
    refine (h.passed n hn).imp_right fun ⟨hi, hp⟩ => ⟨hin n hi, fun hcn => ?_⟩
    refine (hp hcn).imp_right ?_
    rintro ⟨x, hx | hm, hd⟩
    · exact ⟨x, hpast n x hi hx hd, hd⟩
    · exact ⟨x, .inr hm, hd⟩

end Noted

/-- What entering a state notes. -/
structure Visited (c : Chart) (m : NodeId) (p q : EntryPlan) : Prop where
  noted : Noted c (· = m) (c.Within · m) p q
  mem : m ∈ q.entry
  begun : (c.node m).isCompound = true → m ∈ q.defaultEntry

/-- Whether a function notes what entering a state should. -/
def Visits (c : Chart) (enter : NodeId → EntryPlan → Option EntryPlan) (m : NodeId) : Prop :=
  ∀ {p q}, enter m p = some q → Visited c m p q

section

variable {enter : NodeId → EntryPlan → Option EntryPlan} (hc : c.WellFormed)
  (he : ∀ m, (c.node m).isHistory = false → Visits c enter m)

include hc he

/-- Filling the regions of an entered parallel state. -/
theorem noted_fillRegions (ha : (c.node a).isParallel = true) (hmem : a ∈ p.entry)
    (hin : ∀ n, c.descends n a = true → inside n) (hq : fillRegions c enter a p = some q) :
    Noted c named inside p q := by
  refine foldlM_rel (I := fun p => a ∈ p.entry) .refl .trans (fun hp h => h.entries a hp) _ hmem ?_ hq
  intro m hm p q hmem hq
  obtain ⟨hpar, hstate⟩ := hc.mem_children.1 hm
  split at hq
  · cases hq
    exact .refl p
  · have hv := (he m hstate hq).noted
    refine hv.within (fun n hn => ?_) (fun n hn => ?_) fun n x hn hx hd => ?_
    · exact hin n (hc.descends_of_within_descends hn (hc.descends_parent hpar))
    · exact .inr ⟨a, hv.entries a hmem, ha, hn ▸ hm⟩
    · -- nothing within the region lies above it
      exact (hc.not_within_of_descends (hx ▸ hd) hn).elim

/-- Adding a state that lies on the way to something the step is bound for. -/
theorem noted_enterAbove (hx : named x) (hxa : c.descends x a = true)
    (hin : ∀ n, c.Within n a → inside n) (hq : enterAbove c enter p a = some q) :
    Noted c named inside p q := by
  have hadd : Noted c named inside p (p.add a) := by
    refine ⟨fun n hn => mem_entry_add.2 (.inr hn), fun _ hn => hn, rfl, fun _ hn => .inl hn, ?_⟩
    intro n hn
    rcases mem_entry_add.1 hn with rfl | hn
    · exact .inr ⟨hin n (.refl n), fun _ => .inr ⟨x, .inl hx, hxa⟩⟩
    · exact .inl hn
  unfold enterAbove at hq
  split at hq
  · rename_i hpar
    exact hadd.trans (noted_fillRegions hc he hpar (mem_entry_add.2 (.inl rfl))
      (fun n hn => hin n (.inr hn)) hq)
  · cases hq
    exact hadd

/-- Climbing to a boundary from something the step is bound for. -/
theorem noted_climbTo {boundary : Option NodeId} (hx : named x)
    (hy : ∀ a ∈ (c.node y).ancestors, c.descends x a = true)
    (hin : ∀ a ∈ (c.node y).ancestors.takeWhile fun a => some a ≠ boundary, ∀ n, c.Within n a → inside n)
    (hq : climbTo c enter boundary p y = some q) : Noted c named inside p q := by
  refine foldlM_rel .refl .trans (I := fun _ => True) (fun _ _ => trivial) _ trivial
    (fun a ha p q _ hq => ?_) hq
  exact noted_enterAbove hc he hx (hy a ((List.takeWhile_sublist _).mem ha)) (hin a ha) hq

omit hc in
/-- Entering states that the step names. -/
theorem noted_enterList : ∀ (X : List NodeId) {p q : EntryPlan},
    (∀ x ∈ X, (c.node x).isHistory = false ∧ named x ∧ ∀ n, c.Within n x → inside n) →
    X.foldlM (fun p n => enter n p) p = some q → Noted c named inside p q ∧
      ∀ x ∈ X, x ∈ q.entry ∧ ((c.node x).isCompound = true → x ∈ q.defaultEntry)
  | [], p, q, _, hq => by
    cases hq
    exact ⟨.refl p, by simp⟩
  | x :: X, p, q, hX, hq => by
    rw [List.foldlM_cons] at hq
    obtain ⟨r, hr, hq⟩ := Option.bind_eq_some_iff.1 hq
    obtain ⟨hstate, hx, hin⟩ := hX x (by simp)
    have hv := he x hstate hr
    have hone : Noted c named inside p r :=
      hv.noted.within hin (fun n hn => .inl (.inl (hn ▸ hx))) fun n y _ hy _ => .inl (hy ▸ hx)
    obtain ⟨hrest, hmem⟩ := noted_enterList X (fun y hy => hX y (List.mem_cons_of_mem _ hy)) hq
    refine ⟨hone.trans hrest, fun y hy => ?_⟩
    rcases List.mem_cons.1 hy with rfl | hy
    · exact ⟨hrest.entries y hv.mem, fun hcy => hrest.kept y (hv.begun hcy)⟩
    · exact hmem y hy

/-- Entering states below a boundary, with what lies between. -/
theorem noted_enterTargets (hX : ∀ x ∈ X, (c.node x).isHistory = false ∧ c.descends x b = true)
    (hq : enterTargets c enter b X p = some q) : Noted c (· ∈ X) (c.descends · b = true) p q ∧
      ∀ x ∈ X, x ∈ q.entry ∧ ((c.node x).isCompound = true → x ∈ q.defaultEntry) := by
  obtain ⟨r, hr, hq⟩ := Option.bind_eq_some_iff.1 hq
  obtain ⟨hlist, hmem⟩ : Noted c (· ∈ X) (c.descends · b = true) p r ∧
      ∀ x ∈ X, x ∈ r.entry ∧ ((c.node x).isCompound = true → x ∈ r.defaultEntry) :=
    noted_enterList he X
      (fun x hx => ⟨(hX x hx).1, hx, fun n hn => hc.descends_of_within_descends hn (hX x hx).2⟩) hr
  have hclimb : Noted c (· ∈ X) (c.descends · b = true) r q := by
    refine foldlM_rel .refl .trans (I := fun _ => True) (fun _ _ => trivial) X trivial
      (fun x hx p q _ hq => ?_) hq
    refine noted_climbTo hc he hx (fun a ha => descends_iff.2 ha) (fun a ha n hn => ?_) hq
    exact hc.descends_of_within_descends hn ((hc.mem_takeWhile_ancestors (hX x hx).2).1 ha).2
  refine ⟨hlist.trans hclimb, fun x hx => ?_⟩
  exact (hmem x hx).imp (hclimb.entries x) fun h hcx => hclimb.kept x (h hcx)

end

/-- Adding a state without children that are entered one at a time. -/
theorem noted_add {m : NodeId} (hn : (c.node m).isCompound = false) :
    Noted c (· = m) (c.Within · m) p (p.add m) where
  entries n hn := mem_entry_add.2 (.inr hn)
  kept _ hn := hn
  histories := rfl
  begins _ hn := .inl hn
  passed n hn' := by
    rcases mem_entry_add.1 hn' with rfl | hn'
    · exact .inr ⟨.refl n, fun h => by rw [hn] at h; cases h⟩
    · exact .inl hn'

/-- Entering a state notes what it should. The induction is on the fuel, which bounds the depth of the
    recursion. -/
theorem visits_enter (hc : c.WellFormed) {fuel : Nat} {m : NodeId}
    (hm : (c.node m).isHistory = false) : Visits c (enter c store fuel) m := by
  induction fuel generalizing m with
  | zero =>
    intro p q hq
    cases hq
  | succ fuel ih =>
    intro p q hq
    have hself : m ∈ (p.add m).entry := mem_entry_add.2 (.inl rfl)
    cases stateEntry_of_enter hc hm hq with
    | parallel hp hn hq =>
      have hfill : Noted c (· = m) (c.Within · m) (p.add m) q :=
        noted_fillRegions hc (fun k hk => ih hk) hp hself (fun n hn => .inr hn) hq
      exact ⟨(noted_add hn).trans hfill, hfill.entries m hself, fun h => by rw [hn] at h; cases h⟩
    | @compound t hcp ht hts hq =>
      have honward := onward_of_initial ht
      obtain ⟨hbelow, hmem⟩ := noted_enterTargets hc (fun k hk => ih hk) hts hq
      have hbegun := hbelow.kept m (NodeSet.mem_insert.2 (.inl rfl))
      -- what the initial transition leads to the step is bound for from below the state
      have hnoted : Noted c (· = m) (c.Within · m)
          { p.add m with defaultEntry := NodeSet.insert m p.defaultEntry } q := by
        refine hbelow.within (fun n hn => .inr hn) (fun n hn => ?_) fun n x hn hx _ => ?_
        · exact .inl (.inr ⟨m, hbegun, (hts n hn).2, honward ▸ hn⟩)
        · exact .inr ⟨m, hbegun, hn, honward ▸ hx⟩
      refine ⟨⟨?_, ?_, hnoted.histories, ?_, ?_⟩, hnoted.entries m hself, fun _ => hbegun⟩
      · exact fun n hn => hnoted.entries n (mem_entry_add.2 (.inr hn))
      · exact fun n hn => hnoted.kept n (NodeSet.mem_insert.2 (.inr hn))
      · intro n hn
        rcases hnoted.begins n hn with hn | hn
        · rcases NodeSet.mem_insert.1 hn with rfl | hn
          · exact .inr ⟨hnoted.entries n hself, hcp, honward ▸ hmem, .inl (.inl rfl)⟩
          · exact .inl hn
        · exact .inr hn
      · intro n hn
        rcases hnoted.passed n hn with hn | hn
        · rcases mem_entry_add.1 hn with rfl | hn
          · exact .inr ⟨.refl n, fun _ => .inl hbegun⟩
          · exact .inl hn
        · exact .inr hn
    | leaf _ hcp hq =>
      cases hq
      exact ⟨noted_add hcp, hself, fun h => by rw [hcp] at h; cases h⟩

/-! ### Whole steps -/

/-- The default that a target takes: that of a history without a record, for the state whose history it
    is. -/
def defaultOf? (c : Chart) (store : Store) (x : NodeId) : Option (NodeId × TransitionId) :=
  match (c.node x).parent, (c.node x).initial with
  | some owner, some t =>
    if (c.node x).isHistory && (store.remembered? x).isNone then some (owner, t) else none
  | _, _ => none

/-- Whether a state is one that the targets of transitions stand for. -/
def Named (c : Chart) (store : Store) (ts : List TransitionId) (y : NodeId) : Prop :=
  ∃ x ∈ targetsOf c ts, y ∈ store.stands c x

/-- What is the case between two parts of the construction. -/
structure Drafted (c : Chart) (named : NodeId → Prop) (p : EntryPlan) : Prop where
  begins : ∀ n ∈ p.defaultEntry, c.Begins named p.entry p.defaultEntry n
  passed : ∀ n ∈ p.entry, c.Passed named p.defaultEntry n

theorem Drafted.noted (h : Drafted c named p) (hn : Noted c named inside p q) : Drafted c named q where
  begins n hm := (hn.begins n hm).elim (fun hm => (h.begins n hm).mono hn.entries hn.kept) id
  passed n hm := (hn.passed n hm).elim (fun hm => (h.passed n hm).mono hn.kept) And.right

section

variable (hc : c.WellFormed) (hs : store.Recalls c)

include hc hs

/-- Entering a target: what it stands for is noted, and its default if it is a history without a
    record. -/
theorem noted_target {fuel : Nat} (hx : ∀ y ∈ store.stands c x, named y)
    (hq : enter c store (fuel + 1) x p = some q) :
    Noted c named (c.Within · (c.area x)) { p with
        defaultHistory := Dict.insertAll p.defaultHistory (defaultOf? c store x).toList } q ∧
      ∀ y ∈ store.stands c x, y ∈ q.entry ∧ ((c.node y).isCompound = true → y ∈ q.defaultEntry) := by
  by_cases hh : (c.node x).isHistory = true
  · obtain ⟨owner, ho⟩ := Option.isSome_iff_exists.1 ((hc.shaped x).top hh)
    obtain ⟨ts, p', hts, hstands, -, -, hbelow, -⟩ := historyTargets_spec hc hs hh ho p
    have hp' : p' = { p with
        defaultHistory := Dict.insertAll p.defaultHistory (defaultOf? c store x).toList } := by
      obtain ⟨t, ht, -⟩ := hc.default_below hh ho
      unfold historyTargets at hts
      cases hr : store.remembered? x with
      | some states =>
        rw [hr] at hts
        cases hts
        simp [defaultOf?, ho, ht, hr, Dict.insertAll]
      | none =>
        rw [hr, ht] at hts
        cases hts
        simp [defaultOf?, ho, ht, hr, hh, Dict.insertAll]
    rw [enter_history hh ho, hts] at hq
    obtain ⟨hnoted, hmem⟩ := noted_enterTargets hc (fun k hk => visits_enter hc hk) hbelow hq
    rw [hstands] at hx ⊢
    refine ⟨hp' ▸ hnoted.within (fun n hn => ?_) (fun n hn => .inl (.inl (hx n hn)))
      fun n y _ hy _ => .inl (hx y hy), hmem⟩
    rw [area_of_history hh ho]
    exact .inr hn
  · have hstate : (c.node x).isHistory = false := Bool.eq_false_iff.2 hh
    have hnone : defaultOf? c store x = none := by
      unfold defaultOf?
      split <;> simp [hstate]
    rw [Store.stands_of_state hstate] at hx ⊢
    have hv : Visited c x p q := visits_enter hc hstate hq
    rw [hnone, area_of_state hstate]
    refine ⟨hv.noted.within (fun _ hn => hn) (fun n hn => .inl (.inl ?_)) fun n y _ hy _ => .inl ?_,
      fun y hy => ?_⟩
    · exact hn ▸ hx x (by simp)
    · exact hy ▸ hx x (by simp)
    · obtain rfl := List.mem_singleton.1 hy
      exact ⟨hv.mem, hv.begun⟩

/-- Entering the targets one after the other. -/
theorem drafted_targets {fuel : Nat} : ∀ (xs : List NodeId) {p q : EntryPlan},
    (∀ x ∈ xs, ∀ y ∈ store.stands c x, named y) → Drafted c named p →
    xs.foldlM (fun p n => enter c store (fuel + 1) n p) p = some q →
    Drafted c named q ∧ (∀ n ∈ p.entry, n ∈ q.entry) ∧
      (∀ n ∈ p.defaultEntry, n ∈ q.defaultEntry) ∧
      q.defaultHistory = Dict.insertAll p.defaultHistory (xs.filterMap (defaultOf? c store)) ∧
      ∀ x ∈ xs, ∀ y ∈ store.stands c x,
        y ∈ q.entry ∧ ((c.node y).isCompound = true → y ∈ q.defaultEntry)
  | [], p, q, _, hp, hq => by
    cases hq
    exact ⟨hp, fun _ h => h, fun _ h => h, rfl, by simp⟩
  | x :: xs, p, q, hxs, hp, hq => by
    rw [List.foldlM_cons] at hq
    obtain ⟨r, hr, hq⟩ := Option.bind_eq_some_iff.1 hq
    obtain ⟨hnoted, hmem⟩ := noted_target hc hs (hxs x (by simp)) hr
    have hnote : Drafted c named { p with
        defaultHistory := Dict.insertAll p.defaultHistory (defaultOf? c store x).toList } :=
      ⟨hp.begins, hp.passed⟩
    obtain ⟨hq, hentries, hkept, hhist, hrest⟩ :=
      drafted_targets xs (fun y hy => hxs y (List.mem_cons_of_mem _ hy)) (hnote.noted hnoted) hq
    refine ⟨hq, fun n hn => hentries n (hnoted.entries n hn), fun n hn => hkept n (hnoted.kept n hn),
      ?_, fun y hy z hz => ?_⟩
    · rw [hhist, hnoted.histories, List.filterMap_cons]
      cases defaultOf? c store x <;> rfl
    rcases List.mem_cons.1 hy with rfl | hy
    · exact (hmem z hz).imp (hentries z) fun h hcz => hkept z (h hcz)
    · exact hrest y hy z hz

/-- A target stands for something that lies below everything that lies above it. -/
theorem exists_stand (x : NodeId) :
    ∃ y ∈ store.stands c x, ∀ a ∈ (c.node x).ancestors, c.descends y a = true := by
  by_cases hh : (c.node x).isHistory = true
  · obtain ⟨owner, ho⟩ := Option.isSome_iff_exists.1 ((hc.shaped x).top hh)
    obtain ⟨ts, -, -, hstands, -, hne, hbelow, -⟩ := historyTargets_spec hc hs hh ho empty
    obtain ⟨y, ys, e⟩ := List.exists_cons_of_ne_nil hne
    have hy : y ∈ ts := by simp [e]
    refine ⟨y, hstands ▸ hy, fun a ha => ?_⟩
    rw [hc.ancestors_some ho, List.mem_cons, ← descends_iff] at ha
    exact hc.descends_of_descends_within (hbelow y hy).2 (ha.imp_left Eq.symm)
  · rw [Store.stands_of_state (Bool.eq_false_iff.2 hh)]
    exact ⟨x, by simp, fun a ha => descends_iff.2 ha⟩

/-- The plan of a step once all targets have been entered, and how it gets from there to its end. -/
theorem exists_opened {ts : List TransitionId} (hp : ofTransitions c store ts = some p) : ∃ fuel q,
    (targetsOf c ts).foldlM (fun p n => enter c store (fuel + 1) n p) empty = some q ∧
    ts.foldlM (fun p t => (c.transition t).targets.foldlM
      (climbTo c (enter c store (fuel + 1)) (c.transition t).domain) p) q = some p ∧
    Drafted c (Named c store ts) q ∧
    q.defaultHistory = Dict.ofList ((targetsOf c ts).filterMap (defaultOf? c store)) ∧
    ∀ y, Named c store ts y →
      y ∈ q.entry ∧ ((c.node y).isCompound = true → y ∈ q.defaultEntry) := by
  obtain ⟨fuel, q, -, hq, hp⟩ := parts_of_ofTransitions hc hp
  have hempty : Drafted c (Named c store ts) empty := ⟨by simp [empty], by simp [empty]⟩
  obtain ⟨hdraft, -, -, hhist, hmem⟩ :=
    drafted_targets hc hs _ (fun x hx y hy => ⟨x, hx, hy⟩) hempty hq
  refine ⟨fuel, q, hq, hp, hdraft, hhist, fun y hy => ?_⟩
  obtain ⟨x, hx, hy⟩ := hy
  exact hmem x hx y hy

/-- In the plan of a step every state that is entered through its initial transition is so for a reason,
    every other compound state lies on the way to something the step is bound for, and the defaults of
    histories are those of the targets without a record. -/
theorem begun_ofTransitions {ts : List TransitionId} (hp : ofTransitions c store ts = some p) :
    c.Begun (Named c store ts) p.entry p.defaultEntry ∧
      p.defaultHistory = Dict.ofList ((targetsOf c ts).filterMap (defaultOf? c store)) := by
  obtain ⟨fuel, q, -, hp, hdraft, hhist, hmem⟩ := exists_opened hc hs hp
  have hclimb : Noted c (Named c store ts) (fun _ => True) q p := by
    refine foldlM_rel .refl .trans (I := fun _ => True) (fun _ _ => trivial) ts trivial
      (fun t ht p q _ hq => ?_) hp
    refine foldlM_rel .refl .trans (I := fun _ => True) (fun _ _ => trivial) _ trivial
      (fun x hx p q _ hq => ?_) hq
    obtain ⟨y, hy, hanc⟩ := exists_stand hc hs x
    exact noted_climbTo hc (fun m hm => visits_enter hc hm)
      ⟨x, mem_targetsOf.2 ⟨t, ht, hx⟩, hy⟩ hanc (fun _ _ _ _ => trivial) hq
  refine ⟨⟨?_, (hdraft.noted hclimb).begins, (hdraft.noted hclimb).passed⟩,
    hclimb.histories.trans hhist⟩
  exact fun y hy => (hmem y hy).imp (hclimb.entries y) fun h hcy => hclimb.kept y (h hcy)

end

end EntryPlan
end Statechart
