import Statechart.Proofs.InitialEntry

/-! Where the entering of states starts from.

    A plan grows from roots: the states that the step names, and the regions beside them of the parallel
    states above. If none of what is named lies within another, neither does a root, and everything that
    is entered through its initial transition belongs to one root. So nothing that a step is bound for
    lies below a state that it enters through its initial transition. -/

namespace Statechart

open Chart

namespace Chart

/-- Whether entering starts from a node if some states are named: from those, and from the regions
    without any of them of parallel states above one. -/
inductive Root (c : Chart) (named : NodeId → Prop) : NodeId → Prop where
  | named {k : NodeId} (h : named k) : Root c named k
  | beside {a k x : NodeId} (ha : (c.node a).isParallel = true) (hk : k ∈ (c.node a).children)
      (hx : named x) (hxa : c.descends x a = true) (hfree : ∀ y, named y → ¬c.Within y k) :
      Root c named k

/-- Whether entering `m` by default enters `n` through its initial transition. -/
inductive Through (c : Chart) : NodeId → NodeId → Prop where
  | self {m : NodeId} (hm : (c.node m).isCompound = true) : Through c m m
  | region {m k n : NodeId} (hm : (c.node m).isParallel = true) (hk : k ∈ (c.node m).children)
      (h : Through c k n) : Through c m n
  | onward {m k n : NodeId} (hm : (c.node m).isCompound = true) (hk : c.Root (· ∈ c.onward m) k)
      (hkm : c.descends k m = true) (h : Through c k n) : Through c m n

/-- Whether of the named states none lies within another. -/
def Scattered (c : Chart) (named : NodeId → Prop) : Prop :=
  ∀ x y, named x → named y → c.Within x y → x = y

variable {c : Chart} {named : NodeId → Prop} {k l m n x T : NodeId}

namespace Root

variable (hc : c.WellFormed) (hs : c.Scattered named)

include hc hs

/-- No named state lies below a root. -/
theorem clear (hk : c.Root named k) (hx : named x) : c.descends x k = false := by
  refine Bool.eq_false_iff.2 fun hd => ?_
  cases hk with
  | named hk =>
    exact hc.ne_of_descends hd (hs x k hx hk (.inr hd))
  | beside _ _ _ _ hfree => exact hfree x hx (.inr hd)

/-- No root lies within another. -/
theorem eq_of_within (hk : c.Root named k) (hl : c.Root named l) (hw : c.Within k l) : k = l := by
  cases hk with
  | named hk =>
    cases hl with
    | named hl => exact hs k l hk hl hw
    | beside _ _ _ _ hfree => exact absurd hw (hfree k hk)
  | beside _ hka hx hxa hfree =>
    refine Decidable.byContradiction fun hne => ?_
    -- the parallel state lies within the other root, and so does what is named below it
    have hd := hc.descends_of_descends_within hxa (hc.parent_within hw hne (hc.mem_children.1 hka).1)
    rw [hl.clear hc hs hx] at hd
    cases hd

/-- A node lies within one root at most. -/
theorem unique (hk : c.Root named k) (hl : c.Root named l) (hnk : c.Within n k)
    (hnl : c.Within n l) : k = l :=
  (hc.comparable hnk hnl).elim (hk.eq_of_within hc hs hl) fun h => (hl.eq_of_within hc hs hk h).symm

end Root

namespace WellFormed

variable (hc : c.WellFormed)

include hc

/-- The targets of an initial transition do not lie within each other. -/
theorem scattered_onward (m : NodeId) : c.Scattered (· ∈ c.onward m) := by
  intro x y hx hy hw
  refine Decidable.byContradiction fun hne => ?_
  cases ht : (c.node m).initial with
  | none =>
    rw [onward, ht] at hx
    cases hx
  | some t =>
    rw [onward_of_initial ht] at hx hy
    exact ((hc.apart_targets t).forall hx hy hne).left hw

theorem within_of_through (h : c.Through m n) : c.Within n m := by
  induction h with
  | self => exact .refl _
  | region _ hk _ ih =>
    exact hc.within_trans ih (.inr (hc.descends_parent (hc.mem_children.1 hk).1))
  | onward _ _ hkm _ ih => exact hc.within_trans ih (.inr hkm)

/-- What the initial transition of a state leads to does not lie below another that is entered through
    its own. -/
theorem clear_of_through (hT : c.Through m T) (hn : c.Through m n) (hd : c.descends n T = true)
    (hx : x ∈ c.onward T) : c.descends x n = false := by
  induction hT with
  | self hm =>
    cases hn with
    | self => exact (hc.ne_of_descends hd rfl).elim
    | region hp => rw [not_compound_of_parallel hp] at hm; cases hm
    | onward _ hk _ h =>
      refine Bool.eq_false_iff.2 fun hxn => ?_
      have := hc.descends_of_descends_within hxn (hc.within_of_through h)
      rw [hk.clear hc (hc.scattered_onward _) hx] at this
      cases this
  | @region m k T hp hk hT ih =>
    cases hn with
    | self hm => exact (hc.not_within_of_descends hd (hc.within_of_through (.region hp hk hT))).elim
    | @region _ l _ _ hl h =>
      have hpar := (hc.mem_children.1 hk).1.trans (hc.mem_children.1 hl).1.symm
      obtain rfl := hc.eq_of_within hpar
        (.inr (hc.descends_of_descends_within hd (hc.within_of_through hT))) (hc.within_of_through h)
      exact ih h hd hx
    | onward hm => rw [not_compound_of_parallel hp] at hm; cases hm
  | @onward m k T hm hk hkm hT ih =>
    cases hn with
    | self => exact (hc.not_within_of_descends hd (hc.within_of_through (.onward hm hk hkm hT))).elim
    | region hp => rw [not_compound_of_parallel hp] at hm; cases hm
    | onward _ hl _ h =>
      obtain rfl := hk.unique hc (hc.scattered_onward m) hl
        (.inr (hc.descends_of_descends_within hd (hc.within_of_through hT))) (hc.within_of_through h)
      exact ih h hd hx

end WellFormed
end Chart

namespace EntryPlan

variable {c : Chart} {store : Store} {named inside : NodeId → Prop} {p q r : EntryPlan}
  {a b k m n x y : NodeId} {X : List NodeId}

/-- What a part of the construction enters through initial transitions grows from roots inside
    somewhere. -/
structure Rooted (c : Chart) (named inside : NodeId → Prop) (p q : EntryPlan) : Prop where
  entries : ∀ n ∈ p.entry, n ∈ q.entry
  through : ∀ n ∈ q.defaultEntry, n ∈ p.defaultEntry ∨ ∃ k, c.Root named k ∧ inside k ∧ c.Through k n

namespace Rooted

theorem refl (p : EntryPlan) : Rooted c named inside p p := ⟨fun _ h => h, fun _ h => .inl h⟩

theorem trans (h : Rooted c named inside p q) (h' : Rooted c named inside q r) :
    Rooted c named inside p r where
  entries n hn := h'.entries n (h.entries n hn)
  through n hn := (h'.through n hn).elim (h.through n) .inr

end Rooted

/-- Whether entering a state of which nothing is there yet enters through initial transitions only what
    the rule says. -/
def Starts (c : Chart) (enter : NodeId → EntryPlan → Option EntryPlan) (m : NodeId) : Prop :=
  ∀ {p q}, enter m p = some q → ¬c.Covers p.entry m →
    ∀ n ∈ q.defaultEntry, n ∈ p.defaultEntry ∨ c.Through m n

section

variable {enter : NodeId → EntryPlan → Option EntryPlan} (hc : c.WellFormed)
  (hv : ∀ m, (c.node m).isHistory = false → Visits c enter m)
  (he : ∀ m, (c.node m).isHistory = false → Starts c enter m)

include hc hv he

/-- Filling the regions of a parallel state in which nothing is entered yet. -/
theorem starts_fillRegions (hq : fillRegions c enter a p = some q) :
    (∀ n ∈ p.entry, n ∈ q.entry) ∧ ∀ n ∈ q.defaultEntry, n ∈ p.defaultEntry ∨
      ∃ k ∈ (c.node a).children, ¬c.Covers p.entry k ∧ c.Through k n := by
  refine foldlM_rel (R := fun p q => (∀ n ∈ p.entry, n ∈ q.entry) ∧
    ∀ n ∈ q.defaultEntry, n ∈ p.defaultEntry ∨
      ∃ k ∈ (c.node a).children, ¬c.Covers p.entry k ∧ c.Through k n) (I := fun _ => True)
    (fun p => ⟨fun _ h => h, fun _ h => .inl h⟩) (fun {p q r} h h' => ⟨?_, ?_⟩)
    (fun _ _ => trivial) _ trivial (fun m hm p q _ hq => ?_) hq
  · exact fun n hn => h'.1 n (h.1 n hn)
  · intro n hn
    rcases h'.2 n hn with hn | ⟨k, hk, hfree, hn⟩
    · exact h.2 n hn
    · exact .inr ⟨k, hk, fun hcov => hfree (hcov.mono h.1), hn⟩
  · have hstate := (hc.mem_children.1 hm).2
    split at hq
    · cases hq
      exact ⟨fun _ h => h, fun _ h => .inl h⟩
    · rename_i hcov
      have hfree : ¬c.Covers p.entry m := fun h => hcov (covers_iff.2 h)
      exact ⟨(hv m hstate hq).noted.entries, fun n hn => (he m hstate hq hfree n hn).imp_right
        fun h => ⟨m, hm, hfree, h⟩⟩

/-- Adding a state above a named one: its free regions are roots, since all that is named is there. -/
theorem rooted_enterAbove (hmem : ∀ y, named y → y ∈ p.entry) (hx : named x)
    (hxa : c.descends x a = true) (hin : ∀ n, c.Within n a → inside n)
    (hq : enterAbove c enter p a = some q) : Rooted c named inside p q := by
  have hadd : ∀ n ∈ p.entry, n ∈ (p.add a).entry := fun n hn => mem_entry_add.2 (.inr hn)
  unfold enterAbove at hq
  split at hq
  · rename_i hpar
    obtain ⟨hentries, hthrough⟩ := starts_fillRegions hc hv he hq
    refine ⟨fun n hn => hentries n (hadd n hn), fun n hn => (hthrough n hn).imp_right ?_⟩
    rintro ⟨k, hk, hfree, hn⟩
    refine ⟨k, .beside hpar hk hx hxa fun y hy hw => hfree ⟨y, hadd y (hmem y hy), hw⟩, ?_, hn⟩
    exact hin k (.inr (hc.descends_parent (hc.mem_children.1 hk).1))
  · cases hq
    exact ⟨hadd, fun _ hn => .inl hn⟩

/-- Climbing to a boundary from something named. -/
theorem rooted_climbTo {boundary : Option NodeId} (hmem : ∀ y, named y → y ∈ p.entry) (hx : named x)
    (hy : ∀ a ∈ (c.node y).ancestors, c.descends x a = true)
    (hin : ∀ a ∈ (c.node y).ancestors.takeWhile fun a => some a ≠ boundary, ∀ n, c.Within n a → inside n)
    (hq : climbTo c enter boundary p y = some q) : Rooted c named inside p q := by
  refine foldlM_rel .refl .trans (I := fun p => ∀ y, named y → y ∈ p.entry)
    (fun hmem h y hy => h.entries y (hmem y hy)) _ hmem (fun a ha p q hmem hq => ?_) hq
  exact rooted_enterAbove hc hv he hmem hx (hy a ((List.takeWhile_sublist _).mem ha)) (hin a ha) hq

/-- Entering named states of which nothing is there yet. -/
theorem rooted_enterList : ∀ (X : List NodeId) {p q : EntryPlan},
    (∀ x ∈ X, (c.node x).isHistory = false ∧ named x ∧ inside x ∧ ¬c.Covers p.entry x) →
    X.Pairwise (Incomparable c) → X.foldlM (fun p n => enter n p) p = some q → Rooted c named inside p q
  | [], p, q, _, _, hq => by
    cases hq
    exact .refl p
  | x :: X, p, q, hX, hinc, hq => by
    rw [List.foldlM_cons] at hq
    obtain ⟨r, hr, hq⟩ := Option.bind_eq_some_iff.1 hq
    obtain ⟨hx, hinc⟩ := List.pairwise_cons.1 hinc
    obtain ⟨hstate, hnamed, hin, hfree⟩ := hX x (by simp)
    have hnoted := (hv x hstate hr).noted
    have hone : Rooted c named inside p r := by
      refine ⟨hnoted.entries, fun n hn => (he x hstate hr hfree n hn).imp_right ?_⟩
      exact fun h => ⟨x, .named hnamed, hin, h⟩
    refine hone.trans (rooted_enterList X (fun y hy => ?_) hinc hq)
    obtain ⟨hstate, hnamed, hin, hfree⟩ := hX y (List.mem_cons_of_mem _ hy)
    refine ⟨hstate, hnamed, hin, ?_⟩
    rintro ⟨z, hz, hzy⟩
    rcases hnoted.passed z hz with hz | ⟨hzx, -⟩
    · exact hfree ⟨z, hz, hzy⟩
    · exact (hc.comparable hzx hzy).elim (hx y hy).1 (hx y hy).2

/-- Entering states below a boundary, with what lies between. -/
theorem rooted_enterTargets (hX : ∀ x ∈ X, (c.node x).isHistory = false ∧ c.descends x b = true)
    (hfree : ∀ x ∈ X, ¬c.Covers p.entry x) (hinc : X.Pairwise (Incomparable c))
    (hq : enterTargets c enter b X p = some q) : Rooted c (· ∈ X) (c.descends · b = true) p q := by
  obtain ⟨r, hr, hq⟩ := Option.bind_eq_some_iff.1 hq
  have hlist : Rooted c (· ∈ X) (c.descends · b = true) p r :=
    rooted_enterList hc hv he X (fun x hx => ⟨(hX x hx).1, hx, (hX x hx).2, hfree x hx⟩) hinc hr
  obtain ⟨-, hmem⟩ : Noted c (· ∈ X) (fun _ => True) p r ∧ _ :=
    noted_enterList hv X (fun x hx => ⟨(hX x hx).1, hx, fun _ _ => trivial⟩) hr
  refine hlist.trans (foldlM_rel .refl .trans (I := fun p => ∀ y ∈ X, y ∈ p.entry)
    (fun hmem h y hy => h.entries y (hmem y hy)) X (fun x hx => (hmem x hx).1)
    (fun x hx p q hmem hq => ?_) hq)
  refine rooted_climbTo hc hv he hmem hx (fun a ha => descends_iff.2 ha) (fun a ha n hn => ?_) hq
  exact hc.descends_of_within_descends hn ((hc.mem_takeWhile_ancestors (hX x hx).2).1 ha).2

end

/-- Entering a state enters through initial transitions what the rule says. The induction is on the fuel,
    which bounds the depth of the recursion. -/
theorem starts_enter (hc : c.WellFormed) {fuel : Nat} {m : NodeId}
    (hm : (c.node m).isHistory = false) : Starts c (enter c store fuel) m := by
  induction fuel generalizing m with
  | zero =>
    intro p q hq
    cases hq
  | succ fuel ih =>
    intro p q hq hfree n hn
    cases stateEntry_of_enter hc hm hq with
    | parallel hp _ hq =>
      obtain ⟨-, hthrough⟩ := starts_fillRegions hc (fun k hk => visits_enter hc hk)
        (fun k hk => ih hk) hq
      refine (hthrough n hn).imp_right ?_
      rintro ⟨k, hk, -, h⟩
      exact .region hp hk h
    | @compound t hcp ht hts hq =>
      have honward := onward_of_initial ht
      have hinc : (c.transition t).targets.Pairwise (Incomparable c) :=
        (hc.apart_targets t).imp fun h => ⟨h.left, h.right⟩
      have hrooted := rooted_enterTargets hc (fun k hk => visits_enter hc hk) (fun k hk => ih hk)
        hts (fun x hx => ?_) hinc hq
      · rcases hrooted.through n hn with hn | ⟨k, hk, hkm, h⟩
        · rcases NodeSet.mem_insert.1 hn with rfl | hn
          · exact .inr (.self hcp)
          · exact .inl hn
        · exact .inr (.onward hcp (honward ▸ hk) hkm h)
      · -- what is entered lies neither within the state nor, like the state itself, within a target
        rintro ⟨z, hz, hzx⟩
        have hzm := hc.descends_of_within_descends hzx (hts x hx).2
        rcases mem_entry_add.1 hz with rfl | hz
        · exact hc.ne_of_descends hzm rfl
        · exact hfree ⟨z, hz, .inr hzm⟩
    | leaf _ _ hq =>
      cases hq
      exact .inl hn

/-! ### Whole steps -/

section

variable (hc : c.WellFormed) (hs : store.Recalls c)

include hc hs

/-- What a target stands for lies within its area. -/
theorem within_area_of_stands (hy : y ∈ store.stands c x) : c.Within y (c.area x) := by
  by_cases hh : (c.node x).isHistory = true
  · obtain ⟨owner, ho⟩ := Option.isSome_iff_exists.1 ((hc.shaped x).top hh)
    obtain ⟨ts, -, -, hstands, -, -, hbelow, -⟩ := historyTargets_spec hc hs hh ho empty
    rw [area_of_history hh ho]
    exact .inr (hbelow y (hstands ▸ hy)).2
  · have hstate : (c.node x).isHistory = false := Bool.eq_false_iff.2 hh
    rw [Store.stands_of_state hstate] at hy
    rw [area_of_state hstate, List.mem_singleton.1 hy]
    exact .refl x

/-- Entering a target in whose area nothing is entered yet and only what it stands for is named. -/
theorem rooted_target {fuel : Nat} (hnamed : ∀ y ∈ store.stands c x, named y)
    (hown : ∀ y, named y → c.Within y (c.area x) → y ∈ store.stands c x)
    (hinc : (store.stands c x).Pairwise (Incomparable c)) (hfree : ¬c.Covers p.entry (c.area x))
    (hq : enter c store (fuel + 1) x p = some q) : Rooted c named (fun _ => True) p q := by
  have hfree : ∀ y ∈ store.stands c x, ¬c.Covers p.entry y := fun y hy h =>
    hfree (WellFormed.Covers.up hc h (within_area_of_stands hc hs hy))
  by_cases hh : (c.node x).isHistory = true
  · obtain ⟨owner, ho⟩ := Option.isSome_iff_exists.1 ((hc.shaped x).top hh)
    obtain ⟨ts, p', hts, hstands, hp', -, hbelow, -⟩ := historyTargets_spec hc hs hh ho p
    have hkept : p'.defaultEntry = p.defaultEntry := by
      unfold historyTargets at hts
      split at hts
      · cases hts; rfl
      · split at hts <;> cases hts <;> rfl
    rw [enter_history hh ho, hts] at hq
    rw [area_of_history hh ho] at hown
    rw [hstands] at hinc hown hnamed hfree
    have hrooted := rooted_enterTargets hc (fun k hk => visits_enter hc hk)
      (fun k hk => starts_enter hc hk) hbelow (hp' ▸ hfree) hinc hq
    refine ⟨fun n hn => hrooted.entries n (hp' ▸ hn), fun n hn => ?_⟩
    rcases hrooted.through n hn with hn | ⟨k, hk, hko, hn⟩
    · exact .inl (hkept ▸ hn)
    refine .inr ⟨k, ?_, trivial, hn⟩
    cases hk with
    | named hk => exact .named (hnamed k hk)
    | beside ha hka hx hxa hfree =>
      exact .beside ha hka (hnamed _ hx) hxa fun y hy hw =>
        hfree y (hown y hy (.inr (hc.descends_of_within_descends hw hko))) hw
  · have hstate : (c.node x).isHistory = false := Bool.eq_false_iff.2 hh
    rw [Store.stands_of_state hstate] at hnamed hfree
    have hv : Visited c x p q := visits_enter hc hstate hq
    refine ⟨hv.noted.entries, fun n hn => ?_⟩
    refine (starts_enter hc hstate hq (hfree x (by simp)) n hn).imp_right fun h => ?_
    exact ⟨x, .named (hnamed x (by simp)), trivial, h⟩

/-- Entering targets whose areas are apart. -/
theorem rooted_targets {fuel : Nat} : ∀ (xs : List NodeId) {p q : EntryPlan},
    (∀ x ∈ xs, (∀ y ∈ store.stands c x, named y) ∧
      (∀ y, named y → c.Within y (c.area x) → y ∈ store.stands c x) ∧
      (store.stands c x).Pairwise (Incomparable c) ∧ ¬c.Covers p.entry (c.area x)) →
    (xs.Pairwise fun x y => c.Apart (c.area x) (c.area y)) →
    xs.foldlM (fun p n => enter c store (fuel + 1) n p) p = some q → Rooted c named (fun _ => True) p q
  | [], p, q, _, _, hq => by
    cases hq
    exact .refl p
  | x :: xs, p, q, hxs, hap, hq => by
    rw [List.foldlM_cons] at hq
    obtain ⟨r, hr, hq⟩ := Option.bind_eq_some_iff.1 hq
    obtain ⟨hx, hap⟩ := List.pairwise_cons.1 hap
    obtain ⟨hnamed, hown, hinc, hfree⟩ := hxs x (by simp)
    refine (rooted_target hc hs hnamed hown hinc hfree hr).trans
      (rooted_targets xs (fun y hy => ?_) hap hq)
    obtain ⟨hnamed, hown, hinc, hfree⟩ := hxs y (List.mem_cons_of_mem _ hy)
    refine ⟨hnamed, hown, hinc, ?_⟩
    rintro ⟨z, hz, hzy⟩
    rcases (noted_target hc hs (fun y hy => hy) hr).1.passed z hz with hz | ⟨hzx, -⟩
    · exact hfree ⟨z, hz, hzy⟩
    · exact (hc.comparable hzx hzy).elim (hx y hy).left (hx y hy).right

/-- What a target stands for is apart unless a record does not agree with itself. -/
theorem apart_stands (ha : store.Agrees c x) : (store.stands c x).Pairwise c.Apart := by
  by_cases hh : (c.node x).isHistory = true
  · obtain ⟨owner, ho⟩ := Option.isSome_iff_exists.1 ((hc.shaped x).top hh)
    obtain ⟨ts, -, -, hstands, -, -, -, hap⟩ := historyTargets_spec hc hs hh ho empty
    exact hstands ▸ hap ha
  · rw [Store.stands_of_state (Bool.eq_false_iff.2 hh)]
    exact List.pairwise_singleton ..

section

variable {ts : List TransitionId}
  (hap : (targetsOf c ts).Pairwise fun x y => c.Apart (c.area x) (c.area y))

include hap

/-- Of two targets whose areas are apart none stands for something in the area of the other. -/
theorem stands_of_named (hx : x ∈ targetsOf c ts) (hy : Named c store ts y)
    (hw : c.Within y (c.area x)) : y ∈ store.stands c x := by
  have : Std.Symm fun x y => c.Apart (c.area x) (c.area y) := ⟨fun _ _ h => h.symm⟩
  obtain ⟨z, hz, hy⟩ := hy
  by_cases hxz : x = z
  · exact hxz ▸ hy
  · have hxz := hap.forall hx hz hxz
    exact ((hc.comparable hw (within_area_of_stands hc hs hy)).elim hxz.left hxz.right).elim

variable (ha : ∀ x ∈ targetsOf c ts, store.Agrees c x)

include ha

theorem scattered_named : c.Scattered (Named c store ts) := by
  rintro x y hx ⟨z, hz, hy⟩ hw
  have hxz := stands_of_named hc hs hap hz hx (hc.within_trans hw (within_area_of_stands hc hs hy))
  refine Decidable.byContradiction fun hne => ?_
  exact ((apart_stands hc hs (ha z hz)).forall hxz hy hne).left hw

/-- Whatever a step enters through its initial transition belongs to a root. -/
theorem exists_root (hp : ofTransitions c store ts = some p) (hn : n ∈ p.defaultEntry) :
    ∃ k, c.Root (Named c store ts) k ∧ c.Through k n := by
  obtain ⟨fuel, q, hq, hp, -, -, hmem⟩ := exists_opened hc hs hp
  have hopen : Rooted c (Named c store ts) (fun _ => True) empty q := by
    refine rooted_targets hc hs (targetsOf c ts) (fun x hx => ⟨fun y hy => ⟨x, hx, hy⟩,
      fun y => stands_of_named hc hs hap hx,
      (apart_stands hc hs (ha x hx)).imp fun h => ⟨h.left, h.right⟩, ?_⟩) hap hq
    exact fun ⟨_, hz, _⟩ => List.not_mem_nil hz
  have hclimb : Rooted c (Named c store ts) (fun _ => True) q p := by
    have hkept {p q : EntryPlan} (hmem : ∀ y, Named c store ts y → y ∈ p.entry)
        (h : Rooted c (Named c store ts) (fun _ => True) p q) : ∀ y, Named c store ts y → y ∈ q.entry :=
      fun y hy => h.entries y (hmem y hy)
    refine foldlM_rel (R := Rooted c (Named c store ts) fun _ => True) .refl .trans hkept ts
      (fun y hy => (hmem y hy).1) (fun t ht p q hmem hq => ?_) hp
    refine foldlM_rel (R := Rooted c (Named c store ts) fun _ => True) .refl .trans hkept _ hmem
      (fun x hx p q hmem hq => ?_) hq
    obtain ⟨y, hy, hanc⟩ := exists_stand hc hs x
    exact rooted_climbTo hc (fun m hm => visits_enter hc hm) (fun m hm => starts_enter hc hm) hmem
      ⟨x, mem_targetsOf.2 ⟨t, ht, hx⟩, hy⟩ hanc (fun _ _ _ _ => trivial) hq
  obtain ⟨k, hk, -, h⟩ := ((hopen.trans hclimb).through n hn).resolve_left List.not_mem_nil
  exact ⟨k, hk, h⟩

/-- If the areas of the targets of a step are apart, and what each of them stands for is so too, nothing
    that the step is bound for lies below a state that it enters through its initial transition. -/
theorem clear_ofTransitions (hp : ofTransitions c store ts = some p) (hn : n ∈ p.defaultEntry)
    (hx : c.Bound (Named c store ts) p.defaultEntry n x) : c.descends x n = false := by
  have hscattered := scattered_named hc hs hap ha
  obtain ⟨k, hk, hkn⟩ := exists_root hc hs hap ha hp hn
  rcases hx with hx | ⟨m, hm, hnm, hx⟩
  · refine Bool.eq_false_iff.2 fun hd => ?_
    have hd := hc.descends_of_descends_within hd (hc.within_of_through hkn)
    rw [hk.clear hc hscattered hx] at hd
    cases hd
  · -- the state above belongs to the same root
    obtain ⟨l, hl, hlm⟩ := exists_root hc hs hap ha hp hm
    obtain rfl := hk.unique hc hscattered hl (hc.within_of_through hkn)
      (.inr (hc.descends_of_descends_within hnm (hc.within_of_through hlm)))
    exact hc.clear_of_through hlm hkn hnm hx

end

end

end EntryPlan
end Statechart
