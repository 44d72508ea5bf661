import Mathlib.Data.List.MinMax
import Statechart.Proofs.History
import Statechart.Proofs.Restore

/-! How deep entering goes.

    The recursion climbs to the regions of parallel states above a target and jumps to what a history has
    recorded, but every call inside another one is about a state further down the tree. So it goes no
    deeper than the tree does, as long as records were made by the machine itself: these are of states
    below the one whose history it is. More fuel than that changes nothing. -/

namespace Statechart

open Chart

variable {c : Chart}

namespace Chart

variable {m n : NodeId}

/-- The number of levels of a chart, histories being one level below their states. -/
def depth (c : Chart) : Nat := (c.nodes.toList.map fun n => n.ancestors.length + 1).foldr max 0

/-- A node has fewer ancestors than the chart has levels. -/
theorem length_ancestors_lt_depth (hn : n < c.nodes.size) : (c.node n).ancestors.length < c.depth := by
  have hmem : c.node n ∈ c.nodes.toList := by
    rw [Chart.node, NodeTable.node, Array.getElem?_eq_getElem hn, Option.getD_some]
    exact Array.getElem_mem_toList hn
  have hlevel : (c.node n).ancestors.length + 1 ∈ c.nodes.toList.map fun n => n.ancestors.length + 1 :=
    List.mem_map.2 ⟨_, hmem, rfl⟩
  exact List.le_max_of_le' 0 hlevel (Nat.le_refl _)

/-- A node further down has more ancestors. -/
theorem WellFormed.length_ancestors_lt (hc : c.WellFormed) (h : c.descends m n = true) :
    (c.node n).ancestors.length < (c.node m).ancestors.length := by
  obtain ⟨as, bs, hsplit⟩ := List.append_of_mem (descends_iff.1 h)
  rw [hc.ancestors_of_append hsplit, hsplit, List.length_append, List.length_cons]
  omega

end Chart

/-! ### Fuel -/

namespace EntryPlan

variable {store : Store} {n boundary : NodeId} {p q : EntryPlan} {fuel fuel' : Nat}

/-- As many calls inside one another suffice for entering as there are levels. -/
theorem suffices_depth (hc : c.WellFormed) : Suffices c c.depth := by
  refine ⟨fun n => c.depth - ((c.node n).ancestors.length + 1), fun m n hd => ?_, fun n hn => ?_⟩
  · have hlt := hc.length_ancestors_lt hd
    have hm := length_ancestors_lt_depth (hc.lt_size_of_descends hd)
    dsimp only
    omega
  · have := length_ancestors_lt_depth hn
    dsimp only
    omega

/-- Whether a way of entering has an end wherever another one has, and comes to the same plan. -/
def Outlasts (longer shorter : NodeId → EntryPlan → Option EntryPlan) : Prop :=
  ∀ n p q, shorter n p = some q → longer n p = some q

theorem foldlM_outlasts {α : Type} {f g : EntryPlan → α → Option EntryPlan}
    (h : ∀ a p q, f p a = some q → g p a = some q) : ∀ (as : List α) (p q : EntryPlan),
      as.foldlM f p = some q → as.foldlM g p = some q
  | [], _, _, hq => hq
  | a :: as, p, q, hq => by
    rw [List.foldlM_cons] at hq ⊢
    obtain ⟨r, hr, hq⟩ := Option.bind_eq_some_iff.1 hq
    rw [h a p r hr]
    exact foldlM_outlasts h as r q hq

section

variable {longer shorter : NodeId → EntryPlan → Option EntryPlan} (h : Outlasts longer shorter)

include h

theorem fillRegions_outlasts (hq : fillRegions c shorter n p = some q) :
    fillRegions c longer n p = some q := by
  refine foldlM_outlasts (fun child p q hq => ?_) _ p q hq
  by_cases hcov : p.covers c child = true
  · rwa [if_pos hcov] at hq ⊢
  · rw [if_neg hcov] at hq ⊢
    exact h child p q hq

theorem climbTo_outlasts (boundary : Option NodeId) (n : NodeId) (p q : EntryPlan)
    (hq : climbTo c shorter boundary p n = some q) : climbTo c longer boundary p n = some q := by
  refine foldlM_outlasts (fun a p q hq => ?_) _ p q hq
  unfold enterAbove at hq ⊢
  split
  · rename_i hp
    rw [if_pos hp] at hq
    exact fillRegions_outlasts h hq
  · rename_i hp
    rwa [if_neg hp] at hq

theorem enterTargets_outlasts {ts : List NodeId} (hq : enterTargets c shorter boundary ts p = some q) :
    enterTargets c longer boundary ts p = some q := by
  obtain ⟨r, hr, hq⟩ := Option.bind_eq_some_iff.1 hq
  exact Option.bind_eq_some_iff.2 ⟨r, foldlM_outlasts (fun n p q => h n p q) _ _ _ hr,
    foldlM_outlasts (climbTo_outlasts h _) _ _ _ hq⟩

end

/-- Entering with more fuel comes to the same plan. -/
theorem enter_outlasts (hf : fuel ≤ fuel') : Outlasts (enter c store fuel') (enter c store fuel) := by
  induction fuel generalizing fuel' with
  | zero => nofun
  | succ fuel ih =>
    intro n p q hq
    obtain ⟨fuel', rfl⟩ := Nat.exists_eq_succ_of_ne_zero (Nat.ne_zero_of_lt hf)
    have below := ih (Nat.le_of_succ_le_succ hf)
    rw [enter] at hq ⊢
    by_cases hh : (c.node n).isHistory = true
    · rw [if_pos hh] at hq ⊢
      cases howner : (c.node n).parent with
      | none => rwa [howner] at hq
      | some owner =>
        rw [howner] at hq
        exact enterTargets_outlasts below hq
    rw [if_neg hh] at hq ⊢
    by_cases hp : (c.node n).isParallel = true
    · rw [if_pos hp] at hq ⊢
      exact fillRegions_outlasts below hq
    rw [if_neg hp] at hq ⊢
    by_cases hcp : (c.node n).isCompound = true
    · rw [if_pos hcp] at hq ⊢
      cases ht : (c.node n).initial with
      | none => rwa [ht] at hq
      | some t =>
        rw [ht] at hq
        exact enterTargets_outlasts below hq
    · rwa [if_neg hcp] at hq ⊢

/-- With more fuel a plan stays the same. -/
theorem within_outlasts {ts : List TransitionId} (hf : fuel ≤ fuel')
    (hq : within c store fuel ts = some q) : within c store fuel' ts = some q := by
  have below : Outlasts (enter c store fuel') (enter c store fuel) := enter_outlasts hf
  obtain ⟨p, hp, hq⟩ := Option.bind_eq_some_iff.1 hq
  exact Option.bind_eq_some_iff.2 ⟨p, foldlM_outlasts (fun n p q => below n p q) _ _ _ hp,
    foldlM_outlasts (fun t => foldlM_outlasts (climbTo_outlasts below _) _) _ _ _ hq⟩

/-- There is one plan at most, whatever the fuel. -/
theorem within_unique {ts : List TransitionId} (hp : within c store fuel ts = some p)
    (hq : within c store fuel' ts = some q) : p = q := by
  have hp := within_outlasts (Nat.le_max_left fuel fuel') hp
  have hq := within_outlasts (Nat.le_max_right fuel fuel') hq
  exact Option.some.inj (hp.symm.trans hq)

end EntryPlan

/-! ### Records of the machine's own -/

namespace Store

/-- Whether all that histories have recorded are records that a machine of the chart makes, of whatever
    leaves were active when it made them. -/
def SelfRecorded (c : Chart) (s : Store) : Prop :=
  ∀ h R, s.recorded? h = some R → ∃ past : Store,
    (∀ l ∈ past.leaves, (c.node l).isAtomic = true) ∧ Session.Recorded c past h R

theorem SelfRecorded.recalls {s : Store} (hc : c.WellFormed) (hs : s.SelfRecorded c) : s.Recalls c := by
  intro h R hR x hx
  obtain ⟨past, hleaf, hmade⟩ := hs h R hR
  exact below_of_recorded hc hleaf hmade hx

end Store

namespace Session

variable {s₀ s t : Session} {p q : Phase}

/-- Whether all active leaves are leaves and all records the machine's own. -/
structure Minded (c : Chart) (s : Session) : Prop where
  leaf : ∀ l ∈ s.store.leaves, (c.node l).isAtomic = true
  made : s.store.SelfRecorded c

theorem minded_restart : Minded c (s.restart c) := ⟨nofun, nofun⟩

/-- Whatever a machine does, its records are its own. -/
theorem Minded.move (hc : c.WellFormed) (hs : Minded c s) (hm : Move c p s q t) : Minded c t := by
  by_cases hp : p.Plain q
  · have hk := keeps_move hc hm hp
    refine ⟨fun l hl => hs.leaf l ?_, fun h R hR => hs.made h R ?_⟩
    · rcases hk.leaves with e | e <;> rw [e] at hl
      · exact hl
      · exact (List.mem_filter.1 hl).1
    · rwa [Store.recorded?, hk.histories] at hR
  · cases hm with
    | go => exact ⟨minded_restart.leaf, minded_restart.made⟩
    | take h =>
      obtain ⟨step, -, rfl⟩ := Option.map_eq_some_iff.1 h
      have hcar := carried_carryOut (c := c) (s := s) step
      have hq := quiet_publish (c := c) (s := s.carryOut c step)
      refine ⟨fun l hl => ?_, fun h R hR => ?_⟩
      · rw [hq.leaves] at hl
        exact ((hcar.leaves l).1 hl).elim (fun hl => hs.leaf l hl.1) And.right
      · rw [Store.recorded?, hq.histories] at hR
        exact (hcar.records h R hR).elim (hs.made h R) fun hmade => ⟨s.store, hs.leaf, hmade⟩
    | _ => exact absurd trivial hp

theorem minded_of_reaches (hc : c.WellFormed) (h : Reaches c s₀ p s) : Minded c s := by
  induction h with
  | go => exact ⟨minded_restart.leaf, minded_restart.made⟩
  | move _ hm ih => exact ih.move hc hm

theorem Minded.onward (hc : c.WellFormed) (hs : Minded c s) (h : Onward c p s q t) : Minded c t := by
  induction h with
  | start => exact hs
  | move _ hm ih => exact ih.move hc hm

end Session

namespace EntryPlan

/-- Of a chart that loads: whatever a machine does after its start, or after it took a snapshot with such
    records, its records are its own. With such records every list of transitions has a plan and makes a
    step. The calls of `enter` inside one another that it takes to find the plan, between any two of which
    there is one climb at most, are no more than the chart has levels, and no history is entered. -/
theorem ends_within_depth {name : String} {version : Nat} {v : Value}
    (hl : Chart.load name version v = .ok c) :
    (∀ s₀ p s, Session.Reaches c s₀ p s → s.store.SelfRecorded c) ∧
    (∀ (m m' : Machine) snap, m.session.chart = some c → m.attach snap = .ok m' →
      m'.session.store.SelfRecorded c →
      ∀ p s, Session.Onward c .rest m'.session p s → s.store.SelfRecorded c) ∧
    ∀ store : Store, store.SelfRecorded c → ∀ ts, ∃ plan,
      (∀ fuel, c.depth ≤ fuel → within c store fuel ts = some plan) ∧
      (∀ event, Step.build c store event ts = some ⟨event, ts, Step.exitOf c store ts, plan⟩) ∧
      ∀ n ∈ plan.entry, n < c.nodes.size ∧ (c.node n).isHistory = false := by
  have hc := wellFormed_of_load hl
  refine ⟨fun s₀ p s h => (Session.minded_of_reaches hc h).made, ?_, fun store hs ts => ?_⟩
  · intro m m' snap hm hattach hs p s h
    obtain ⟨hrestore, -⟩ := Machine.of_attach hm hattach
    have hleaf := (Store.of_resolveLeaves (Store.of_restore hrestore).1).2
    have hminded : Session.Minded c m'.session := ⟨fun l hl => (hleaf l hl).2, hs⟩
    exact (hminded.onward hc h).made
  · obtain ⟨plan, hplan, hplanned, -⟩ := planned_within hc (hs.recalls hc) (suffices_depth hc) ts
    obtain ⟨plan', hbuild, -⟩ := planned_ofTransitions hc (hs.recalls hc) ts
    rw [← within_depthBound] at hbuild
    cases within_unique hplan hbuild
    rw [within_depthBound] at hbuild
    refine ⟨plan, fun fuel hf => within_outlasts hf hplan, fun event => ?_, fun n hn => ?_⟩
    · rw [Step.build, hbuild]
      rfl
    · have hcomplete := hplanned.complete n hn
      exact ⟨hcomplete.lt, hcomplete.state⟩

/-- The lamp has three levels. Switched on again, it is entered through its history, which is not among
    what is entered. -/
theorem ends_lamp : Session.lampChart.depth = 3 ∧
    (Session.lampChart.transition 0).targets = [2] ∧ (Session.lampChart.node 2).isHistory = true ∧
    ∃ plan, plan.entry = [1, 3, 5, 6, 7] ∧
      (∀ fuel, 3 ≤ fuel →
        within Session.lampChart Session.darkLamp.store fuel [0] = some plan) ∧
      ∀ n ∈ plan.entry, (Session.lampChart.node n).isHistory = false := by
  have hdepth : Session.lampChart.depth = 3 := by decide +kernel
  obtain ⟨hreached, -, hends⟩ := ends_within_depth Session.load_lamp
  obtain ⟨plan, hplan, -, hstates⟩ :=
    hends Session.darkLamp.store (hreached _ _ _ Session.run_darkLamp.reaches) [0]
  have hentry : (within Session.lampChart Session.darkLamp.store 3 [0]).map EntryPlan.entry =
      some [1, 3, 5, 6, 7] := by decide +kernel
  rw [hplan 3 (Nat.le_of_eq hdepth)] at hentry
  exact ⟨hdepth, by decide +kernel, by decide +kernel, plan, Option.some.inj hentry,
    fun fuel hf => hplan fuel (hdepth ▸ hf), fun n hn => (hstates n hn).2⟩

end EntryPlan
end Statechart
