import Mathlib.Tactic.Choose
import Statechart.Proofs.Configuration
import Statechart.Proofs.Naming

/-! Targets pass the check if and only if some configuration has all of them active.

    The check looks at two targets at a time, at the innermost state that contains both. If a
    configuration holds them, that state is parallel, for a compound one would have two of its children
    in the configuration. If every two targets meet in parallel states, no two alternatives (the states
    at the top, or the children of a compound state) contain targets, so one can be preferred among each
    alternatives that contains whatever targets any of them does; the states that lie only within
    preferred ones are a configuration.

    Trees are looked at before the names of targets are resolved, where there is no chart yet. Every
    checked definition has a skeleton, a well-formed chart with the same tree in which all transitions
    lead to first states, so what is known of the trees of charts is known of them. -/

namespace Statechart

/-! ### Configurations -/

/-- Whether a set of nodes is a configuration of a tree: closed upward, with one state at the top, one
    child of every compound state and every child of a parallel one. -/
structure NodeTable.Configuration (t : NodeTable) (top : List NodeId) (A : Set NodeId) : Prop where
  state : ∀ n ∈ A, n < t.size ∧ (t.node n).isHistory = false
  upward : ∀ n ∈ A, ∀ p, (t.node n).parent = some p → p ∈ A
  top : ∃! r, r ∈ top ∧ r ∈ A
  compound : ∀ n ∈ A, (t.node n).isCompound = true → ∃! m, m ∈ (t.node n).children ∧ m ∈ A
  parallel : ∀ n ∈ A, (t.node n).isParallel = true → ∀ m ∈ (t.node n).children, m ∈ A

/-- The check of targets looks at every two of them. -/
theorem NodeTable.legalTargets_iff_pairwise {t : NodeTable} : ∀ {targets : List NodeId},
    t.legalTargets targets = true ↔ targets.Pairwise fun a b => t.compatible a b = true
  | [] => by simp [legalTargets]
  | a :: as => by
    rw [legalTargets, Bool.and_eq_true, List.all_eq_true, List.pairwise_cons,
      legalTargets_iff_pairwise]

namespace Chart

variable {c : Chart} {T ms : List NodeId} {A : Set NodeId} {a b k m n : NodeId}

/-- Whether of some states one is active at a time: those at the top, and the children of a compound
    state. -/
inductive Alternatives (c : Chart) : List NodeId → Prop where
  | top : Alternatives c c.children
  | compound {n : NodeId} (h : (c.node n).isCompound = true) : Alternatives c (c.node n).children

/-- The states that lie within preferred alternatives only. -/
def favoured (c : Chart) (pick : List NodeId → NodeId) : Set NodeId :=
  {n | n < c.nodes.size ∧ (c.node n).isHistory = false ∧
    ∀ ms, c.Alternatives ms → ∀ m ∈ ms, c.Within n m → m = pick ms}

namespace WellFormed

variable {pick : List NodeId → NodeId} (hc : c.WellFormed)

include hc

/-- Alternatives are states with the same parent. -/
theorem rivals_of_alternatives (h : c.Alternatives ms) (hm : m ∈ ms) (hk : k ∈ ms) : c.Rivals m k := by
  cases h with
  | top =>
    have hp := (hc.mem_top.1 hm).2
    exact ⟨hp.trans (hc.mem_top.1 hk).2.symm, fun p h => by rw [hp] at h; cases h⟩
  | compound hn =>
    have hp := (hc.mem_children.1 hm).1
    refine ⟨hp.trans (hc.mem_children.1 hk).1.symm, fun p h => ?_⟩
    rw [hp] at h
    cases h
    exact hn

omit hc in
theorem ne_nil_of_alternatives (hne : c.children ≠ []) (h : c.Alternatives ms) : ms ≠ [] := by
  cases h with
  | top => exact hne
  | compound hn =>
    rintro e
    simp [Node.isCompound, e] at hn

/-- A child is one of the alternatives that its parent offers and of no others. -/
theorem eq_children_of_alternatives (h : c.Alternatives ms) (hm : m ∈ ms)
    (hp : (c.node m).parent = some n) : (c.node n).isCompound = true ∧ ms = (c.node n).children := by
  cases h with
  | top =>
    rw [(hc.mem_top.1 hm).2] at hp
    cases hp
  | compound hn =>
    rw [(hc.mem_children.1 hm).1] at hp
    cases hp
    exact ⟨hn, rfl⟩

/-- States at the top are alternatives to one another only. -/
theorem eq_top_of_alternatives (h : c.Alternatives ms) (hm : m ∈ ms)
    (hp : (c.node m).parent = none) : ms = c.children := by
  cases h with
  | top => rfl
  | compound =>
    rw [(hc.mem_children.1 hm).1] at hp
    cases hp

/-! ### From targets to a configuration -/

/-- Of alternatives one can be preferred that contains the targets that any of them contains. -/
theorem exists_preferred (hne : c.children ≠ []) (hT : c.Tidy T) (h : c.Alternatives ms) :
    ∃ m ∈ ms, ∀ k ∈ ms, c.Covers T k → k = m := by
  by_cases hcov : ∃ m ∈ ms, c.Covers T m
  · obtain ⟨m, hm, hmT⟩ := hcov
    exact ⟨m, hm, fun k hk hkT => hT (hc.rivals_of_alternatives h hk hm) hkT hmT⟩
  · obtain ⟨m, ms', rfl⟩ := List.exists_cons_of_ne_nil (ne_nil_of_alternatives hne h)
    exact ⟨m, List.mem_cons_self, fun k hk hkT => absurd ⟨k, hk, hkT⟩ hcov⟩

/-- A state is favoured if its parent is and it is preferred itself where it is an alternative. -/
theorem mem_favoured (hlt : n < c.nodes.size) (hs : (c.node n).isHistory = false)
    (hup : ∀ p, (c.node n).parent = some p → p ∈ c.favoured pick)
    (hself : ∀ ms, c.Alternatives ms → n ∈ ms → n = pick ms) : n ∈ c.favoured pick := by
  refine ⟨hlt, hs, ?_⟩
  rintro ms hms m hm (rfl | hd)
  · exact hself ms hms hm
  · obtain ⟨p, hp, hw⟩ := hc.descends_iff_parent.1 hd
    exact (hup p hp).2.2 ms hms m hm hw

/-- The favoured states are a configuration. -/
theorem configuration_favoured (hpick : ∀ ms, c.Alternatives ms → pick ms ∈ ms) :
    c.nodes.Configuration c.children (c.favoured pick) where
  state n hn := ⟨hn.1, hn.2.1⟩
  upward n hn p hp := by
    have hpn := hc.descends_parent hp
    refine ⟨Nat.lt_trans (hc.lt_of_descends hpn) hn.1, hc.parent_state hp, fun ms hms m hm hw => ?_⟩
    exact hn.2.2 ms hms m hm (.inr (hc.descends_of_descends_within hpn hw))
  top := by
    obtain ⟨hlt, hp⟩ := hc.mem_top.1 (hpick _ .top)
    refine ⟨pick c.children, ⟨hpick _ .top, ?_⟩, fun r ⟨hr, hrA⟩ => hrA.2.2 _ .top r hr (.refl r)⟩
    refine hc.mem_favoured hlt ?_ (fun p h => by rw [hp] at h; cases h)
      fun ms hms hm => by rw [hc.eq_top_of_alternatives hms hm hp]
    refine Bool.eq_false_iff.2 fun hh => ?_
    have := (hc.shaped _).top hh
    rw [show (c.node _).parent = none from hp] at this
    cases this
  compound n hn hcomp := by
    have hmem := hpick _ (.compound hcomp)
    obtain ⟨hp, hs⟩ := hc.mem_children.1 hmem
    refine ⟨_, ⟨hmem, ?_⟩, fun m ⟨hm, hmA⟩ => hmA.2.2 _ (.compound hcomp) m hm (.refl m)⟩
    refine hc.mem_favoured (lt_size_of_parent hp) hs (fun p h => ?_) fun ms hms hm => ?_
    · rw [hp] at h
      cases h
      exact hn
    · rw [(hc.eq_children_of_alternatives hms hm hp).2]
  parallel n hn hpar m hm := by
    obtain ⟨hp, hs⟩ := hc.mem_children.1 hm
    refine hc.mem_favoured (lt_size_of_parent hp) hs (fun p h => ?_) fun ms hms hm => ?_
    · rw [hp] at h
      cases h
      exact hn
    · have := (hc.eq_children_of_alternatives hms hm hp).1
      rw [not_compound_of_parallel hpar] at this
      cases this

/-- States no two rivals of which are covered are in a configuration. -/
theorem exists_configuration (hne : c.children ≠ []) (hT : c.Tidy T)
    (hs : ∀ x ∈ T, x < c.nodes.size ∧ (c.node x).isHistory = false) :
    ∃ A, c.nodes.Configuration c.children A ∧ ∀ x ∈ T, x ∈ A := by
  have hex : ∀ ms, ∃ m, c.Alternatives ms → m ∈ ms ∧ ∀ k ∈ ms, c.Covers T k → k = m := fun ms => by
    by_cases h : c.Alternatives ms
    · obtain ⟨m, hm, huniq⟩ := hc.exists_preferred hne hT h
      exact ⟨m, fun _ => ⟨hm, huniq⟩⟩
    · exact ⟨0, fun h' => absurd h' h⟩
  choose pick hpick using hex
  refine ⟨c.favoured pick, hc.configuration_favoured fun ms h => (hpick ms h).1, fun x hx => ?_⟩
  exact ⟨(hs x hx).1, (hs x hx).2, fun ms hms m hm hw => (hpick ms hms).2 m hm ⟨x, hx, hw⟩⟩

/-- States of which every two are apart cover no two rivals. -/
theorem tidy_of_pairwise_apart (hT : T.Pairwise c.Apart) : c.Tidy T := by
  rintro m n hr ⟨x, hx, hxm⟩ ⟨y, hy, hyn⟩
  by_cases e : x = y
  · exact hc.eq_of_within hr.1 hxm (e ▸ hyn)
  · have : Std.Symm c.Apart := ⟨fun _ _ => Apart.symm⟩
    exact (hT.forall hx hy e).rivals hr hxm hyn

/-! ### From a configuration to targets -/

/-- What contains a state of a configuration is in it. -/
theorem mem_of_within (hA : c.nodes.Configuration c.children A) (ha : a ∈ A) (hw : c.Within a b) :
    b ∈ A := by
  induction a using Nat.strongRecOn with
  | ind a ih =>
    rcases hw with rfl | hd
    · exact ha
    · obtain ⟨p, hp, hw⟩ := hc.descends_iff_parent.1 hd
      exact ih p (hc.parent_lt hp) (hA.upward a ha p hp) hw

/-- Two states of a configuration neither of which contains the other lie below a common state. -/
theorem exists_common (hA : c.nodes.Configuration c.children A) (ha : a ∈ A) (hb : b ∈ A)
    (hab : ¬c.Within a b) (hba : ¬c.Within b a) :
    ∃ r, c.descends a r = true ∧ c.descends b r = true := by
  have top_mem {n : NodeId} (hn : n ∈ A) : ∃ r, c.Within n r ∧ r ∈ c.children ∧ r ∈ A := by
    obtain ⟨r, hw, hp⟩ := hc.exists_top n
    have hr := hc.mem_of_within hA hn hw
    exact ⟨r, hw, hc.mem_top.2 ⟨(hA.state r hr).1, hp⟩, hr⟩
  obtain ⟨r, har, hr⟩ := top_mem ha
  obtain ⟨q, hbq, hq⟩ := top_mem hb
  obtain rfl := hA.top.unique hr hq
  refine ⟨r, har.resolve_left ?_, hbq.resolve_left ?_⟩
  · rintro rfl
    exact hba hbq
  · rintro rfl
    exact hab har

/-- Two states of a configuration are compatible unless one contains the other. -/
theorem compatible_of_configuration (hA : c.nodes.Configuration c.children A) (ha : a ∈ A) (hb : b ∈ A)
    (hab : ¬c.Within a b) (hba : ¬c.Within b a) : c.nodes.compatible a b = true := by
  obtain ⟨r, har, hbr⟩ := hc.exists_common hA ha hb hab hba
  cases hf : (c.node a).ancestors.find? (c.descends b ·) with
  | none => exact absurd hbr (by simpa using List.find?_eq_none.1 hf r (descends_iff.1 har))
  | some meet =>
    obtain ⟨ham, hbm, innermost⟩ := hc.innermost_of_find? hf
    have hmeet := hc.mem_of_within hA ha (.inr ham)
    obtain ⟨m, hm, hwm⟩ := hc.exists_state_child ham (hA.state a ha).2
    obtain ⟨k, hk, hwk⟩ := hc.exists_state_child hbm (hA.state b hb).2
    have hpar : (c.node meet).isParallel = true := by
      have hatom : (c.node meet).isAtomic = false := Bool.eq_false_iff.2 fun hatom =>
        hc.ne_of_descends ham (hc.eq_of_within_atomic (.inr ham) hatom (hA.state a ha).2)
      refine (hc.compound_or_parallel (hc.not_history_of_descends ham) hatom).2.resolve_left ?_
      -- below a compound meet both lie within the same child, which would be further in
      intro hcomp
      obtain rfl := (hA.compound meet hmeet hcomp).unique ⟨hm, hc.mem_of_within hA ha hwm⟩
        ⟨hk, hc.mem_of_within hA hb hwk⟩
      have had : c.descends a m = true := hwm.resolve_left (by rintro rfl; exact hba hwk)
      have hbd : c.descends b m = true := hwk.resolve_left (by rintro rfl; exact hab hwm)
      exact absurd (hc.le_of_within (innermost had hbd))
        (Nat.not_le.2 (hc.parent_lt (hc.mem_children.1 hm).1))
    have hab' : c.nodes.descends a b = false := Bool.eq_false_iff.2 fun h => hab (.inr h)
    have hba' : c.nodes.descends b a = false := Bool.eq_false_iff.2 fun h => hba (.inr h)
    change (c.nodes.node a).ancestors.find? (c.nodes.descends b ·) = some meet at hf
    unfold NodeTable.compatible
    rw [hab', hba', hf]
    exact hpar

end WellFormed
end Chart

/-! ### The skeleton of a definition -/

namespace StateDef

open Outline

variable {s : StateDef} {above : List NodeId} {c behind : Cursor} {roots : List NodeId}
  {inner : Outline} {n : Node}

/-- Only states with children have histories. -/
theorem states_ne_nil_of_checkShape (h : s.checkShape = .ok ()) (hh : s.history ≠ []) :
    s.states ≠ [] := by
  intro hs
  unfold checkShape at h
  simp only [List.isEmpty_eq_false_iff.2 hh, hs, List.isEmpty_nil] at h
  split at h
  · cases h
  split at h
  · cases h
  split at h
  · cases h
  simp at h

/-- The nodes of a state have children beside their histories if those of its children do. -/
theorem housed_assemble (hs : s.checkShape = .ok ()) (hr : roots = [] ↔ s.states = [])
    (h : ∀ n ∈ inner.nodes, n.histories ≠ [] → n.children ≠ []) :
    ∀ n ∈ (s.assemble above c roots inner behind).1.nodes, n.histories ≠ [] → n.children ≠ [] := by
  intro n hn hh
  rcases Laid.mem_assemble.1 hn with rfl | hn | hn
  · have hne : s.history ≠ [] := by rintro e; simp [ownNode, e] at hh
    exact fun e => states_ne_nil_of_checkShape hs hne (hr.1 e)
  · obtain ⟨-, -, -, -, -, -, -, -, hnone, -⟩ := mem_historyNodes hn
    exact absurd hnone hh
  · exact h n hn hh

mutual

/-- In a checked state nodes have children beside their histories. -/
theorem housed_outline (above : List NodeId) (c : Cursor) : ∀ (s : StateDef)
    {taken taken' : List String}, s.check taken = .ok taken' →
      ∀ n ∈ (outline above c s).1.nodes, n.histories ≠ [] → n.children ≠ []
  | ⟨_, _, _, _, _, states, _, _, _, _, _⟩, taken, taken', h => by
    rw [check_eq] at h
    split at h
    · cases h
    rename_i next hown
    rw [outline_eq]
    refine housed_assemble (of_checkOwn hown).1 ?_ (housed_outlineAll _ _ states h)
    rw [← List.length_eq_zero_iff, length_outlineAll, List.length_eq_zero_iff]

/-- So they do in checked states one after the other. -/
theorem housed_outlineAll (above : List NodeId) (c : Cursor) : ∀ (ss : List StateDef)
    {taken taken' : List String}, checkAll taken ss = .ok taken' →
      ∀ n ∈ (outlineAll above c ss).2.1.nodes, n.histories ≠ [] → n.children ≠ []
  | [], _, _, _, _, hn => nomatch hn
  | s :: ss, taken, taken', h, n, hn => by
    rw [checkAll] at h
    split at h
    · cases h
    rename_i next hs
    rw [outlineAll.eq_2] at hn
    rcases List.mem_append.1 hn with hn | hn
    · exact housed_outline above c s hs n hn
    · exact housed_outlineAll above _ ss h n hn

end
end StateDef

namespace Definition

variable {d : Definition} {taken : List String} {a : Arrow} {i : TransitionId} {x : NodeId}

/-- The nodes of a definition by index. -/
def table (d : Definition) : NodeTable := d.outline.2.nodes.toArray

/-- Where a transition that has to lead somewhere can lead first: to the first state at the top if it is
    the chart's own, else to the first child of its source. -/
def firstTargets (d : Definition) (a : Arrow) : List NodeId :=
  match a.origin, a.source with
  | .event, _ => []
  | _, some s => (d.table.node s).children.take 1
  | _, none => d.outline.1.take 1

/-- A chart with the tree of a definition. -/
def skeleton (d : Definition) : Chart where
  name := ""
  version := 0
  nodes := d.table
  transitions := (d.outline.2.arrows.map fun a => a.complete d.table (d.firstTargets a)).toArray
  invokes := #[]
  children := d.outline.1
  initial := d.outline.2.arrows.length - 1
  checksum := ""
  definition := d

/-- There is one first state at most. -/
theorem length_firstTargets_le : (d.firstTargets a).length ≤ 1 := by
  unfold firstTargets
  split
  · exact Nat.zero_le 1
  · exact List.length_take_le 1 _
  · exact List.length_take_le 1 _

/-- First states are children or at the top. -/
theorem mem_firstTargets (h : x ∈ d.firstTargets a) :
    (∃ p, x ∈ (d.table.node p).children) ∨ x ∈ d.outline.1 := by
  unfold firstTargets at h
  split at h
  · cases h
  · exact .inl ⟨_, List.mem_of_mem_take h⟩
  · exact .inr (List.mem_of_mem_take h)

/-- The transition of an arrow. -/
theorem skeleton_transition (h : d.outline.2.arrows[i]? = some a) :
    d.skeleton.transition i = a.complete d.table (d.firstTargets a) := by
  simp [Chart.transition, skeleton, h]

/-- A transition that is not for an event leads to the first child of its source. -/
theorem exists_firstTargets {s : NodeId} (ho : a.origin ≠ .event) (hs : a.source = some s)
    (hne : (d.table.node s).children ≠ []) : d.firstTargets a ≠ [] ∧
      ∀ x ∈ d.firstTargets a, x ∈ (d.table.node s).children := by
  have e : d.firstTargets a = (d.table.node s).children.take 1 := by
    unfold firstTargets
    rw [hs]
    cases ha : a.origin with
    | event => exact absurd ha ho
    | initial => rfl
    | history => rfl
    | chart => rfl
  rw [e]
  exact ⟨by simpa using hne, fun x => List.mem_of_mem_take⟩

/-- A definition with states has some at the top. -/
theorem outline_ne_nil (h : d.states ≠ []) : d.outline.1 ≠ [] := by
  rw [← List.length_pos_iff]
  exact Nat.lt_of_lt_of_eq (List.length_pos_iff.2 h) (StateDef.length_outlineAll ..).symm

/-- What the skeleton of a checked definition is built on. -/
structure Skeletal (d : Definition) (o : Outline) : Prop where
  laid : ∃ c', Outline.Laid [] startCursor d.skeleton.children o c'
  nodes : d.skeleton.nodes = o.nodes.toArray
  arrows : d.outline.2.arrows = o.arrows ++ [d.initialArrow]
  housed : ∀ n ∈ o.nodes, n.histories ≠ [] → n.children ≠ []

/-- Checked definitions have skeletons. -/
theorem skeletal_of_checkAll (h : StateDef.checkAll [] d.states = .ok taken) :
    ∃ o, d.Skeletal o :=
  ⟨_, ⟨_, StateDef.laid_outlineAll [] startCursor d.states h⟩, rfl, rfl,
    StateDef.housed_outlineAll [] startCursor d.states h⟩

namespace Skeletal

variable {o : Outline} {n p : NodeId} {t : TransitionId} {origin : Origin} {source : Option NodeId}

/-- First states are nodes that can be active together, as there is one at most. -/
theorem targetable_firstTargets (h : d.Skeletal o) :
    d.skeleton.nodes.Targetable (d.firstTargets a) := by
  obtain ⟨c', hl⟩ := h.laid
  have one (R : NodeId → NodeId → Prop) : (d.firstTargets a).Pairwise R := by
    cases hf : d.firstTargets a with
    | nil => exact .nil
    | cons x xs =>
      have := d.length_firstTargets_le (a := a)
      rw [hf, List.length_cons] at this
      obtain rfl : xs = [] := List.eq_nil_of_length_eq_zero (by omega)
      exact List.pairwise_singleton R x
  refine ⟨one _, fun x hx => ?_, one _⟩
  rcases mem_firstTargets hx with ⟨p, hx⟩ | hx
  · exact Chart.lt_size_of_parent ((hl.mem_children h.nodes).1 hx).1
  · exact ((hl.mem_top h.nodes).1 hx).1

/-- Every transition comes from an arrow, but for those that are not there. -/
theorem transition_complete (h : d.Skeletal o) (i : TransitionId) :
    d.skeleton.transition i = default ∨ ∃ (a : Arrow) (ts : List NodeId),
      d.skeleton.nodes.Targetable ts ∧ d.skeleton.transition i = a.complete d.skeleton.nodes ts := by
  cases ha : d.outline.2.arrows[i]? with
  | none => exact .inl (by simp [Chart.transition, skeleton, ha])
  | some a => exact .inr ⟨a, _, h.targetable_firstTargets, skeleton_transition ha⟩

/-- The transition that an arrow of the layout stands for. -/
theorem of_stands (h : d.Skeletal o)
    (hs : Arrow.Stands o.arrows startCursor.transition t origin source) :
    ∃ a : Arrow, d.skeleton.transition t = a.complete d.table (d.firstTargets a) ∧
      a.origin = origin ∧ a.source = source := by
  obtain ⟨a, ha, horigin, hsource, -⟩ := hs
  have ha : o.arrows[t]? = some a := List.mk_mem_zipIdx_iff_getElem?.1 ha
  refine ⟨a, skeleton_transition ?_, horigin, hsource⟩
  rw [h.arrows, List.getElem?_append_left (List.getElem?_eq_some_iff.1 ha).1, ha]

/-- Where a transition of a state with children has to lead somewhere, it leads to one of them. -/
theorem leads (h : d.Skeletal o) (ho : origin ≠ .event) (hp : (d.skeleton.node p).children ≠ [])
    (hs : Arrow.Stands o.arrows startCursor.transition t origin (some p)) :
    (d.skeleton.transition t).targets ≠ [] ∧ ∀ x ∈ (d.skeleton.transition t).targets,
      (d.skeleton.node x).parent = some p ∧ (d.skeleton.node x).isHistory = false := by
  obtain ⟨c', hl⟩ := h.laid
  obtain ⟨a, ha, rfl, hsource⟩ := h.of_stands hs
  obtain ⟨hsome, hall⟩ := exists_firstTargets ho hsource hp
  rw [ha]
  exact ⟨hsome, fun x hx => (hl.mem_children h.nodes).1 (hall x hx)⟩

theorem source_eq (h : d.Skeletal o) (ht : t ∈ (d.skeleton.node n).transitions) :
    (d.skeleton.transition t).source = some n ∧ (d.skeleton.transition t).origin = .event := by
  obtain ⟨c', hl⟩ := h.laid
  obtain ⟨hm, hx⟩ := hl.node_mem h.nodes (Chart.lt_size_of_transition ht)
  obtain ⟨a, ha, horigin, hsource⟩ := h.of_stands (hl.events _ hm t ht)
  rw [ha]
  exact ⟨hsource.trans (congrArg some hx), horigin⟩

/-- Compound states start with a child. -/
theorem exists_initial (h : d.Skeletal o) (hc : (d.skeleton.node n).isCompound = true) :
    ∃ t, (d.skeleton.node n).initial = some t ∧ (d.skeleton.transition t).targets ≠ [] ∧
      ∀ x ∈ (d.skeleton.transition t).targets,
        d.skeleton.descends x n = true ∧ (d.skeleton.node x).isHistory = false := by
  obtain ⟨c', hl⟩ := h.laid
  have hchildren : (d.skeleton.node n).children ≠ [] := by
    rintro e
    simp [Node.isCompound, e] at hc
  obtain ⟨hm, hx⟩ := hl.node_mem h.nodes (NodeTable.lt_size_of_compound hc)
  obtain ⟨t, ht, hst⟩ := hl.initials _ hm hc
  rw [hx] at hst
  obtain ⟨hsome, hall⟩ := h.leads (by simp) hchildren hst
  refine ⟨t, ht, hsome, fun x hx => ⟨Chart.descends_iff.2 ?_, (hall x hx).2⟩⟩
  rw [Chart.node, hl.ancestors_some h.nodes (hall x hx).1]
  exact List.mem_cons_self

/-- A child is covered by every history of its parent. -/
theorem historyCovers_of_parent (h : d.Skeletal o) (kind : HistoryKind)
    (hp : (d.skeleton.nodes.node n).parent = some p)
    (hs : (d.skeleton.nodes.node n).isHistory = false) :
    d.skeleton.nodes.historyCovers kind p n = true := by
  obtain ⟨c', hl⟩ := h.laid
  have ha := hl.ancestors_some h.nodes hp
  cases kind <;> simp [NodeTable.historyCovers, NodeTable.descends, hp, hs, ha]

/-- Histories stand for a child of their parent. -/
theorem exists_default (h : d.Skeletal o) {kind : HistoryKind}
    (hk : (d.skeleton.node n).kind = .history kind) (hp : (d.skeleton.node n).parent = some p) :
    ∃ t, (d.skeleton.node n).initial = some t ∧ (d.skeleton.transition t).targets ≠ [] ∧
      ∀ x ∈ (d.skeleton.transition t).targets, d.skeleton.nodes.historyCovers kind p x = true := by
  obtain ⟨c', hl⟩ := h.laid
  have hn : n < d.skeleton.nodes.size := Chart.lt_size_of_parent hp
  have hh : (d.skeleton.node n).isHistory = true := by rw [Node.isHistory, hk]
  have hchildren : (d.skeleton.node p).children ≠ [] :=
    h.housed _ (hl.node_mem h.nodes (Nat.lt_trans (hl.parent_lt h.nodes hp) hn)).1
      (List.ne_nil_of_mem ((hl.mem_histories h.nodes).2 ⟨hp, hh⟩))
  obtain ⟨t, ht, hst⟩ := hl.defaults _ (hl.node_mem h.nodes hn).1 hh
  rw [show (d.skeleton.nodes.node n).parent = some p from hp] at hst
  obtain ⟨hsome, hall⟩ := h.leads (by simp) hchildren hst
  exact ⟨t, ht, hsome, fun x hx => h.historyCovers_of_parent kind (hall x hx).1 (hall x hx).2⟩

/-- The skeleton starts with the first state at the top. -/
theorem start (h : d.Skeletal o) (hne : d.states ≠ []) :
    (d.skeleton.transition d.skeleton.initial).source = none ∧
      (d.skeleton.transition d.skeleton.initial).targets ≠ [] ∧
      ∀ x ∈ (d.skeleton.transition d.skeleton.initial).targets,
        (d.skeleton.node x).isHistory = false := by
  obtain ⟨c', hl⟩ := h.laid
  have hlast : d.outline.2.arrows[d.skeleton.initial]? = some d.initialArrow := by
    simp [skeleton, h.arrows]
  rw [skeleton_transition hlast]
  refine ⟨rfl, by simpa [Arrow.complete, firstTargets, initialArrow] using outline_ne_nil hne,
    fun x hx => ?_⟩
  obtain ⟨n, hmem, rfl, hs, -⟩ := hl.rooted x (List.mem_of_mem_take hx)
  rw [Chart.node, (hl.node_index h.nodes hmem).2, hs]

end Skeletal

/-- The skeleton of a checked definition is well formed. -/
theorem wellFormed_skeleton (hcheck : StateDef.checkAll [] d.states = .ok taken) (hne : d.states ≠ []) :
    d.skeleton.WellFormed := by
  obtain ⟨o, h⟩ := skeletal_of_checkAll hcheck
  obtain ⟨c', hl⟩ := h.laid
  exact Chart.wellFormed_of_laid hl h.nodes h.transition_complete h.source_eq h.exists_initial
    h.exists_default (h.start hne)

/-- Two or more states, all different, pass the check of targets if and only if none of them contains
    another and some configuration has all of them active. -/
theorem legalTargets_iff (hcheck : StateDef.checkAll [] d.states = .ok taken) {targets : List NodeId}
    (hlen : 2 ≤ targets.length) (hnodup : targets.Nodup)
    (hstate : ∀ x ∈ targets, x < d.table.size ∧ (d.table.node x).isHistory = false) :
    d.table.legalTargets targets = true ↔
      (∀ a ∈ targets, ∀ b ∈ targets, d.table.descends a b = false) ∧
        ∃ A, d.table.Configuration d.outline.1 A ∧ ∀ x ∈ targets, x ∈ A := by
  have hne : d.states ≠ [] := by
    rintro e
    have hsize : d.table.size = 0 := by
      simp [table, outline, e, StateDef.outlineAll, Outline.empty]
    obtain ⟨x, hx⟩ := List.exists_mem_of_length_pos (Nat.lt_of_lt_of_le Nat.zero_lt_two hlen)
    exact Nat.not_lt_zero x (hsize ▸ (hstate x hx).1)
  have hc := wellFormed_skeleton hcheck hne
  rw [NodeTable.legalTargets_iff_pairwise]
  constructor
  · intro h
    have hapart : targets.Pairwise d.skeleton.Apart :=
      hnodup.imp₂ (fun _ _ => hc.apart_of_compatible) h
    have htidy : d.skeleton.Tidy targets := hc.tidy_of_pairwise_apart hapart
    refine ⟨fun a ha b hb => ?_, hc.exists_configuration (outline_ne_nil hne) htidy hstate⟩
    have : Std.Symm d.skeleton.Apart := ⟨fun _ _ => Chart.Apart.symm⟩
    exact Bool.eq_false_iff.2 fun h => (hapart.forall ha hb (hc.ne_of_descends h)).left (.inr h)
  · rintro ⟨hfree, A, hA, hmem⟩
    refine hnodup.imp_of_mem fun {a b} ha hb hab => ?_
    have free {x y : NodeId} (hx : x ∈ targets) (hy : y ∈ targets) (hxy : x ≠ y) :
        ¬d.skeleton.Within x y := fun h => by
      have hd := hfree x hx y hy
      rw [show d.table.descends x y = true from h.resolve_left hxy] at hd
      cases hd
    exact hc.compatible_of_configuration hA (hmem a ha) (hmem b hb) (free ha hb hab)
      (free hb ha (Ne.symm hab))

/-- A kitchen: oven, hob and tap are used side by side, and the hob is hot in one of two ways. -/
def kitchen : Definition := (Definition.read? (.object [
    ("states", .array [
      .object [("id", .string "Closed")],
      .object [("id", .string "Kitchen"), ("kind", .string "parallel"), ("states", .array [
        .object [("id", .string "Oven"), ("states", .array [
          .object [("id", .string "Cold")], .object [("id", .string "Hot")]])],
        .object [("id", .string "Hob"), ("states", .array [
          .object [("id", .string "Off")],
          .object [("id", .string "On"), ("states", .array [
            .object [("id", .string "Low")], .object [("id", .string "High")]])]])],
        .object [("id", .string "Tap"), ("states", .array [
          .object [("id", .string "Dry")], .object [("id", .string "Wet")]])]])]])])).get
  (by decide +kernel)

theorem check_kitchen : StateDef.checkAll [] kitchen.states = .ok ["Wet", "Dry", "Tap", "High", "Low",
    "On", "Off", "Hob", "Hot", "Cold", "Oven", "Kitchen", "Closed"] :=
  Chart.eq_ok_of_toOption (by decide +kernel)

/-- In the kitchen a hot oven, a high hob and a wet tap go together; a low hob and a high one do not. -/
theorem legalTargets_kitchen :
    (∃ A, kitchen.table.Configuration kitchen.outline.1 A ∧ ∀ x ∈ [4, 9, 12], x ∈ A) ∧
      ¬∃ A, kitchen.table.Configuration kitchen.outline.1 A ∧ ∀ x ∈ [8, 9], x ∈ A := by
  constructor
  · exact ((legalTargets_iff check_kitchen (by decide) (by decide) (by decide +kernel)).1
      (by decide +kernel)).2
  · intro h
    have := (legalTargets_iff check_kitchen (by decide) (by decide) (by decide +kernel)).2
      ⟨by decide +kernel, h⟩
    revert this
    decide +kernel

end Definition
end Statechart
