import Statechart.Proofs.Numbering

/-! Every transition has one place in the chart.

    The event transitions of a state are declared once, and the transition through which a node is
    entered borrows the order of the node. Orders are different for different nodes, so no two nodes are
    entered through the same transition. -/

namespace Statechart

/-- Whether the transition through which a node is entered has the order of the node. -/
def Node.Fronted (as : List Arrow) (base : Nat) (n : Node) : Prop :=
  ∀ i, n.initial = some i → ∃ a, (a, i) ∈ as.zipIdx base ∧ a.order = n.order

namespace Node.Fronted

variable {n : Node} {as bs : List Arrow} {base base' : Nat}

theorem append_left (h : n.Fronted as base) : n.Fronted (as ++ bs) base := by
  intro i hi
  obtain ⟨a, ha, ho⟩ := h i hi
  exact ⟨a, Outline.entry_left ha, ho⟩

theorem append_right (hb : base' = base + as.length) (h : n.Fronted bs base') :
    n.Fronted (as ++ bs) base := by
  intro i hi
  obtain ⟨a, ha, ho⟩ := h i hi
  exact ⟨a, Outline.entry_right hb ha, ho⟩

end Node.Fronted

namespace StateDef

open Outline

variable {s : StateDef} {above : List NodeId} {c behind : Cursor} {roots : List NodeId}
  {inner : Outline} {n : Node}

theorem fronted_ownNode : (s.ownNode above c roots behind).Fronted (s.initialArrows c)
    behind.transition := by
  intro i hi
  simp only [ownNode] at hi
  split at hi
  · rename_i h
    cases hi
    exact ⟨_, by rw [initialArrows, if_pos h]; exact List.mem_singleton.2 rfl, rfl⟩
  · cases hi

theorem fronted_historyNodes (h : n ∈ s.historyNodes above c) :
    n.Fronted (s.historyArrows c) (c.transition + s.transitions.length) := by
  obtain ⟨⟨d, j⟩, hd, rfl⟩ := List.mem_map.1 h
  obtain ⟨hj, -⟩ := List.getElem?_eq_some_iff.1 (List.mk_mem_zipIdx_iff_getElem?.1 hd)
  rintro i hi
  cases hi
  refine ⟨_, List.mk_add_mem_zipIdx_iff_getElem?.2 (List.getElem?_eq_getElem (by
    simpa [historyArrows] using hj)), ?_⟩
  simp [historyArrows]

/-- A state is fronted if its children are. -/
theorem fronted_assemble (l : Laid (c.node :: above) (s.childCursor c) roots inner behind)
    (h : ∀ n ∈ inner.nodes, n.Fronted inner.arrows (s.childCursor c).transition) :
    ∀ n ∈ (s.assemble above c roots inner behind).1.nodes,
      n.Fronted (s.assemble above c roots inner behind).1.arrows c.transition := by
  intro n hn
  rcases Laid.mem_assemble.1 hn with rfl | hn | hn
  · refine fronted_ownNode.append_right ?_
    rw [l.arrows]
    simp [childCursor, eventArrows, historyArrows]
    omega
  · refine (((fronted_historyNodes hn).append_right ?_).append_left).append_left
    simp [eventArrows]
  · refine ((h n hn).append_right ?_).append_left
    simp [childCursor, eventArrows, historyArrows]
    omega

mutual

/-- The nodes of a checked state are fronted. -/
theorem fronted_outline (above : List NodeId) (c : Cursor) : ∀ (s : StateDef)
    {taken taken' : List String}, s.check taken = .ok taken' →
      ∀ n ∈ (outline above c s).1.nodes, n.Fronted (outline above c s).1.arrows c.transition
  | ⟨_, _, _, _, _, states, _, _, _, _, _⟩, taken, taken', h => by
    rw [check_eq] at h
    split at h
    · cases h
    rw [outline_eq]
    exact fronted_assemble (laid_outlineAll _ _ states h) (fronted_outlineAll _ _ states h)

/-- So are those of checked states one after the other. -/
theorem fronted_outlineAll (above : List NodeId) (c : Cursor) : ∀ (ss : List StateDef)
    {taken taken' : List String}, checkAll taken ss = .ok taken' →
      ∀ n ∈ (outlineAll above c ss).2.1.nodes,
        n.Fronted (outlineAll above c ss).2.1.arrows c.transition
  | [], _, _, _, _, hn => nomatch hn
  | s :: ss, taken, taken', h, n, hn => by
    rw [checkAll] at h
    split at h
    · cases h
    rename_i next hc
    rw [outlineAll.eq_2] at hn ⊢
    rcases List.mem_append.1 hn with hn | hn
    · exact (fronted_outline above c s hc n hn).append_left
    · exact (fronted_outlineAll above _ ss h n hn).append_right (laid_outline above c s hc).arrows

end
end StateDef

namespace Chart

/-- What is said of the transitions of nodes: those for events are declared once, and the one through
    which a node is entered has the order of the node and is not that of the chart. -/
structure Entranced (c : Chart) : Prop where
  once : ∀ n, (c.node n).transitions.Nodup
  order : ∀ {n t}, (c.node n).initial = some t → (c.transition t).order = (c.node n).order
  inner : ∀ {n t}, (c.node n).initial = some t → t ≠ c.initial

theorem entranced_of_compile {name : String} {version : Nat} {d : Definition} {c : Chart}
    (h : compile name version d = .ok c) : c.Entranced := by
  obtain ⟨o, k, targets, hb⟩ := built_of_compile h
  obtain ⟨taken, hcheck⟩ := hb.checked
  have fronted := StateDef.fronted_outlineAll [] Definition.startCursor d.states hcheck
  rw [hb.outline] at fronted
  have front {n : NodeId} {t : TransitionId} (hi : (c.node n).initial = some t) :
      ∃ a, o.arrows[t]? = some a ∧ a.order = (c.node n).order := by
    obtain ⟨a, ha, ho⟩ := fronted _ (hb.laid.node_mem hb.nodes (lt_size_of_initial hi)).1 t hi
    exact ⟨a, List.mk_mem_zipIdx_iff_getElem?.1 ha, ho⟩
  constructor
  case once =>
    intro n
    by_cases hn : n < c.nodes.size
    · obtain ⟨first, he, -⟩ := hb.numbered_outline.followed _ (hb.laid.node_mem hb.nodes hn).1
      rw [Chart.node, he]
      exact List.nodup_range' ..
    · rw [Chart.node, NodeTable.node_of_le (Nat.le_of_not_lt hn)]
      exact List.nodup_nil
  case order =>
    intro n t hi
    obtain ⟨a, ha, ho⟩ := front hi
    exact (hb.order_eq ha).trans ho
  case inner =>
    -- the chart's own stands behind all others
    rintro n t hi rfl
    obtain ⟨a, ha, -⟩ := front hi
    exact absurd (List.getElem?_eq_some_iff.1 ha).1 (Nat.not_lt.2 (Nat.le_of_eq hb.initial.symm))

/-- The transitions of charts that load have one place each. -/
theorem entranced_of_load {name : String} {version : Nat} {v : Value} {c : Chart}
    (h : load name version v = .ok c) : c.Entranced :=
  entranced_of_compile (compile_of_load h).choose_spec

/-- No two nodes are entered through the same transition. -/
theorem Entranced.eq_of_initial {c : Chart} (h : c.Entranced) (hn : c.Numbered) {n m : NodeId}
    {t : TransitionId} (hi : (c.node n).initial = some t) (hi' : (c.node m).initial = some t) :
    n = m := by
  have ho : (c.node n).order = (c.node m).order := (h.order hi).symm.trans (h.order hi')
  rcases Nat.lt_trichotomy n m with hlt | heq | hlt
  · have := hn.order_lt hlt (lt_size_of_initial hi')
    omega
  · exact heq
  · have := hn.order_lt hlt (lt_size_of_initial hi)
    omega

/-- No node is entered through a transition for events. -/
theorem Entranced.not_mem_transitions {c : Chart} (h : c.Entranced) (hn : c.Numbered) {n m : NodeId}
    {t : TransitionId} (hi : (c.node n).initial = some t) : t ∉ (c.node m).transitions := by
  intro hm
  have ho := h.order hi
  rcases Nat.lt_or_ge m n with hlt | hle
  · have := hn.before hm hlt (lt_size_of_initial hi)
    omega
  · have hnm : (c.node n).order ≤ (c.node m).order := by
      rcases Nat.eq_or_lt_of_le hle with rfl | hlt
      · exact Nat.le_refl _
      · exact Nat.le_of_lt (hn.order_lt hlt (lt_size_of_transition hm))
    have := hn.behind hm
    omega

end Chart
end Statechart
