import Mathlib.Data.List.Nodup
import Statechart.Proofs.Numbering

/-! Observables count the parts of a chart on one walk through it.

    The walk meets the chart's own transition first and then goes from state to state as they are
    declared. At each it meets the state itself, the transition through which it is entered, its event
    transitions, and its histories, each with its default transition; then it goes on with the children.
    Indices are given in another order, and a transition is reached through the state or history that
    refers to it; still every node and every transition is met, and none of them twice. So observables
    tell all of them apart, and from the chart, which has the observable zero. -/

namespace Statechart

/-- A part of a chart that has an observable of its own: a state or history, or a transition. -/
inductive Element where
  | node (n : NodeId)
  | transition (i : TransitionId)
  deriving DecidableEq

namespace Chart

/-- Whether a chart has a part. -/
def Contains (c : Chart) : Element → Prop
  | .node n => n < c.nodes.size
  | .transition i => i < c.transitions.size

/-- The observable of a part. -/
def observable (c : Chart) : Element → Nat
  | .node n => (c.node n).observable
  | .transition i => (c.transition i).observable

/-- A node, with the transition that belongs to it: the one through which it is entered, or the default
    one of a history. -/
def headed (c : Chart) (n : NodeId) : List Element :=
  .node n :: (c.node n).initial.toList.map .transition

/-- What is met at a state before its children. -/
def own (c : Chart) (n : NodeId) : List Element :=
  c.headed n ++ (c.node n).transitions.map .transition ++ (c.node n).histories.flatMap c.headed

/-- What is met on a walk through states and all that lies below them. -/
inductive Tour (c : Chart) : List NodeId → List Element → Prop where
  | nil : Tour c [] []
  | cons {n : NodeId} {ns : List NodeId} {inner rest : List Element}
      (below : Tour c (c.node n).children inner) (behind : Tour c ns rest) :
      Tour c (n :: ns) (c.own n ++ inner ++ rest)

namespace Tour

variable {c : Chart} {ns ms : List NodeId} {n : NodeId} {es fs : List Element}

theorem append (h : c.Tour ns es) (h' : c.Tour ms fs) : c.Tour (ns ++ ms) (es ++ fs) := by
  induction h with
  | nil => exact h'
  | cons below _ _ ih =>
    rw [List.append_assoc]
    exact .cons below ih

theorem single (h : c.Tour (c.node n).children es) : c.Tour [n] (c.own n ++ es) := by
  rw [← List.append_nil (c.own n ++ es)]
  exact .cons h .nil

end Tour
end Chart

/-! ### What the tables hold -/

namespace Outline

/-- Whether the tables of a chart hold the parts of an outline, its transitions from an index on. -/
structure Stored (c : Chart) (base : TransitionId) (o : Outline) : Prop where
  node : ∀ n ∈ o.nodes, c.node n.index = n
  observable : ∀ a i, (a, i) ∈ o.arrows.zipIdx base → (c.transition i).observable = a.observable

namespace Stored

variable {c : Chart} {base base' : TransitionId} {o q : Outline}

/-- An arrow of the outline by its place, with others before and behind it. -/
theorem arrow (before behind : List Arrow) {as : List Arrow} {a : Arrow} {j : Nat}
    (h : Stored c base o) (ho : o.arrows = before ++ as ++ behind) (ha : as[j]? = some a) :
    (c.transition (base + before.length + j)).observable = a.observable := by
  refine h.observable a _ ?_
  rw [ho]
  exact entry_left (entry_right rfl (List.mk_add_mem_zipIdx_iff_getElem?.2 ha))

theorem left (h : Stored c base (o.append q)) : Stored c base o where
  node n hn := h.node n (List.mem_append_left _ hn)
  observable a i ha := h.observable a i (entry_left ha)

theorem right (hb : base' = base + o.arrows.length) (h : Stored c base (o.append q)) :
    Stored c base' q where
  node n hn := h.node n (List.mem_append_right _ hn)
  observable a i ha := h.observable a i (entry_right hb ha)

end Stored

/-- A walk through states that are numbered from one cursor to another. -/
structure Toured (c : Chart) (k : Cursor) (roots : List NodeId) (k' : Cursor) (es : List Element) :
    Prop where
  tour : c.Tour roots es
  counted : es.map c.observable = List.range' k.observable es.length
  observable : k'.observable = k.observable + es.length
  length : es.length + k.node + k.transition = k'.node + k'.transition
  nodes_le : k.node ≤ k'.node
  transitions_le : k.transition ≤ k'.transition
  node : ∀ n : Nat, .node n ∈ es ↔ k.node ≤ n ∧ n < k'.node
  transition : ∀ i : Nat, .transition i ∈ es ↔ k.transition ≤ i ∧ i < k'.transition

namespace Toured

variable {c : Chart} {k k₁ k₂ : Cursor} {roots : List NodeId} {r : NodeId} {es fs : List Element}

/-- Where there are no states nothing is met. -/
theorem nil (c : Chart) (k : Cursor) : Toured c k [] k [] where
  tour := .nil
  counted := rfl
  observable := rfl
  length := by simp
  nodes_le := Nat.le_refl _
  transitions_le := Nat.le_refl _
  node n := by simp only [List.not_mem_nil, false_iff]; omega
  transition i := by simp only [List.not_mem_nil, false_iff]; omega

/-- The walk goes on behind a state. -/
theorem cons (h : Toured c k [r] k₁ es) (h' : Toured c k₁ roots k₂ fs) :
    Toured c k (r :: roots) k₂ (es ++ fs) where
  tour := h.tour.append h'.tour
  counted := by
    rw [List.map_append, h.counted, h'.counted, h.observable, List.length_append]
    exact List.range'_append_1
  observable := by rw [h'.observable, h.observable, List.length_append, Nat.add_assoc]
  length := by
    have := h.length
    have := h'.length
    rw [List.length_append]
    omega
  nodes_le := Nat.le_trans h.nodes_le h'.nodes_le
  transitions_le := Nat.le_trans h.transitions_le h'.transitions_le
  node n := by
    have := h.nodes_le
    have := h'.nodes_le
    rw [List.mem_append, h.node, h'.node]
    omega
  transition i := by
    have := h.transitions_le
    have := h'.transitions_le
    rw [List.mem_append, h.transition, h'.transition]
    omega

end Toured
end Outline

/-! ### What is met at one state -/

namespace StateDef

open Outline

/-- What is met at a state before its children, by the numbers free when it is laid out; `entry` is the
    index of the transition through which it is entered, if there is one. -/
def ownElements (s : StateDef) (k : Cursor) (entry : TransitionId) : List Element :=
  .node k.node :: ((if s.isCompound then [.transition entry] else []) ++
    (List.range s.transitions.length).map (fun j => .transition (k.transition + j)) ++
    (List.range s.history.length).flatMap fun j =>
      [.node (k.node + 1 + j), .transition (k.transition + s.transitions.length + j)])

variable {s : StateDef} {above : List NodeId} {k behind : Cursor} {roots : List NodeId}
  {inner : Outline} {c : Chart} {entry : TransitionId}

/-- Counting from a number on. -/
theorem exists_offset {a b i : Nat} : (∃ j < b, i = a + j) ↔ a ≤ i ∧ i < a + b := by
  constructor
  · rintro ⟨j, hj, rfl⟩
    exact ⟨Nat.le_add_right a j, Nat.add_lt_add_left hj a⟩
  · rintro ⟨hle, hlt⟩
    obtain ⟨j, rfl⟩ := Nat.exists_eq_add_of_le hle
    exact ⟨j, Nat.lt_of_add_lt_add_left hlt, rfl⟩

/-- Two numbers at a time. -/
theorem range'_pairs (a : Nat) : ∀ n, List.range' a (2 * n) =
    (List.range n).flatMap fun j => [a + 2 * j, a + 2 * j + 1]
  | 0 => rfl
  | n + 1 => by
    rw [List.range_succ, List.flatMap_append, ← range'_pairs a n, Nat.mul_succ, ← List.range'_append_1]
    rfl

theorem node_mem_ownElements {n : Nat} :
    .node n ∈ s.ownElements k entry ↔ k.node ≤ n ∧ n < k.node + 1 + s.history.length := by
  have hentry : Element.node n ∉ if s.isCompound then [Element.transition entry] else [] := by
    split <;> simp
  simp only [ownElements, List.mem_cons, List.mem_append, hentry, List.mem_map, List.mem_flatMap,
    List.mem_range, Element.node.injEq, reduceCtorEq, and_false, exists_false, false_or, or_false,
    List.not_mem_nil, exists_offset]
  constructor
  · rintro (rfl | h) <;> omega
  · intro h
    exact (Nat.eq_or_lt_of_le h.1).imp Eq.symm fun hlt => ⟨hlt, h.2⟩

theorem transition_mem_ownElements {i : Nat} :
    .transition i ∈ s.ownElements k entry ↔ s.isCompound = true ∧ i = entry ∨
      k.transition ≤ i ∧ i < k.transition + s.transitions.length + s.history.length := by
  have hentry : (Element.transition i ∈ if s.isCompound then [Element.transition entry] else []) ↔
      s.isCompound = true ∧ i = entry := by
    split <;> simp [*]
  simp only [ownElements, List.mem_cons, List.mem_append, hentry, List.mem_map, List.mem_flatMap,
    List.mem_range, Element.transition.injEq, reduceCtorEq, false_or, or_false, List.not_mem_nil,
    @eq_comm _ _ i, exists_offset, or_assoc]
  refine or_congr_right ?_
  omega

section

variable (hst : Stored c k.transition (s.assemble above k roots inner behind).1)

include hst

theorem node_of_stored : c.node k.node = s.ownNode above k roots behind :=
  hst.node _ (Laid.mem_assemble.2 (.inl rfl))

/-- The parts of the children are stored behind those of the state. -/
theorem stored_inner : Stored c (s.childCursor k).transition inner where
  node n hn := hst.node n (Laid.mem_assemble.2 (.inr (.inr hn)))
  observable a i ha := by
    refine hst.observable a i ?_
    have hlen : (s.childCursor k).transition =
        k.transition + (s.eventArrows k ++ s.historyArrows k).length := by
      simp [childCursor, eventArrows, historyArrows]
      omega
    rw [hlen] at ha
    exact entry_left (entry_right rfl ha)

/-- What is met at a state. -/
theorem own_eq : c.own k.node = s.ownElements k behind.transition := by
  have hhistory {j : Nat} (hj : j < s.history.length) : c.headed (k.node + 1 + j) =
      [.node (k.node + 1 + j), .transition (k.transition + s.transitions.length + j)] := by
    obtain ⟨n, hn, hi⟩ := exists_historyNode above k hj
    obtain ⟨j', -, hi', -, -, -, hentry, -⟩ := mem_historyNodes hn
    have hnode := hst.node n (Laid.mem_assemble.2 (.inr (.inl hn)))
    obtain rfl : j' = j := Nat.add_left_cancel (hi'.symm.trans hi)
    rw [hi] at hnode
    rw [Chart.headed, hnode, hentry]
    rfl
  rw [Chart.own, Chart.headed, node_of_stored hst]
  simp only [ownNode, ownElements, List.map_map, List.flatMap_map, List.cons_append]
  congr 2
  · congr 1
    split <;> rfl
  · exact List.flatMap_congr fun j hj => hhistory (List.mem_range.1 hj)

/-- The transition through which a state is entered stands behind those of its children. -/
theorem observable_entry (hb : behind.transition = (s.childCursor k).transition + inner.arrows.length) :
    (if s.isCompound then [Element.transition behind.transition] else []).map c.observable =
      List.range' (k.observable + 1) s.initialCount := by
  unfold initialCount
  split
  · rename_i h
    have hlen : behind.transition =
        k.transition + (s.eventArrows k ++ s.historyArrows k ++ inner.arrows).length + 0 := by
      rw [hb]
      simp [childCursor, eventArrows, historyArrows]
      omega
    obtain ⟨a, ha, ho⟩ : ∃ a, s.initialArrows k = [a] ∧ a.observable = k.observable + 1 :=
      ⟨_, if_pos h, rfl⟩
    refine congrArg (fun o => [o]) (Eq.trans ?_ ho)
    rw [Chart.observable, hlen]
    exact hst.arrow _ [] (by rw [List.append_nil, assemble, ha]) rfl
  · rfl

theorem observable_events :
    ((List.range s.transitions.length).map fun j => Element.transition (k.transition + j)).map
      c.observable = List.range' (k.observable + 1 + s.initialCount) s.transitions.length := by
  rw [List.map_map, List.range'_eq_map_range]
  refine List.map_congr_left fun j hj => ?_
  have ha : j < (s.eventArrows k).length := by simpa [eventArrows] using hj
  have harrow := hst.arrow [] (s.historyArrows k ++ inner.arrows ++ s.initialArrows k)
    (by simp [assemble]) (List.getElem?_eq_getElem ha)
  exact harrow.trans (by simp [eventArrows])

theorem observable_histories :
    ((List.range s.history.length).flatMap fun j =>
      [Element.node (k.node + 1 + j), .transition (k.transition + s.transitions.length + j)]).map
        c.observable =
      List.range' (k.observable + 1 + s.initialCount + s.transitions.length) (2 * s.history.length) := by
  rw [List.map_flatMap, range'_pairs]
  refine List.flatMap_congr fun j hj => ?_
  have hj := List.mem_range.1 hj
  have ha : j < (s.historyArrows k).length := by simpa [historyArrows] using hj
  have hn : j < (s.historyNodes above k).length := by simpa [historyNodes] using hj
  have hnode := hst.node (s.historyNodes above k)[j]
    (Laid.mem_assemble.2 (.inr (.inl (List.getElem_mem hn))))
  have harrow := hst.arrow (s.eventArrows k) (inner.arrows ++ s.initialArrows k)
    (by simp [assemble]) (List.getElem?_eq_getElem ha)
  rw [show (s.eventArrows k).length = s.transitions.length by simp [eventArrows]] at harrow
  simp only [historyNodes, historyArrows, List.getElem_map, List.getElem_zipIdx, Nat.zero_add]
    at hnode harrow
  simp [Chart.observable, hnode, harrow]

/-- The observables of what is met at a state follow one another. -/
theorem counted_ownElements
    (hb : behind.transition = (s.childCursor k).transition + inner.arrows.length) :
    (s.ownElements k behind.transition).map c.observable = List.range' k.observable
      (1 + s.initialCount + s.transitions.length + 2 * s.history.length) := by
  have hown : c.observable (.node k.node) = k.observable :=
    congrArg Node.observable (node_of_stored hst)
  have hlist : k.observable :: List.range' (k.observable + 1) s.initialCount =
      List.range' k.observable (1 + s.initialCount) := by
    rw [Nat.add_comm 1, List.range'_succ]
  rw [ownElements, List.map_cons, List.map_append, List.map_append, hown, observable_entry hst hb,
    observable_events hst, observable_histories hst, ← List.cons_append, ← List.cons_append, hlist]
  simp only [Nat.add_assoc k.observable, List.range'_append_1]

end

end StateDef

namespace Outline.Toured

open StateDef

variable {s : StateDef} {above : List NodeId} {k behind : Cursor} {roots : List NodeId}
  {inner : Outline} {c : Chart} {es : List Element}

/-- The walk through a state goes on through its children. -/
theorem assemble (hst : Stored c k.transition (s.assemble above k roots inner behind).1)
    (l : Laid (k.node :: above) (s.childCursor k) roots inner behind)
    (h : Toured c (s.childCursor k) roots behind es) :
    Toured c k [k.node] (s.assemble above k roots inner behind).2
      (s.ownElements k behind.transition ++ es) := by
  have hcounted := counted_ownElements hst l.arrows
  have hlength : (s.ownElements k behind.transition).length =
      1 + s.initialCount + s.transitions.length + 2 * s.history.length := by
    simpa using congrArg List.length hcounted
  have hnodes : k.node + 1 + s.history.length ≤ behind.node := h.nodes_le
  have htransitions : k.transition + s.transitions.length + s.history.length ≤ behind.transition :=
    h.transitions_le
  constructor
  case tour =>
    rw [← own_eq hst]
    refine .single ?_
    rw [node_of_stored hst]
    exact h.tour
  case counted =>
    have hnext : (s.childCursor k).observable =
        k.observable + (1 + s.initialCount + s.transitions.length + 2 * s.history.length) := by
      simp only [childCursor]
      omega
    rw [List.map_append, hcounted, h.counted, hnext, List.range'_append_1, List.length_append, hlength]
  case observable =>
    have := h.observable
    simp only [childCursor] at this
    simp only [StateDef.assemble, List.length_append, hlength]
    omega
  case length =>
    have := h.length
    simp only [childCursor] at this
    simp only [StateDef.assemble, List.length_append, hlength]
    omega
  case nodes_le =>
    simp only [StateDef.assemble]
    omega
  case transitions_le =>
    simp only [StateDef.assemble]
    omega
  case node =>
    intro n
    rw [List.mem_append, node_mem_ownElements, h.node]
    simp only [childCursor, StateDef.assemble]
    omega
  case transition =>
    intro i
    rw [List.mem_append, transition_mem_ownElements, h.transition]
    simp only [childCursor, StateDef.assemble, initialCount]
    cases s.isCompound <;> simp <;> omega

end Outline.Toured

namespace StateDef

open Outline

mutual

/-- A walk through a checked state. -/
theorem toured_outline {c : Chart} (above : List NodeId) (k : Cursor) :
    ∀ (s : StateDef) {taken taken' : List String}, s.check taken = .ok taken' →
      Stored c k.transition (outline above k s).1 →
      ∃ es, Toured c k [k.node] (outline above k s).2 es
  | ⟨_, _, _, _, _, states, _, _, _, _, _⟩, taken, taken', h, hst => by
    rw [check_eq] at h
    split at h
    · cases h
    rw [outline_eq] at hst ⊢
    obtain ⟨es, hes⟩ := toured_outlineAll _ _ states h (stored_inner hst)
    exact ⟨_, hes.assemble hst (laid_outlineAll _ _ states h)⟩

/-- A walk through checked states, one after the other. -/
theorem toured_outlineAll {c : Chart} (above : List NodeId) (k : Cursor) :
    ∀ (ss : List StateDef) {taken taken' : List String}, checkAll taken ss = .ok taken' →
      Stored c k.transition (outlineAll above k ss).2.1 →
      ∃ es, Toured c k (outlineAll above k ss).1 (outlineAll above k ss).2.2 es
  | [], _, _, _, _ => ⟨[], .nil c k⟩
  | s :: ss, taken, taken', h, hst => by
    rw [checkAll] at h
    split at h
    · cases h
    rename_i next hc
    rw [outlineAll.eq_2] at hst ⊢
    obtain ⟨es, hes⟩ := toured_outline above k s hc hst.left
    obtain ⟨fs, hfs⟩ := toured_outlineAll above _ ss h (hst.right (laid_outline above k s hc).arrows)
    exact ⟨es ++ fs, hes.cons hfs⟩

end
end StateDef

namespace Chart

variable {c : Chart} {name : String} {version : Nat} {d : Definition} {e e' : Element}

/-- The tables of a compiled chart hold the parts of its definition, and behind them the transition with
    which the chart starts. -/
theorem stored_of_compile (h : compile name version d = .ok c) : ∃ o k taken,
    StateDef.checkAll [] d.states = .ok taken ∧
    StateDef.outlineAll [] Definition.startCursor d.states = (c.children, o, k) ∧
    Outline.Stored c Definition.startCursor.transition o ∧ c.nodes.size = k.node ∧
    c.transitions.size = k.transition + 1 ∧ c.initial = k.transition ∧
    (c.transition c.initial).observable = 1 := by
  obtain ⟨o, k, targets, hb⟩ := built_of_compile h
  obtain ⟨taken, hcheck⟩ := hb.checked
  have hnode : k.node = o.nodes.length := hb.laid.nodes.trans (Nat.zero_add _)
  have htransition : k.transition = o.arrows.length := hb.laid.arrows.trans (Nat.zero_add _)
  have hobservable {i : TransitionId} {a : Arrow} (ha : (o.arrows ++ [d.initialArrow])[i]? = some a) :
      (c.transition i).observable = a.observable := by
    obtain ⟨ts, -, -, he⟩ := hb.complete_arrow ha
    rw [he]
    rfl
  refine ⟨o, k, taken, hcheck, hb.outline, ⟨fun n hn => (hb.laid.node_index hb.nodes hn).2, ?_⟩,
    by simp [hb.nodes, hnode], hb.size_transitions.trans (by rw [htransition]),
    hb.initial.trans htransition.symm, ?_⟩
  · intro a i ha
    exact hobservable (Built.getElem?_arrows d (List.mk_mem_zipIdx_iff_getElem?.1 ha))
  · exact hobservable (a := d.initialArrow) (by simp [hb.initial])

/-- Every part of a chart is met on a walk through it that begins with its own transition, and the
    observables of what is met are one, two, and so on. -/
theorem tour_of_compile (h : compile name version d = .ok c) : ∃ es, c.Tour c.children es ∧
    (.transition c.initial :: es).map c.observable =
      List.range' 1 (c.nodes.size + c.transitions.size) ∧
    ∀ e, e ∈ Element.transition c.initial :: es ↔ c.Contains e := by
  obtain ⟨o, k, taken, hcheck, ho, hst, hnodes, htransitions, hinitial, hfirst⟩ := stored_of_compile h
  obtain ⟨es, hes⟩ := StateDef.toured_outlineAll [] Definition.startCursor d.states hcheck
    (by rw [ho]; exact hst)
  rw [ho] at hes
  have hlength : es.length = k.node + k.transition := hes.length
  refine ⟨es, hes.tour, ?_, fun e => ?_⟩
  · have hcount : c.nodes.size + c.transitions.size = es.length + 1 := by omega
    rw [List.map_cons, hes.counted, hcount, List.range'_succ]
    exact congrArg (· :: _) hfirst
  · cases e with
    | node n =>
      rw [List.mem_cons, hes.node, Contains, hnodes]
      simp [Definition.startCursor]
    | transition i =>
      rw [List.mem_cons, hes.transition, Contains, htransitions, hinitial, Element.transition.injEq]
      simp only [Definition.startCursor, Nat.zero_le, true_and]
      rw [Nat.lt_succ_iff_lt_or_eq, or_comm]

/-! ### Telling parts apart -/

/-- The parts of a chart as they lie in its tables. -/
def elements (c : Chart) : List Element :=
  (List.range c.nodes.size).map .node ++ (List.range c.transitions.size).map .transition

theorem mem_elements : e ∈ c.elements ↔ c.Contains e := by
  cases e <;> simp [elements, Contains]

theorem nodup_elements (c : Chart) : c.elements.Nodup := by
  refine List.nodup_append.2 ⟨?_, ?_, ?_⟩
  · exact List.Nodup.map (fun _ _ => Element.node.inj) List.nodup_range
  · exact List.Nodup.map (fun _ _ => Element.transition.inj) List.nodup_range
  · intro _ h _ h' e
    obtain ⟨n, -, rfl⟩ := List.mem_map.1 h
    obtain ⟨i, -, rfl⟩ := List.mem_map.1 h'
    cases e

theorem map_observable_elements (c : Chart) : c.elements.map c.observable =
    c.nodes.toList.map Node.observable ++ c.transitions.toList.map Transition.observable := by
  rw [elements, List.map_append, List.map_map, List.map_map]
  congr 1
  · refine List.ext_getElem (by simp) fun n hn hn' => ?_
    have hlt : n < c.nodes.size := by simpa using hn
    simp [observable, node, NodeTable.node, hlt]
  · refine List.ext_getElem (by simp) fun i hi hi' => ?_
    have hlt : i < c.transitions.size := by simpa using hi
    simp [observable, transition, hlt]

section

variable (h : compile name version d = .ok c)

include h

/-- Each number from one on stands for one part. -/
theorem perm_observable : (c.elements.map c.observable).Perm
    (List.range' 1 (c.nodes.size + c.transitions.size)) := by
  obtain ⟨es, -, hcount, hmem⟩ := tour_of_compile h
  have hnodup : (Element.transition c.initial :: es).Nodup := by
    refine List.Nodup.of_map c.observable ?_
    rw [hcount]
    exact List.nodup_range'
  rw [← hcount]
  refine .map c.observable ((List.perm_ext_iff_of_nodup c.nodup_elements hnodup).2 fun e => ?_)
  rw [mem_elements, hmem]

theorem observable_inj (he : c.Contains e) (he' : c.Contains e')
    (heq : c.observable e = c.observable e') : e = e' := by
  have hnodup : (c.elements.map c.observable).Nodup :=
    (perm_observable h).nodup_iff.2 List.nodup_range'
  exact List.inj_on_of_nodup_map hnodup (mem_elements.2 he) (mem_elements.2 he') heq

theorem observable_ne_chart (he : c.Contains e) : c.observable e ≠ Listeners.chart := by
  have hmem : c.observable e ∈ List.range' 1 (c.nodes.size + c.transitions.size) :=
    (perm_observable h).mem_iff.1 (List.mem_map_of_mem (mem_elements.2 he))
  exact Nat.ne_of_gt (List.mem_range'_1.1 hmem).1

end

end Chart
end Statechart
