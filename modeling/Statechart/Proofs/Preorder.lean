import Mathlib.Data.Nat.Find
import Statechart.Proofs.Naming
import Statechart.Proofs.Numbering
import Statechart.Proofs.Reload

/-! Document order numbers the tree from the top down and leaves nothing out.

    A state has the numbers from its own on: behind it those of its event transitions as they are
    declared, then those of its histories, then those of its children and all that is in them. A run of
    neighbouring states so uses up every number between one cursor and another, which is shown along the
    recursion that lays the states out. In the table of a chart this makes the numbers of everything
    within a node one unbroken interval that starts at the node. -/

namespace Statechart

/-! ### What is declared, and what is numbered -/

/-- Whether a state is declared somewhere in a list of states. -/
inductive StateDef.Inside : StateDef → List StateDef → Prop where
  | here {s : StateDef} {ss : List StateDef} (h : s ∈ ss) : Inside s ss
  | deeper {s p : StateDef} {ss : List StateDef} (hp : p ∈ ss) (hs : Inside s p.states) : Inside s ss

/-- Whether an arrow is that of a declared transition. -/
structure Arrow.Renders (a : Arrow) (d : TransitionDef) : Prop where
  origin : a.origin = .event
  trigger : a.trigger = (d.event.map Trigger.ofText).getD .eventless
  cond : a.cond = d.cond
  targets : a.targets = d.target
  kind : a.kind = d.kind
  actions : a.actions = d.actions

/-- Whether a node stands for a state: it has its name and its transitions, in the order in which they
    are declared. -/
structure Node.Renders (as : List Arrow) (base : Nat) (n : Node) (s : StateDef) : Prop where
  id : n.id = s.id
  length : n.transitions.length = s.transitions.length
  each : ∀ (j : Nat) (d : TransitionDef), s.transitions[j]? = some d → ∃ t a, n.transitions[j]? = some t ∧
    (a, t) ∈ as.zipIdx base ∧ a.Renders d

namespace Node.Renders

variable {n : Node} {s : StateDef} {as bs : List Arrow} {base base' : Nat}

theorem append_left (h : n.Renders as base s) : n.Renders (as ++ bs) base s where
  id := h.id
  length := h.length
  each j d hd := by
    obtain ⟨t, a, ht, ha, h⟩ := h.each j d hd
    exact ⟨t, a, ht, Outline.entry_left ha, h⟩

theorem append_right (hb : base' = base + as.length) (h : n.Renders bs base' s) :
    n.Renders (as ++ bs) base s where
  id := h.id
  length := h.length
  each j d hd := by
    obtain ⟨t, a, ht, ha, h⟩ := h.each j d hd
    exact ⟨t, a, ht, Outline.entry_right hb ha, h⟩

end Node.Renders

namespace Outline

/-- What is numbered from one cursor to another: every number is that of a node or of one of its event
    transitions, every event transition is listed by a node, and every state has a node. -/
structure Dense (c : Cursor) (ss : List StateDef) (o : Outline) (c' : Cursor) : Prop where
  filled : ∀ k, c.order ≤ k → k < c'.order →
    ∃ n ∈ o.nodes, n.order ≤ k ∧ k ≤ n.order + n.transitions.length
  listed : ∀ a i, (a, i) ∈ o.arrows.zipIdx c.transition → a.origin = .event →
    ∃ n ∈ o.nodes, i ∈ n.transitions
  histories : ∀ n ∈ o.nodes, n.histories.Pairwise (· < ·)
  rendered : ∀ s, StateDef.Inside s ss → ∃ n ∈ o.nodes, n.Renders o.arrows c.transition s

namespace Dense

/-- No states have no numbers. -/
theorem nil (c : Cursor) : Dense c [] .empty c where
  filled k hk hk' := absurd hk (Nat.not_le.2 hk')
  listed a i ha := by cases ha
  histories n hn := by cases hn
  rendered s hs := by cases hs <;> rename_i h <;> cases h

/-- States numbered behind a state. -/
theorem cons {c c₁ c₂ : Cursor} {s : StateDef} {ss : List StateDef} {o q : Outline}
    (harrows : c₁.transition = c.transition + o.arrows.length) (ho : Dense c [s] o c₁)
    (hq : Dense c₁ ss q c₂) : Dense c (s :: ss) (o.append q) c₂ where
  filled k hk hk' := by
    rcases Nat.lt_or_ge k c₁.order with h | h
    · exact exists_node_left (ho.filled k hk h)
    · exact exists_node_right (hq.filled k h hk')
  listed a i ha horigin := by
    rw [append, List.zipIdx_append, ← harrows] at ha
    rcases List.mem_append.1 ha with ha | ha
    · exact exists_node_left (ho.listed a i ha horigin)
    · exact exists_node_right (hq.listed a i ha horigin)
  histories n hn := (mem_nodes_append.1 hn).elim (ho.histories n) (hq.histories n)
  rendered r hr := by
    have first (h : StateDef.Inside r [s]) :
        ∃ n ∈ (o.append q).nodes, n.Renders (o.append q).arrows c.transition r := by
      obtain ⟨n, hn, h⟩ := ho.rendered r h
      exact ⟨n, mem_nodes_append.2 (.inl hn), h.append_left⟩
    have rest (h : StateDef.Inside r ss) :
        ∃ n ∈ (o.append q).nodes, n.Renders (o.append q).arrows c.transition r := by
      obtain ⟨n, hn, h⟩ := hq.rendered r h
      exact ⟨n, mem_nodes_append.2 (.inr hn), h.append_right harrows⟩
    cases hr with
    | here h =>
      rcases List.mem_cons.1 h with rfl | h
      · exact first (.here (List.mem_singleton.2 rfl))
      · exact rest (.here h)
    | deeper hp hs =>
      rcases List.mem_cons.1 hp with rfl | hp
      · exact first (.deeper (List.mem_singleton.2 rfl) hs)
      · exact rest (.deeper hp hs)

end Dense
end Outline

namespace StateDef

open Outline

variable {s : StateDef} {above : List NodeId} {c behind : Cursor} {roots : List NodeId}
  {inner : Outline} {n : Node}

/-- The node of a state stands for it. -/
theorem renders_ownNode : (s.ownNode above c roots behind).Renders (s.eventArrows c) c.transition s where
  id := rfl
  length := by simp [ownNode]
  each j d hd := by
    obtain ⟨hj, rfl⟩ := List.getElem?_eq_some_iff.1 hd
    refine ⟨c.transition + j, _, by simp [ownNode, hj],
      List.mk_add_mem_zipIdx_iff_getElem?.2 (List.getElem?_eq_getElem (by simpa [eventArrows] using hj)),
      ?_⟩
    simp only [eventArrows, List.getElem_map, List.getElem_zipIdx, Nat.zero_add]
    exact ⟨rfl, rfl, rfl, rfl, rfl, rfl⟩

/-- A state uses up the numbers between its own and those of its children. -/
theorem filled_assemble (h : ∀ k, (s.childCursor c).order ≤ k → k < behind.order →
      ∃ n ∈ inner.nodes, n.order ≤ k ∧ k ≤ n.order + n.transitions.length) :
    ∀ k, c.order ≤ k → k < behind.order →
      ∃ n ∈ (s.assemble above c roots inner behind).1.nodes,
        n.order ≤ k ∧ k ≤ n.order + n.transitions.length := by
  intro k hk hk'
  by_cases hown : k ≤ c.order + s.transitions.length
  · exact ⟨_, Laid.mem_assemble.2 (.inl rfl), hk, by simpa [ownNode] using hown⟩
  by_cases hhist : k < c.order + 1 + s.transitions.length + s.history.length
  · obtain ⟨j, rfl⟩ := Nat.exists_eq_add_of_le (show c.order + 1 + s.transitions.length ≤ k by omega)
    have hj : j < (s.historyNodes above c).length := by simp [historyNodes]; omega
    refine ⟨_, Laid.mem_assemble.2 (.inr (.inl (List.getElem_mem hj))), ?_⟩
    simp [historyNodes]
  · obtain ⟨n, hn, h⟩ := h k (by simp only [childCursor]; omega) hk'
    exact ⟨n, Laid.mem_assemble.2 (.inr (.inr hn)), h⟩

/-- Transitions through which histories and states are entered are not for events. -/
theorem origin_ne_event {a : Arrow} (h : a ∈ s.historyArrows c ∨ a ∈ s.initialArrows c) :
    a.origin ≠ .event := by
  rcases h with h | h
  · obtain ⟨-, -, rfl⟩ := List.mem_map.1 h
    simp
  · unfold initialArrows at h
    split at h
    · rw [List.mem_singleton.1 h]
      simp
    · cases h

/-- The event transitions of a state are listed by its node and those within it. -/
theorem listed_events_assemble
    (h : ∀ a i, (a, i) ∈ inner.arrows.zipIdx (s.childCursor c).transition → a.origin = .event →
      ∃ n ∈ inner.nodes, i ∈ n.transitions) :
    ∀ a i, (a, i) ∈ (s.assemble above c roots inner behind).1.arrows.zipIdx c.transition →
      a.origin = .event → ∃ n ∈ (s.assemble above c roots inner behind).1.nodes,
        i ∈ n.transitions := by
  intro a i ha horigin
  simp only [assemble, List.zipIdx_append, List.mem_append] at ha
  rcases ha with ((ha | ha) | ha) | ha
  · obtain ⟨hle, hlt, -⟩ := List.mem_zipIdx ha
    obtain ⟨j, rfl⟩ := Nat.exists_eq_add_of_le hle
    refine ⟨_, Laid.mem_assemble.2 (.inl rfl), ?_⟩
    simpa [ownNode, eventArrows] using hlt
  · exact absurd horigin (origin_ne_event (.inl (List.fst_mem_of_mem_zipIdx ha)))
  · obtain ⟨n, hn, h⟩ := h a i
      (by simpa [childCursor, eventArrows, historyArrows, Nat.add_assoc] using ha) horigin
    exact ⟨n, Laid.mem_assemble.2 (.inr (.inr hn)), h⟩
  · exact absurd horigin (origin_ne_event (.inr (List.fst_mem_of_mem_zipIdx ha)))

/-- A state is numbered without gaps if its children are. -/
theorem dense_assemble (h : Dense (s.childCursor c) s.states inner behind) :
    Dense c [s] (s.assemble above c roots inner behind).1 (s.assemble above c roots inner behind).2 where
  filled := filled_assemble h.filled
  listed := listed_events_assemble h.listed
  histories n hn := by
    rcases Laid.mem_assemble.1 hn with rfl | hn | hn
    · exact List.Pairwise.map _ (fun i j hij => Nat.add_lt_add_left hij _) List.pairwise_lt_range
    · obtain ⟨-, -, -, -, -, -, -, -, hnone, -⟩ := mem_historyNodes hn
      rw [hnone]
      exact .nil
    · exact h.histories n hn
  rendered r hr := by
    have inside (h' : Inside r s.states) : ∃ n ∈ (s.assemble above c roots inner behind).1.nodes,
        n.Renders (s.assemble above c roots inner behind).1.arrows c.transition r := by
      obtain ⟨n, hn, h⟩ := h.rendered r h'
      refine ⟨n, Laid.mem_assemble.2 (.inr (.inr hn)), (h.append_right ?_).append_left⟩
      simp [childCursor, eventArrows, historyArrows]
      omega
    cases hr with
    | here h =>
      rw [List.mem_singleton] at h
      subst h
      exact ⟨_, Laid.mem_assemble.2 (.inl rfl), renders_ownNode.append_left.append_left.append_left⟩
    | deeper hp hs =>
      rw [List.mem_singleton] at hp
      subst hp
      exact inside hs

mutual

/-- A checked state is numbered without gaps. -/
theorem dense_outline (above : List NodeId) (c : Cursor) : ∀ (s : StateDef)
    {taken taken' : List String}, s.check taken = .ok taken' →
      Dense c [s] (outline above c s).1 (outline above c s).2
  | ⟨_, _, _, _, _, states, _, _, _, _, _⟩, taken, taken', h => by
    rw [check_eq] at h
    split at h
    · cases h
    rw [outline_eq]
    exact dense_assemble (dense_outlineAll _ _ states h)

/-- So are checked states one after the other. -/
theorem dense_outlineAll (above : List NodeId) (c : Cursor) : ∀ (ss : List StateDef)
    {taken taken' : List String}, checkAll taken ss = .ok taken' →
      Dense c ss (outlineAll above c ss).2.1 (outlineAll above c ss).2.2
  | [], _, _, _ => Dense.nil c
  | s :: ss, taken, taken', h => by
    rw [checkAll] at h
    split at h
    · cases h
    rename_i next hc
    rw [outlineAll.eq_2]
    exact Dense.cons (laid_outline above c s hc).arrows (dense_outline above c s hc)
      (dense_outlineAll above _ ss h)

end
end StateDef

namespace Arrow

variable {nodes : NodeTable} {x : NodeId}

/-- Resolving finds the nodes of the names. -/
theorem mem_resolveFrom : ∀ {ids : List String} {found targets : List NodeId},
    resolveFrom nodes found ids = .ok targets →
      (x ∈ targets ↔ x ∈ found ∨ ∃ id ∈ ids, nodes.find? id = some x)
  | [], found, targets, h => by
    cases h
    simp
  | id :: ids, found, targets, h => by
    rw [resolveFrom] at h
    split at h
    · cases h
    rename_i n hn
    rw [mem_resolveFrom h]
    split
    · rename_i hm
      have hm : n ∈ found := by simpa using hm
      simp only [List.mem_cons, exists_eq_or_imp, hn, Option.some.injEq, ← or_assoc]
      exact or_congr_left (or_iff_left_of_imp fun e => e ▸ hm).symm
    · simp only [List.mem_append, List.mem_cons, List.not_mem_nil, or_false, exists_eq_or_imp, hn,
        Option.some.injEq, or_assoc, eq_comm (a := x)]

theorem mem_resolve {a : Arrow} {targets : List NodeId} (h : a.resolve nodes = .ok targets) :
    x ∈ targets ↔ ∃ id ∈ a.targets, nodes.find? id = some x := by
  rw [mem_resolveFrom h]
  simp

end Arrow

namespace Chart

/-- The parents above a node, nearest first. -/
inductive Lineage (c : Chart) : NodeId → List NodeId → Prop where
  | top {n : NodeId} (h : (c.node n).parent = none) : Lineage c n []
  | up {n p : NodeId} {as : List NodeId} (h : (c.node n).parent = some p) (hp : Lineage c p as) :
      Lineage c n (p :: as)

/-- What has a number of its own in document order: nodes and event transitions. -/
inductive Part where
  | node (n : NodeId)
  | event (t : TransitionId)
  deriving DecidableEq

namespace Part

/-- Whether a chart has a part. -/
def In (c : Chart) : Part → Prop
  | .node n => n < c.nodes.size
  | .event t => t < c.transitions.size ∧ (c.transition t).origin = .event

/-- The number of a part. -/
def order (c : Chart) : Part → Nat
  | .node n => (c.node n).order
  | .event t => (c.transition t).order

/-- Whether a part lies within a node, event transitions where their source does. -/
def Of (c : Chart) (a : NodeId) : Part → Prop
  | .node n => c.Within n a
  | .event t => ∃ n, (c.transition t).source = some n ∧ c.Within n a

/-- Whether a part is at a place of a node: the node itself in front, its event transitions behind. -/
def At (c : Chart) (n : NodeId) : Nat → Part → Prop
  | 0, x => x = .node n
  | j + 1, x => ∃ t, (c.node n).transitions[j]? = some t ∧ x = .event t

end Part

/-- Whether a transition is one that is declared, its targets found by their names. -/
structure RendersTransition (c : Chart) (t : Transition) (d : TransitionDef) : Prop where
  origin : t.origin = .event
  trigger : t.trigger = (d.event.map Trigger.ofText).getD .eventless
  cond : t.cond = d.cond
  targets : ∀ x, x ∈ t.targets ↔ ∃ id ∈ d.target, c.find? id = some x
  kind : t.kind = d.kind
  actions : t.actions = d.actions

/-- Whether a node stands for a state: it has its name, and its event transitions are those that the
    state declares, in their order. -/
structure Renders (c : Chart) (n : NodeId) (s : StateDef) : Prop where
  id : (c.node n).id = s.id
  length : (c.node n).transitions.length = s.transitions.length
  each : ∀ {j : Nat} {d : TransitionDef}, s.transitions[j]? = some d →
    ∃ t, (c.node n).transitions[j]? = some t ∧ c.RendersTransition (c.transition t) d

/-- What numbering without gaps establishes, up to a last number. -/
structure Packed (c : Chart) (last : Nat) : Prop where
  gap : ∀ {a b}, a < b → b < c.nodes.size →
    (c.node a).order + (c.node a).transitions.length < (c.node b).order
  place : ∀ {n j t}, (c.node n).transitions[j]? = some t →
    (c.transition t).order = (c.node n).order + 1 + j
  bound : ∀ {n}, n < c.nodes.size → (c.node n).order + (c.node n).transitions.length < last
  filled : ∀ {k}, k < last → ∃ n < c.nodes.size,
    (c.node n).order ≤ k ∧ k ≤ (c.node n).order + (c.node n).transitions.length
  listed : ∀ {t}, t < c.transitions.size → (c.transition t).origin = .event →
    ∃ n, t ∈ (c.node n).transitions
  histories : ∀ n, (c.node n).histories.Pairwise (· < ·)
  rendered : ∀ {s}, StateDef.Inside s c.definition.states → ∃ n < c.nodes.size, c.Renders n s

namespace Built

variable {c : Chart} {name : String} {version : Nat} {d : Definition} {o : Outline} {k : Cursor}
  {targets : List (List NodeId)} {n : NodeId} {t : TransitionId}

theorem dense (h : c.Built name version d o k targets) :
    Outline.Dense Definition.startCursor d.states o k := by
  obtain ⟨taken, hc⟩ := h.checked
  have := StateDef.dense_outlineAll [] Definition.startCursor d.states hc
  rwa [h.outline] at this

/-- Event transitions follow their node in the order in which it lists them. -/
theorem order_of_getElem? (h : c.Built name version d o k targets) {j : Nat}
    (ht : (c.node n).transitions[j]? = some t) :
    (c.transition t).order = (c.node n).order + 1 + j := by
  have hn := lt_size_of_transition (List.mem_of_getElem? ht)
  obtain ⟨first, he, hf⟩ := h.numbered_outline.followed _ (h.laid.node_mem h.nodes hn).1
  have hlt : j < (c.nodes.node n).transitions.length := (List.getElem?_eq_some_iff.1 ht).1
  obtain ⟨a, ha, ho⟩ := hf j hlt
  obtain rfl : t = first + j := by
    rw [Chart.node, he, List.getElem?_range' hlt, Nat.one_mul] at ht
    exact (Option.some.inj ht).symm
  exact (h.order_eq (List.mk_mem_zipIdx_iff_getElem?.1 ha)).trans ho

/-- Every event transition is listed by a node. -/
theorem exists_listed (h : c.Built name version d o k targets) (hlt : t < c.transitions.size)
    (ho : (c.transition t).origin = .event) : ∃ n, t ∈ (c.node n).transitions := by
  obtain ⟨a, ha⟩ : ∃ a, (o.arrows ++ [d.initialArrow])[t]? = some a :=
    ⟨_, List.getElem?_eq_getElem (by simpa [h.size_transitions] using hlt)⟩
  obtain ⟨ts, -, -, he⟩ := h.complete_arrow ha
  rw [he] at ho
  -- the chart's own transition is not for an event
  have hin : (a, t) ∈ o.arrows.zipIdx := by
    refine List.mk_mem_zipIdx_iff_getElem?.2 ?_
    rw [List.getElem?_append] at ha
    split at ha
    · exact ha
    · rw [List.mem_singleton.1 (List.mem_of_getElem? ha)] at ho
      cases ho
  obtain ⟨n, hn, hm⟩ := h.dense.listed a t hin ho
  exact ⟨n.index, by rw [Chart.node, (h.laid.node_index h.nodes hn).2]; exact hm⟩

/-- Every state has a node. -/
theorem exists_renders (h : c.Built name version d o k targets) {s : StateDef}
    (hs : StateDef.Inside s d.states) : ∃ n < c.nodes.size, c.Renders n s := by
  obtain ⟨n, hn, hid, hlen, heach⟩ := h.dense.rendered s hs
  obtain ⟨hlt, he⟩ := h.laid.node_index h.nodes hn
  have he : c.node n.index = n := he
  refine ⟨n.index, hlt, ?_⟩
  constructor
  case id => rw [he, hid]
  case length => rw [he, hlen]
  case each =>
    intro j e hj
    obtain ⟨t, a, ht, ha, ⟨horigin, htrigger, hcond, htargets, hkind, hactions⟩⟩ := heach j e hj
    obtain ⟨ts, hres, hcomplete⟩ := h.complete (List.mk_mem_zipIdx_iff_getElem?.1 ha)
    refine ⟨t, by rw [he]; exact ht, ?_⟩
    rw [hcomplete]
    exact ⟨horigin, htrigger, hcond, fun x => htargets ▸ Arrow.mem_resolve hres, hkind, hactions⟩

theorem packed (h : c.Built name version d o k targets) : c.Packed k.order where
  gap := h.numbered_outline.order_lt h.nodes
  place := h.order_of_getElem?
  bound hn := (h.numbered_outline.bounds _ (h.laid.node_mem h.nodes hn).1).2
  filled hlt := by
    obtain ⟨n, hn, hle⟩ := h.dense.filled _ (Nat.zero_le _) hlt
    obtain ⟨hlt, he⟩ := h.laid.node_index h.nodes hn
    exact ⟨n.index, hlt, by rw [Chart.node, he]; exact hle⟩
  listed := h.exists_listed
  histories n := by
    by_cases hn : n < c.nodes.size
    · exact h.dense.histories _ (h.laid.node_mem h.nodes hn).1
    · rw [Chart.node, NodeTable.node_of_le (Nat.le_of_not_lt hn)]
      exact .nil
  rendered hs := h.exists_renders (h.definition ▸ hs)

end Built

theorem packed_of_compile {name : String} {version : Nat} {d : Definition} {c : Chart}
    (h : compile name version d = .ok c) : ∃ last, c.Packed last := by
  obtain ⟨o, k, targets, hb⟩ := built_of_compile h
  exact ⟨_, hb.packed⟩

/-! ### Places -/

variable {c : Chart} {last a b j k m n : Nat} {x y : Part}

namespace Part

theorem At.order (hc : c.Packed last) : ∀ {j}, x.At c n j → x.order c = (c.node n).order + j
  | 0, h => by
    rw [show x = .node n from h]
    rfl
  | j + 1, ⟨t, ht, e⟩ => by
    rw [e, Part.order, hc.place ht]
    omega

theorem At.le : ∀ {j}, x.At c n j → j ≤ (c.node n).transitions.length
  | 0, _ => Nat.zero_le _
  | _ + 1, ⟨_, ht, _⟩ => (List.getElem?_eq_some_iff.1 ht).1

theorem At.eq : ∀ {j}, x.At c n j → y.At c n j → x = y
  | 0, h, h' => Eq.trans h (Eq.symm h')
  | j + 1, ⟨t, ht, e⟩, ⟨u, hu, e'⟩ => by
    rw [e, e', Option.some.inj (ht.symm.trans hu)]

theorem At.of_iff (hc : c.WellFormed) : ∀ {j}, x.At c n j → (x.Of c a ↔ c.Within n a)
  | 0, h => by
    rw [show x = .node n from h]
    rfl
  | j + 1, ⟨t, ht, e⟩ => by
    rw [e, Part.Of, (hc.source_eq (List.mem_of_getElem? ht)).1]
    simp

/-- A part at a place of a node is there. -/
theorem At.has (hc : c.WellFormed) (hn : n < c.nodes.size) : ∀ {j}, x.At c n j → x.In c
  | 0, h => by
    rw [show x = .node n from h]
    exact hn
  | j + 1, ⟨t, ht, e⟩ => by
    obtain ⟨hs, ho⟩ := hc.source_eq (List.mem_of_getElem? ht)
    rw [e]
    refine ⟨Nat.lt_of_not_le fun hle => ?_, ho⟩
    rw [transition, Array.getElem?_eq_none hle] at hs
    cases hs

/-- Every place up to the last event transition is taken. -/
theorem exists_at (n : NodeId) : ∀ {j}, j ≤ (c.node n).transitions.length → ∃ x, At c n j x
  | 0, _ => ⟨_, rfl⟩
  | _ + 1, h => ⟨_, _, List.getElem?_eq_getElem h, rfl⟩

/-- Every part has a place. -/
theorem In.exists_place (hc : c.Packed last) (h : x.In c) : ∃ n < c.nodes.size, ∃ j, x.At c n j := by
  cases x with
  | node n => exact ⟨n, h, 0, rfl⟩
  | event t =>
    obtain ⟨n, hn⟩ := hc.listed h.1 h.2
    obtain ⟨j, hj⟩ := List.getElem?_of_mem hn
    exact ⟨n, lt_size_of_transition hn, j + 1, t, hj, rfl⟩

end Part

namespace Packed

variable (hc : c.Packed last)

include hc

/-- Places of different nodes have different numbers. -/
theorem lt_of_place (hab : a < b) (hb : b < c.nodes.size) (hj : j ≤ (c.node a).transitions.length) :
    (c.node a).order + j < (c.node b).order + k := by
  have := hc.gap hab hb
  omega

/-- Parts with the same number are the same. -/
theorem part_eq (hx : x.In c) (hy : y.In c) (h : x.order c = y.order c) : x = y := by
  obtain ⟨n, hn, j, hxn⟩ := hx.exists_place hc
  obtain ⟨m, hm, k, hym⟩ := hy.exists_place hc
  rw [hxn.order hc, hym.order hc] at h
  rcases Nat.lt_trichotomy n m with hlt | rfl | hlt
  · exact absurd h (Nat.ne_of_lt (hc.lt_of_place hlt hm hxn.le))
  · rw [Nat.add_left_cancel h] at hxn
    exact hxn.eq hym
  · exact absurd h.symm (Nat.ne_of_lt (hc.lt_of_place hlt hn hym.le))

/-- Every number up to the last is that of a part. -/
theorem exists_part (hk : k < last) : ∃ n < c.nodes.size, ∃ j x, Part.At c n j x ∧
    (c.node n).order + j = k := by
  obtain ⟨n, hn, hle, hle'⟩ := hc.filled hk
  obtain ⟨j, rfl⟩ := Nat.exists_eq_add_of_le hle
  obtain ⟨x, hx⟩ := Part.exists_at n (Nat.le_of_add_le_add_left hle')
  exact ⟨n, hn, j, x, hx, rfl⟩

end Packed

/-- Within a node lies one that all others in it come before. -/
theorem WellFormed.exists_last_within (hc : c.WellFormed) (ha : a < c.nodes.size) :
    ∃ z < c.nodes.size, c.Within z a ∧ ∀ n, c.Within n a → n ≤ z := by
  classical
  have hlt {n : NodeId} (h : c.Within n a) : n < c.nodes.size := by
    rcases h with rfl | h
    · exact ha
    · exact hc.lt_size_of_descends h
  have hz : c.Within (Nat.findGreatest (c.Within · a) c.nodes.size) a :=
    Nat.findGreatest_spec (P := (c.Within · a)) (Nat.le_of_lt ha) (.refl a)
  exact ⟨_, hlt hz, hz, fun n hn => Nat.le_findGreatest (Nat.le_of_lt (hlt hn)) hn⟩

/-- A place lies between the number of a node and the last within it if and only if it is that of
    something within the node. -/
theorem Packed.place_iff (hp : c.Packed last) (hc : c.WellFormed) (hn : c.Numbered)
    {z : NodeId} (hz : z < c.nodes.size) (hza : c.Within z a) (hlast : ∀ n, c.Within n a → n ≤ z)
    (hlt : n < c.nodes.size) (hj : j ≤ (c.node n).transitions.length) :
    (c.node a).order ≤ (c.node n).order + j ∧
      (c.node n).order + j < (c.node z).order + (c.node z).transitions.length + 1 ↔ c.Within n a := by
  have haz := hc.le_of_within hza
  constructor
  · rintro ⟨hle, hle'⟩
    have han : a ≤ n := Nat.le_of_not_lt fun h => by
      have := hp.gap h (Nat.lt_of_le_of_lt haz hz)
      omega
    have hnz : n ≤ z := Nat.le_of_not_lt fun h => by
      have := hp.gap h hlt
      omega
    rcases Nat.eq_or_lt_of_le han with rfl | han
    · exact .refl _
    · refine .inr (hn.between han hnz (hza.resolve_left ?_))
      rintro rfl
      exact Nat.lt_irrefl _ (Nat.lt_of_lt_of_le han hnz)
  · intro hw
    have below {m k : NodeId} (hmk : m ≤ k) (hk : k < c.nodes.size) :
        (c.node m).order ≤ (c.node k).order ∧ (c.node m).order + (c.node m).transitions.length ≤
          (c.node k).order + (c.node k).transitions.length := by
      rcases Nat.eq_or_lt_of_le hmk with rfl | hmk
      · exact ⟨Nat.le_refl _, Nat.le_refl _⟩
      · have := hp.gap hmk hk
        omega
    have := below (hc.le_of_within hw) hlt
    have := below (hlast n hw) hz
    omega

/-- The numbers of everything within a node are an interval that starts at the node. -/
theorem Packed.exists_interval (hp : c.Packed last) (hc : c.WellFormed) (hn : c.Numbered)
    (ha : a < c.nodes.size) : ∃ e,
      (∀ k, (c.node a).order ≤ k ∧ k < e ↔ ∃ x : Part, x.In c ∧ x.Of c a ∧ x.order c = k) ∧
      ∀ {n}, n < c.nodes.size → (c.descends n a = true ↔
        n ≠ a ∧ (c.node a).order ≤ (c.node n).order ∧ (c.node n).order < e) := by
  obtain ⟨z, hz, hza, hlast⟩ := hc.exists_last_within ha
  have place {n : NodeId} (hlt : n < c.nodes.size) {j : Nat} := hp.place_iff hc hn hz hza hlast hlt (j := j)
  refine ⟨(c.node z).order + (c.node z).transitions.length + 1, fun k => ⟨?_, ?_⟩, fun {n} hlt => ?_⟩
  · rintro ⟨hle, hlt⟩
    have hb := hp.bound hz
    obtain ⟨n, hlt', j, x, hx, rfl⟩ := hp.exists_part (k := k) (by omega)
    exact ⟨x, hx.has hc hlt', (hx.of_iff hc).2 ((place hlt' hx.le).1 ⟨hle, hlt⟩), hx.order hp⟩
  · rintro ⟨x, hx, hxa, rfl⟩
    obtain ⟨n, hlt, j, hxn⟩ := hx.exists_place hp
    rw [hxn.order hp]
    exact (place hlt hxn.le).2 ((hxn.of_iff hc).1 hxa)
  · have h := place hlt (Nat.zero_le _)
    rw [Nat.add_zero] at h
    rw [h, Within]
    constructor
    · exact fun hd => ⟨hc.ne_of_descends hd, .inr hd⟩
    · exact fun h => h.2.resolve_left h.1

/-- The ancestors of a node are the parents above it. -/
theorem WellFormed.lineage (hc : c.WellFormed) (n : NodeId) : c.Lineage n (c.node n).ancestors := by
  induction n using Nat.strongRecOn with
  | ind n ih =>
    cases hp : (c.node n).parent with
    | none =>
      rw [hc.ancestors_none hp]
      exact .top hp
    | some p =>
      rw [hc.ancestors_some hp]
      exact .up hp (ih p (hc.parent_lt hp))

/-- Whether document order is a pre-order of the tree of a chart. -/
structure Preordered (c : Chart) : Prop where
  ancestors : ∀ n, c.Lineage n (c.node n).ancestors
  children : ∀ {p m}, m ∈ (c.node p).children ↔
    (c.node m).parent = some p ∧ (c.node m).isHistory = false
  histories : ∀ {p m}, m ∈ (c.node p).histories ↔
    (c.node m).parent = some p ∧ (c.node m).isHistory = true
  top : ∀ {m}, m ∈ c.children ↔ m < c.nodes.size ∧ (c.node m).parent = none
  siblings : c.children.Pairwise (· < ·) ∧
    ∀ p, (c.node p).children.Pairwise (· < ·) ∧ (c.node p).histories.Pairwise (· < ·)
  increasing : ∀ {a b}, a < b → b < c.nodes.size → (c.node a).order < (c.node b).order
  distinct : ∀ {x y : Part}, x.In c → y.In c → x.order c = y.order c → x = y
  interval : ∀ {a}, a < c.nodes.size → ∃ e,
    (∀ k, (c.node a).order ≤ k ∧ k < e ↔ ∃ x : Part, x.In c ∧ x.Of c a ∧ x.order c = k) ∧
    ∀ {n}, n < c.nodes.size → (c.descends n a = true ↔
      n ≠ a ∧ (c.node a).order ≤ (c.node n).order ∧ (c.node n).order < e)
  declared : ∀ {s}, StateDef.Inside s c.definition.states →
    ∃ n, c.find? s.id = some n ∧ c.Renders n s
  behind : ∀ {n j t}, (c.node n).transitions[j]? = some t →
    (c.transition t).source = some n ∧ (c.transition t).order = (c.node n).order + 1 + j
  before : ∀ {n t m}, t ∈ (c.node n).transitions → (c.node m).parent = some n →
    (c.transition t).order < (c.node m).order

/-- Document order is a pre-order of the tree of every chart that loads: what lies within a node has the
    numbers of one interval that starts at the node, every one of them, and behind a state come first
    its event transitions in the order in which they are declared. -/
theorem preordered_of_load {name : String} {version : Nat} {v : Value} {c : Chart}
    (h : load name version v = .ok c) : c.Preordered := by
  have hc := wellFormed_of_load h
  have hn := numbered_of_load h
  have hnamed := named_of_load h
  obtain ⟨last, hp⟩ := packed_of_compile (of_load h).2.2.1
  constructor
  case ancestors => exact hc.lineage
  case children => exact hc.mem_children
  case histories => exact hc.mem_histories
  case top => exact hc.mem_top
  case siblings => exact ⟨hnamed.top, fun p => ⟨hnamed.children p, hp.histories p⟩⟩
  case increasing => exact hn.order_lt
  case distinct => exact hp.part_eq
  case interval => exact hp.exists_interval hc hn
  case declared =>
    intro s hs
    obtain ⟨n, hlt, hr⟩ := hp.rendered hs
    exact ⟨n, hr.id ▸ hnamed.find? hlt, hr⟩
  case behind => exact fun ht => ⟨(hc.source_eq (List.mem_of_getElem? ht)).1, hp.place ht⟩
  case before => exact fun ht hm => hn.before ht (hc.parent_lt hm) (lt_size_of_parent hm)

/-- A phone: in a call it is muted or not, and a call that was held goes on as it was. -/
def phone : Value :=
  .object [("states", .array [
    .object [("id", .string "Idle"), ("transitions", .array [
      .object [("event", .string "dial"), ("target", .string "Call")],
      .object [("event", .string "resume"), ("target", .string "Last")]])],
    .object [("id", .string "Call"),
      ("history", .array [.object [("id", .string "Last"), ("target", .string "Open")]]),
      ("states", .array [
        .object [("id", .string "Open"), ("transitions", .array [
          .object [("event", .string "mute"), ("target", .string "Muted")]])],
        .object [("id", .string "Muted")]]),
      ("transitions", .array [
        .object [("event", .string "hold"), ("target", .string "Idle")]])]])]

/-- The chart of the phone. -/
def phoneChart : Chart := (load "phone" 1 phone).toOption.get (by decide +kernel)

/-- In the phone's chart the numbers left out by the nodes are those of event transitions, two of the
    idle phone and one each of the call and the open call. -/
theorem preordered_phone : phoneChart.Preordered ∧
    (List.range 5).map (fun n => (phoneChart.node n).order) = [0, 3, 5, 6, 8] :=
  ⟨preordered_of_load (v := phone) (load_eq_ok _), by decide +kernel⟩

end Chart
end Statechart
