import Statechart.Chart.Compile

/-! Numbering puts every part of a definition where the rest of the chart looks for it.

    The parts of a run of neighbouring states fill a segment of each table: `Outline.Laid` says where
    the segments begin and end and how the nodes in them refer to one another. Segments of neighbours
    join, a state closes the segments of its children into one, and so by recursion over the tree a
    whole definition is laid out. -/

namespace Statechart

namespace Node

/-- How a child or history `n` of a state `p` refers to it, and `p` to `n`. -/
structure Under (p n : Node) : Prop where
  parent : n.parent = some p.index
  ancestors : n.ancestors = p.index :: p.ancestors
  state : p.isHistory = false
  lt : p.index < n.index
  child : n.isHistory = false → n.index ∈ p.children
  history : n.isHistory = true → n.index ∈ p.histories

/-- What the kind of a node says about its parts. -/
structure Shaped (n : Node) : Prop where
  parallel : n.isParallel = true → n.children ≠ []
  final : n.isFinal = true → n.children = [] ∧ n.transitions = []
  history : n.isHistory = true → n.children = [] ∧ n.histories = [] ∧ n.transitions = []
  top : n.isHistory = true → n.parent.isSome = true

end Node

namespace Outline

/-! Segments of two tables that stand one behind the other. -/

section Segments

variable {α : Type} {xs ys : List α} {x : α} {base base' i : Nat} {o q : Outline} {P : Node → Prop}

/-- An entry stays where it is when others are put behind. -/
theorem entry_left (h : (x, i) ∈ xs.zipIdx base) : (x, i) ∈ (xs ++ ys).zipIdx base := by
  rw [List.zipIdx_append]
  exact List.mem_append_left _ h

/-- An entry is counted from further back when others are put in front. -/
theorem entry_right (hb : base' = base + xs.length) (h : (x, i) ∈ ys.zipIdx base') :
    (x, i) ∈ (xs ++ ys).zipIdx base := by
  rw [List.zipIdx_append, ← hb]
  exact List.mem_append_right _ h

theorem mem_nodes_append {n : Node} : n ∈ (o.append q).nodes ↔ n ∈ o.nodes ∨ n ∈ q.nodes :=
  List.mem_append

theorem exists_node_left (h : ∃ n ∈ o.nodes, P n) : ∃ n ∈ (o.append q).nodes, P n := by
  obtain ⟨n, hn, h⟩ := h
  exact ⟨n, List.mem_append_left _ hn, h⟩

theorem exists_node_right (h : ∃ n ∈ q.nodes, P n) : ∃ n ∈ (o.append q).nodes, P n := by
  obtain ⟨n, hn, h⟩ := h
  exact ⟨n, List.mem_append_right _ hn, h⟩

end Segments
end Outline

/-- Whether transition `i`, in arrows counted from `base`, comes from a source as its event, initial or
    default transition. Those that are not for events have targets. -/
def Arrow.Stands (as : List Arrow) (base : Nat) (i : TransitionId) (origin : Origin)
    (source : Option NodeId) : Prop :=
  ∃ a, (a, i) ∈ as.zipIdx base ∧ a.origin = origin ∧ a.source = source ∧
    (origin = .event ∨ a.targets ≠ [])

namespace Arrow.Stands

variable {as bs : List Arrow} {base : Nat} {i : TransitionId} {origin : Origin}
  {source : Option NodeId}

theorem append_left (h : Stands as base i origin source) : Stands (as ++ bs) base i origin source := by
  obtain ⟨a, ha, h⟩ := h
  exact ⟨a, Outline.entry_left ha, h⟩

theorem append_right {base' : Nat} (hb : base' = base + as.length)
    (h : Stands bs base' i origin source) : Stands (as ++ bs) base i origin source := by
  obtain ⟨a, ha, h⟩ := h
  exact ⟨a, Outline.entry_right hb ha, h⟩

end Arrow.Stands

namespace Outline

/-- The layout of states `roots` below `above`, from one cursor to another. -/
structure Laid (above : List NodeId) (c : Cursor) (roots : List NodeId) (o : Outline) (c' : Cursor) :
    Prop where
  nodes : c'.node = c.node + o.nodes.length
  arrows : c'.transition = c.transition + o.arrows.length
  indices : o.nodes.map Node.index = List.range' c.node o.nodes.length
  shaped : ∀ n ∈ o.nodes, n.Shaped
  placed : ∀ n ∈ o.nodes,
    n.index ∈ roots ∧ n.isHistory = false ∧ n.parent = above.head? ∧ n.ancestors = above ∨
      ∃ p ∈ o.nodes, p.Under n
  rooted : ∀ r ∈ roots, ∃ n ∈ o.nodes,
    n.index = r ∧ n.isHistory = false ∧ n.parent = above.head? ∧ n.ancestors = above
  children : ∀ p ∈ o.nodes, ∀ m ∈ p.children, ∃ n ∈ o.nodes, n.index = m ∧ p.Under n ∧
    n.isHistory = false
  histories : ∀ p ∈ o.nodes, ∀ m ∈ p.histories, ∃ n ∈ o.nodes, n.index = m ∧ p.Under n ∧
    n.isHistory = true
  events : ∀ n ∈ o.nodes, ∀ i ∈ n.transitions, Arrow.Stands o.arrows c.transition i .event (some n.index)
  initials : ∀ n ∈ o.nodes, n.isCompound = true →
    ∃ i, n.initial = some i ∧ Arrow.Stands o.arrows c.transition i .initial (some n.index)
  defaults : ∀ n ∈ o.nodes, n.isHistory = true →
    ∃ i, n.initial = some i ∧ Arrow.Stands o.arrows c.transition i .history n.parent

namespace Laid

/-- No states take no room. -/
theorem nil (above : List NodeId) (c : Cursor) : Laid above c [] .empty c := by
  constructor <;> simp [Outline.empty]

/-- States laid out behind a state. -/
theorem cons {above : List NodeId} {c c₁ c₂ : Cursor} {r : NodeId} {roots : List NodeId}
    {o q : Outline} (ho : Laid above c [r] o c₁) (hq : Laid above c₁ roots q c₂) :
    Laid above c (r :: roots) (o.append q) c₂ := by
  constructor
  case nodes =>
    rw [hq.nodes, ho.nodes]
    simp [append]
    omega
  case arrows =>
    rw [hq.arrows, ho.arrows]
    simp [append]
    omega
  case indices =>
    have hn : c₁.node = c.node + 1 * o.nodes.length := by rw [ho.nodes, Nat.one_mul]
    simp only [append, List.map_append, ho.indices, hq.indices, List.length_append, hn]
    exact List.range'_append
  case shaped =>
    intro n hn
    exact (mem_nodes_append.1 hn).elim (ho.shaped n) (hq.shaped n)
  case placed =>
    intro n hn
    rcases mem_nodes_append.1 hn with hn | hn
    · refine (ho.placed n hn).imp (fun ⟨hr, h⟩ => ⟨?_, h⟩) exists_node_left
      rw [List.mem_singleton.1 hr]
      exact List.mem_cons_self
    · exact (hq.placed n hn).imp (fun ⟨hr, h⟩ => ⟨List.mem_cons_of_mem _ hr, h⟩) exists_node_right
  case rooted =>
    intro m hm
    rcases List.mem_cons.1 hm with rfl | hm
    · exact exists_node_left (ho.rooted m (List.mem_singleton.2 rfl))
    · exact exists_node_right (hq.rooted m hm)
  case children =>
    intro p hp m hm
    rcases mem_nodes_append.1 hp with hp | hp
    · exact exists_node_left (ho.children p hp m hm)
    · exact exists_node_right (hq.children p hp m hm)
  case histories =>
    intro p hp m hm
    rcases mem_nodes_append.1 hp with hp | hp
    · exact exists_node_left (ho.histories p hp m hm)
    · exact exists_node_right (hq.histories p hp m hm)
  case events =>
    intro n hn i hi
    rcases mem_nodes_append.1 hn with hn | hn
    · exact (ho.events n hn i hi).append_left
    · exact (hq.events n hn i hi).append_right ho.arrows
  case initials =>
    intro n hn hc
    rcases mem_nodes_append.1 hn with hn | hn
    · obtain ⟨i, hi, h⟩ := ho.initials n hn hc
      exact ⟨i, hi, h.append_left⟩
    · obtain ⟨i, hi, h⟩ := hq.initials n hn hc
      exact ⟨i, hi, h.append_right ho.arrows⟩
  case defaults =>
    intro n hn hh
    rcases mem_nodes_append.1 hn with hn | hn
    · obtain ⟨i, hi, h⟩ := ho.defaults n hn hh
      exact ⟨i, hi, h.append_left⟩
    · obtain ⟨i, hi, h⟩ := hq.defaults n hn hh
      exact ⟨i, hi, h.append_right ho.arrows⟩

end Laid
end Outline

namespace StateDef

open Outline

/-- The event transitions of a state stand where its node says. -/
theorem stands_event (s : StateDef) (c : Cursor) {j : Nat} (hj : j < s.transitions.length) :
    Arrow.Stands (s.eventArrows c) c.transition (c.transition + j) .event (some c.node) := by
  let t := s.transitions[j]
  refine ⟨{ source := some c.node, origin := .event
            trigger := (t.event.map Trigger.ofText).getD .eventless, cond := t.cond
            targets := t.target, kind := t.kind, actions := t.actions
            order := c.order + 1 + j, observable := c.observable + 1 + s.initialCount + j },
    List.mk_add_mem_zipIdx_iff_getElem?.2 ?_, rfl, rfl, .inl rfl⟩
  simp [eventArrows, List.getElem?_eq_getElem hj, t]

/-- The default transitions of a state's histories stand where their nodes say. -/
theorem stands_history (s : StateDef) (c : Cursor) (ht : ∀ h ∈ s.history, h.target ≠ []) {j : Nat}
    (hj : j < s.history.length) (base : Nat) :
    Arrow.Stands (s.historyArrows c) base (base + j) .history (some c.node) := by
  refine ⟨{ source := some c.node, origin := .history, trigger := .eventless, cond := none
            targets := s.history[j].target, kind := .external, actions := s.history[j].actions
            order := c.order + 1 + s.transitions.length + j
            observable := c.observable + 1 + s.initialCount + s.transitions.length + 2 * j + 1 },
    List.mk_add_mem_zipIdx_iff_getElem?.2 ?_, rfl, rfl, .inr (ht _ (List.getElem_mem hj))⟩
  simp [historyArrows, List.getElem?_eq_getElem hj]

/-- A compound state starts somewhere. -/
theorem initialTargets_ne_nil {s : StateDef} (h : s.isCompound = true) : s.initialTargets ≠ [] := by
  have hs : s.states ≠ [] := by
    simp only [isCompound, Bool.and_eq_true, Bool.not_eq_true', List.isEmpty_eq_false_iff] at h
    exact h.2
  obtain ⟨t, ts, e⟩ := List.exists_cons_of_ne_nil hs
  unfold initialTargets
  split
  · simp [e]
  · rename_i hi
    simpa using hi

/-- The transition through which a compound state is entered stands where its node says. -/
theorem stands_initial {s : StateDef} (c : Cursor) (h : s.isCompound = true) (base : Nat) :
    Arrow.Stands (s.initialArrows c) base base .initial (some c.node) := by
  refine ⟨{ source := some c.node, origin := .initial, trigger := .eventless, cond := none
            targets := s.initialTargets, kind := .external, actions := s.initialActions
            order := c.order, observable := c.observable + 1 },
    ?_, rfl, rfl, .inr (initialTargets_ne_nil h)⟩
  simp [initialArrows, h]

theorem length_initialArrows (s : StateDef) (c : Cursor) :
    (s.initialArrows c).length = s.initialCount := by
  unfold initialArrows initialCount
  split <;> rfl

/-- What the shape check of a state says about its node. -/
theorem shaped_ownNode {s : StateDef} (hs : s.checkShape = .ok ()) (above : List NodeId) (c : Cursor)
    {roots : List NodeId} (hr : roots = [] ↔ s.states = []) (behind : Cursor) :
    (s.ownNode above c roots behind).Shaped := by
  unfold checkShape at hs
  split at hs
  · cases hs
  rename_i hf
  split at hs
  · cases hs
  rename_i hp
  refine ⟨?_, ?_, ?_, ?_⟩
  · intro h
    have hk : s.kind = .parallel := by
      cases hk : s.kind <;> simp [Node.isParallel, ownNode, hk] at h
      rfl
    intro e
    exact hp ⟨hk, by simp [hr.1 e]⟩
  · intro h
    have hk : s.kind = .final := by
      cases hk : s.kind <;> simp [Node.isFinal, ownNode, hk] at h
      rfl
    have he : s.states.isEmpty ∧ s.transitions.isEmpty ∧ s.history.isEmpty ∧ s.invoke.isEmpty :=
      Decidable.byContradiction fun hn => hf ⟨hk, hn⟩
    refine ⟨hr.2 (by simpa using he.1), ?_⟩
    have ht : s.transitions = [] := by simpa using he.2.1
    simp [ownNode, ht]
  · intro h
    cases hk : s.kind <;> simp [Node.isHistory, ownNode, hk] at h
  · intro h
    cases hk : s.kind <;> simp [Node.isHistory, ownNode, hk] at h

theorem isHistory_ownNode (s : StateDef) (above : List NodeId) (c : Cursor) (roots : List NodeId)
    (behind : Cursor) : (s.ownNode above c roots behind).isHistory = false := by
  cases hk : s.kind <;> simp [Node.isHistory, ownNode, hk]

/-- The node of a state is compound if the state is. -/
theorem isCompound_ownNode {s : StateDef} {above : List NodeId} {c : Cursor} {roots : List NodeId}
    (hr : roots = [] ↔ s.states = []) {behind : Cursor} :
    (s.ownNode above c roots behind).isCompound = s.isCompound := by
  have hb : roots.isEmpty = s.states.isEmpty := by
    rw [Bool.eq_iff_iff, List.isEmpty_iff, List.isEmpty_iff]
    exact hr
  cases hk : s.kind <;> simp [Node.isCompound, isCompound, ownNode, hk, hb]

/-- The nodes of a state's histories. -/
theorem mem_historyNodes {s : StateDef} {above : List NodeId} {c : Cursor} {n : Node}
    (h : n ∈ s.historyNodes above c) :
    ∃ j < s.history.length, n.index = c.node + 1 + j ∧ n.isHistory = true ∧
      n.parent = some c.node ∧ n.ancestors = c.node :: above ∧
      n.initial = some (c.transition + s.transitions.length + j) ∧
      n.children = [] ∧ n.histories = [] ∧ n.transitions = [] := by
  obtain ⟨⟨d, j⟩, hd, rfl⟩ := List.mem_map.1 h
  obtain ⟨hj, -⟩ := List.getElem?_eq_some_iff.1 (List.mk_mem_zipIdx_iff_getElem?.1 hd)
  exact ⟨j, hj, rfl, rfl, rfl, rfl, rfl, rfl, rfl, rfl⟩

theorem exists_historyNode {s : StateDef} (above : List NodeId) (c : Cursor) {j : Nat}
    (hj : j < s.history.length) : ∃ n ∈ s.historyNodes above c, n.index = c.node + 1 + j :=
  ⟨_, List.mem_map.2 ⟨(s.history[j], j),
    List.mk_mem_zipIdx_iff_getElem?.2 (List.getElem?_eq_getElem hj), rfl⟩, rfl⟩

theorem indices_historyNodes (s : StateDef) (above : List NodeId) (c : Cursor) :
    (s.historyNodes above c).map Node.index = List.range' (c.node + 1) s.history.length := by
  refine List.ext_getElem (by simp [historyNodes]) ?_
  intro i h₁ h₂
  simp [historyNodes]

end StateDef

namespace Outline.Laid

open StateDef

/-- Where the nodes of a segment stand. -/
theorem index_bounds {above : List NodeId} {c c' : Cursor} {roots : List NodeId} {o : Outline}
    (h : Laid above c roots o c') {n : Node} (hn : n ∈ o.nodes) :
    c.node ≤ n.index ∧ n.index < c'.node := by
  have hi : n.index ∈ List.range' c.node o.nodes.length :=
    h.indices ▸ List.mem_map_of_mem hn
  rw [List.mem_range'_1] at hi
  rw [h.nodes]
  exact hi

section

variable {s : StateDef} {above : List NodeId} {c behind : Cursor} {roots : List NodeId}
  {inner : Outline} {n : Node} {i : TransitionId} {origin : Origin} {source : Option NodeId}

/-- The nodes of a state are its own, those of its histories and those of its children. -/
theorem mem_assemble : n ∈ (s.assemble above c roots inner behind).1.nodes ↔
    n = s.ownNode above c roots behind ∨ n ∈ s.historyNodes above c ∨ n ∈ inner.nodes := by
  simp [StateDef.assemble]

theorem under_of_historyNodes (hn : n ∈ s.historyNodes above c) :
    (s.ownNode above c roots behind).Under n := by
  obtain ⟨j, hj, hi, hk, hp, ha, -⟩ := mem_historyNodes hn
  refine ⟨hp, ha, isHistory_ownNode .., ?_, ?_, fun _ => ?_⟩
  · rw [hi]
    show c.node < _
    omega
  · intro e
    rw [hk] at e
    cases e
  · rw [hi]
    simpa [ownNode] using hj

/-- Transitions in front of those of the children stand where they stood. -/
theorem stands_inFront (hi : Arrow.Stands (s.eventArrows c ++ s.historyArrows c) c.transition i origin
    source) : Arrow.Stands (s.assemble above c roots inner behind).1.arrows c.transition i origin source :=
  hi.append_left.append_left

/-- Transitions of the children stand where they stood. -/
theorem stands_inside (hi : Arrow.Stands inner.arrows (s.childCursor c).transition i origin source) :
    Arrow.Stands (s.assemble above c roots inner behind).1.arrows c.transition i origin source := by
  refine (hi.append_right ?_).append_left
  simp [childCursor, eventArrows, historyArrows]
  omega

theorem shaped_assemble (hs : s.checkShape = .ok ()) (hr : roots = [] ↔ s.states = [])
    (h : Laid (c.node :: above) (s.childCursor c) roots inner behind) :
    ∀ n ∈ (s.assemble above c roots inner behind).1.nodes, n.Shaped := by
  intro n hn
  rcases mem_assemble.1 hn with rfl | hn | hn
  · exact shaped_ownNode hs above c hr behind
  · obtain ⟨j, hj, hi, hk, hp, ha, hin, hc, hh, htr⟩ := mem_historyNodes hn
    refine ⟨?_, ?_, fun _ => ⟨hc, hh, htr⟩, fun _ => by rw [hp]; rfl⟩
    · intro e
      cases hkind : n.kind <;> simp [Node.isHistory, Node.isParallel, hkind] at hk e
    · intro e
      cases hkind : n.kind <;> simp [Node.isHistory, Node.isFinal, hkind] at hk e
  · exact h.shaped n hn

theorem indices_assemble (h : Laid (c.node :: above) (s.childCursor c) roots inner behind) :
    (s.assemble above c roots inner behind).1.nodes.map Node.index =
      List.range' c.node (s.assemble above c roots inner behind).1.nodes.length := by
  have hn : (s.childCursor c).node = c.node + 1 + s.history.length := rfl
  have hl : (s.historyNodes above c).length = s.history.length := by simp [historyNodes]
  have happend := @List.range'_append (c.node + 1) s.history.length inner.nodes.length 1
  rw [Nat.one_mul] at happend
  simp only [StateDef.assemble, List.cons_append, List.map_cons, List.map_append,
    indices_historyNodes, h.indices, hn, List.length_cons, List.length_append, hl]
  rw [happend]
  rfl

/-- A child at the top of those laid out is directly below the state. -/
theorem under_of_root (h : Laid (c.node :: above) (s.childCursor c) roots inner behind)
    (hn : n ∈ inner.nodes) (hi : n.index ∈ roots) (hk : n.isHistory = false)
    (hp : n.parent = some c.node) (ha : n.ancestors = c.node :: above) :
    (s.ownNode above c roots behind).Under n := by
  refine ⟨hp, ha, isHistory_ownNode .., ?_, fun _ => hi, ?_⟩
  · have hb := (h.index_bounds hn).1
    simp [childCursor] at hb
    show c.node < _
    omega
  · intro e
    rw [hk] at e
    cases e

theorem placed_assemble (h : Laid (c.node :: above) (s.childCursor c) roots inner behind) :
    ∀ n ∈ (s.assemble above c roots inner behind).1.nodes,
      n.index ∈ [c.node] ∧ n.isHistory = false ∧ n.parent = above.head? ∧ n.ancestors = above ∨
        ∃ p ∈ (s.assemble above c roots inner behind).1.nodes, p.Under n := by
  intro n hn
  rcases mem_assemble.1 hn with rfl | hn | hn
  · exact .inl ⟨List.mem_singleton.2 rfl, isHistory_ownNode .., rfl, rfl⟩
  · exact .inr ⟨_, mem_assemble.2 (.inl rfl), under_of_historyNodes hn⟩
  · rcases h.placed n hn with ⟨hi, hk, hp, ha⟩ | ⟨p, hp, hu⟩
    · exact .inr ⟨_, mem_assemble.2 (.inl rfl), h.under_of_root hn hi hk hp ha⟩
    · exact .inr ⟨p, mem_assemble.2 (.inr (.inr hp)), hu⟩

theorem children_assemble (h : Laid (c.node :: above) (s.childCursor c) roots inner behind) :
    ∀ p ∈ (s.assemble above c roots inner behind).1.nodes, ∀ m ∈ p.children,
      ∃ n ∈ (s.assemble above c roots inner behind).1.nodes, n.index = m ∧ p.Under n ∧
        n.isHistory = false := by
  intro p hp m hm
  rcases mem_assemble.1 hp with rfl | hp | hp
  · obtain ⟨n, hn, hi, hk, hpar, ha⟩ := h.rooted m hm
    exact ⟨n, mem_assemble.2 (.inr (.inr hn)), hi, h.under_of_root hn (hi ▸ hm) hk hpar ha, hk⟩
  · obtain ⟨j, hj, hi, hk, hpar, ha, hin, hc, hh, htr⟩ := mem_historyNodes hp
    rw [hc] at hm
    cases hm
  · obtain ⟨n, hn, h⟩ := h.children p hp m hm
    exact ⟨n, mem_assemble.2 (.inr (.inr hn)), h⟩

theorem histories_assemble (h : Laid (c.node :: above) (s.childCursor c) roots inner behind) :
    ∀ p ∈ (s.assemble above c roots inner behind).1.nodes, ∀ m ∈ p.histories,
      ∃ n ∈ (s.assemble above c roots inner behind).1.nodes, n.index = m ∧ p.Under n ∧
        n.isHistory = true := by
  intro p hp m hm
  rcases mem_assemble.1 hp with rfl | hp | hp
  · simp only [ownNode, List.mem_map, List.mem_range] at hm
    obtain ⟨j, hj, rfl⟩ := hm
    obtain ⟨n, hn, hi⟩ := exists_historyNode above c hj
    obtain ⟨-, -, -, hk, -⟩ := mem_historyNodes hn
    exact ⟨n, mem_assemble.2 (.inr (.inl hn)), hi, under_of_historyNodes hn, hk⟩
  · obtain ⟨j, hj, hi, hk, hpar, ha, hin, hc, hh, htr⟩ := mem_historyNodes hp
    rw [hh] at hm
    cases hm
  · obtain ⟨n, hn, h⟩ := h.histories p hp m hm
    exact ⟨n, mem_assemble.2 (.inr (.inr hn)), h⟩

theorem events_assemble (h : Laid (c.node :: above) (s.childCursor c) roots inner behind) :
    ∀ n ∈ (s.assemble above c roots inner behind).1.nodes, ∀ i ∈ n.transitions,
      Arrow.Stands (s.assemble above c roots inner behind).1.arrows c.transition i .event
        (some n.index) := by
  intro n hn i hi
  rcases mem_assemble.1 hn with rfl | hn | hn
  · simp only [ownNode, List.mem_map, List.mem_range] at hi
    obtain ⟨j, hj, rfl⟩ := hi
    exact stands_inFront (s.stands_event c hj).append_left
  · obtain ⟨j, hj, hi', hk, hpar, ha, hin, hc, hh, htr⟩ := mem_historyNodes hn
    rw [htr] at hi
    cases hi
  · exact stands_inside (h.events n hn i hi)

theorem initials_assemble (hr : roots = [] ↔ s.states = [])
    (h : Laid (c.node :: above) (s.childCursor c) roots inner behind) :
    ∀ n ∈ (s.assemble above c roots inner behind).1.nodes, n.isCompound = true →
      ∃ i, n.initial = some i ∧ Arrow.Stands (s.assemble above c roots inner behind).1.arrows
        c.transition i .initial (some n.index) := by
  intro n hn hc
  rcases mem_assemble.1 hn with rfl | hn | hn
  · rw [isCompound_ownNode hr] at hc
    refine ⟨behind.transition, by simp [ownNode, hc], ?_⟩
    refine (stands_initial c hc _).append_right ?_
    have harrows := h.arrows
    simp [childCursor] at harrows
    simp [eventArrows, historyArrows, harrows]
    omega
  · obtain ⟨j, hj, hi', hk, hpar, ha, hin, hc', hh, htr⟩ := mem_historyNodes hn
    simp [Node.isCompound, hc'] at hc
  · obtain ⟨i, hi, hst⟩ := h.initials n hn hc
    exact ⟨i, hi, stands_inside hst⟩

theorem defaults_assemble (ht : ∀ h ∈ s.history, h.target ≠ [])
    (h : Laid (c.node :: above) (s.childCursor c) roots inner behind) :
    ∀ n ∈ (s.assemble above c roots inner behind).1.nodes, n.isHistory = true →
      ∃ i, n.initial = some i ∧ Arrow.Stands (s.assemble above c roots inner behind).1.arrows
        c.transition i .history n.parent := by
  intro n hn hh
  rcases mem_assemble.1 hn with rfl | hn | hn
  · rw [isHistory_ownNode] at hh
    cases hh
  · obtain ⟨j, hj, hi', hk, hpar, ha, hin, hc, hh', htr⟩ := mem_historyNodes hn
    refine ⟨_, hin, hpar ▸ stands_inFront ?_⟩
    exact (s.stands_history c ht hj _).append_right (by simp [eventArrows])
  · obtain ⟨i, hi, hst⟩ := h.defaults n hn hh
    exact ⟨i, hi, stands_inside hst⟩

/-- A state is laid out if its children are. -/
theorem assemble (hs : s.checkShape = .ok ()) (ht : ∀ h ∈ s.history, h.target ≠ [])
    (hr : roots = [] ↔ s.states = [])
    (h : Laid (c.node :: above) (s.childCursor c) roots inner behind) :
    Laid above c [c.node] (s.assemble above c roots inner behind).1
      (s.assemble above c roots inner behind).2 where
  nodes := by
    have hnodes := h.nodes
    simp [childCursor] at hnodes
    simp [StateDef.assemble, historyNodes, hnodes]
    omega
  arrows := by
    have harrows := h.arrows
    simp [childCursor] at harrows
    simp [StateDef.assemble, eventArrows, historyArrows, length_initialArrows, harrows]
    omega
  indices := h.indices_assemble
  shaped := h.shaped_assemble hs hr
  placed := h.placed_assemble
  rooted r hm := by
    rw [List.mem_singleton] at hm
    subst hm
    exact ⟨_, mem_assemble.2 (.inl rfl), rfl, isHistory_ownNode .., rfl, rfl⟩
  children := h.children_assemble
  histories := h.histories_assemble
  events := h.events_assemble
  initials := h.initials_assemble hr
  defaults := h.defaults_assemble ht

end

end Outline.Laid

namespace HistoryDef

/-- Checked histories have default targets. -/
theorem target_ne_nil_of_checkAll : ∀ {hs : List HistoryDef} {taken taken' : List String},
    checkAll taken hs = .ok taken' → ∀ h ∈ hs, h.target ≠ []
  | h :: hs, taken, taken', e, d, hd => by
    rw [checkAll] at e
    split at e
    · cases e
    rename_i next hc
    rcases List.mem_cons.1 hd with rfl | hd
    · unfold check at hc
      split at hc
      · cases hc
      · rename_i ht
        simpa using ht
    · exact target_ne_nil_of_checkAll e d hd

end HistoryDef

namespace StateDef

open Outline

/-- Checks in a row pass if each of them does. -/
theorem bind_ok {ε α β : Type} {x : Except ε α} {f : α → Except ε β} {b : β}
    (h : x >>= f = .ok b) : ∃ a, x = .ok a ∧ f a = .ok b := by
  cases x with
  | error e => cases h
  | ok a => exact ⟨a, rfl, h⟩

/-- What the checks of a state without its children establish. -/
theorem of_checkOwn {s : StateDef} {taken taken' : List String} (h : s.checkOwn taken = .ok taken') :
    s.checkShape = .ok () ∧ ∀ d ∈ s.history, d.target ≠ [] := by
  unfold checkOwn at h
  obtain ⟨⟨⟩, hs, h⟩ := bind_ok h
  obtain ⟨ids, -, h⟩ := bind_ok h
  obtain ⟨ids', hh, -⟩ := bind_ok h
  exact ⟨hs, HistoryDef.target_ne_nil_of_checkAll hh⟩

theorem check_eq (taken : List String) (s : StateDef) : s.check taken =
    match s.checkOwn taken with
    | .error e => .error e
    | .ok taken => checkAll taken s.states := by
  cases s
  rfl

theorem outline_eq (above : List NodeId) (c : Cursor) (s : StateDef) : outline above c s =
    let parts := outlineAll (c.node :: above) (s.childCursor c) s.states
    s.assemble above c parts.1 parts.2.1 parts.2.2 := by
  cases s
  rfl

/-- As many nodes as states. -/
theorem length_outlineAll : ∀ (above : List NodeId) (c : Cursor) (ss : List StateDef),
    (outlineAll above c ss).1.length = ss.length
  | _, _, [] => rfl
  | above, c, s :: ss => by
    rw [outlineAll]
    simp [length_outlineAll above _ ss]

mutual

/-- A checked state is laid out. -/
theorem laid_outline (above : List NodeId) (c : Cursor) : ∀ (s : StateDef) {taken taken' : List String},
    s.check taken = .ok taken' → Laid above c [c.node] (outline above c s).1 (outline above c s).2
  | ⟨_, _, _, _, _, states, _, _, _, _, _⟩, taken, taken', h => by
    rw [check_eq] at h
    split at h
    · cases h
    rename_i next hc
    obtain ⟨hs, ht⟩ := of_checkOwn hc
    rw [outline_eq]
    refine Laid.assemble hs ht ?_ (laid_outlineAll _ _ states h)
    rw [← List.length_eq_zero_iff, length_outlineAll, List.length_eq_zero_iff]

/-- Checked states are laid out one after the other. -/
theorem laid_outlineAll (above : List NodeId) (c : Cursor) :
    ∀ (ss : List StateDef) {taken taken' : List String}, checkAll taken ss = .ok taken' →
      Laid above c (outlineAll above c ss).1 (outlineAll above c ss).2.1 (outlineAll above c ss).2.2
  | [], _, _, _ => Laid.nil above c
  | s :: ss, taken, taken', h => by
    rw [checkAll] at h
    split at h
    · cases h
    rename_i next hc
    rw [outlineAll.eq_2]
    exact Laid.cons (laid_outline above c s hc) (laid_outlineAll above _ ss h)

end
end StateDef
end Statechart
