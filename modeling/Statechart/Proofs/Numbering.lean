import Statechart.Listeners
import Statechart.Proofs.Tree

/-! Document order is a pre-order, and every number belongs to one part.

    The nodes of a run of neighbouring states are numbered in the order of their indices. Behind the
    number of a state come those of its event transitions, before that of any later node; whatever lies
    below a state follows it without a gap; and each process stands where its state says. As for the
    layout, segments of neighbours join and a state closes the segments of its children. -/

namespace Statechart

/-- Whether the event transitions of a node stand next to one another, and their orders behind its
    own. -/
def Node.Followed (as : List Arrow) (base : Nat) (n : Node) : Prop :=
  ∃ first, n.transitions = List.range' first n.transitions.length ∧
    ∀ j < n.transitions.length, ∃ a, (a, first + j) ∈ as.zipIdx base ∧ a.order = n.order + 1 + j

/-- Whether the processes of a node are its own, each declared once. -/
def Node.Employs (is : List Invoke) (base : Nat) (n : Node) : Prop :=
  n.invokes.Nodup ∧ ∀ i ∈ n.invokes, ∃ v, (v, i) ∈ is.zipIdx base ∧ v.owner = n.index

namespace Node

variable {n : Node} {as bs : List Arrow} {is js : List Invoke} {base base' : Nat}

theorem Followed.append_left (h : n.Followed as base) : n.Followed (as ++ bs) base := by
  obtain ⟨first, he, h⟩ := h
  refine ⟨first, he, fun j hj => ?_⟩
  obtain ⟨a, ha, ho⟩ := h j hj
  exact ⟨a, Outline.entry_left ha, ho⟩

theorem Followed.append_right (hb : base' = base + as.length) (h : n.Followed bs base') :
    n.Followed (as ++ bs) base := by
  obtain ⟨first, he, h⟩ := h
  refine ⟨first, he, fun j hj => ?_⟩
  obtain ⟨a, ha, ho⟩ := h j hj
  exact ⟨a, Outline.entry_right hb ha, ho⟩

theorem Employs.append_left (h : n.Employs is base) : n.Employs (is ++ js) base := by
  refine ⟨h.1, fun i hi => ?_⟩
  obtain ⟨v, hv, ho⟩ := h.2 i hi
  exact ⟨v, Outline.entry_left hv, ho⟩

theorem Employs.append_right (hb : base' = base + is.length) (h : n.Employs js base') :
    n.Employs (is ++ js) base := by
  refine ⟨h.1, fun i hi => ?_⟩
  obtain ⟨v, hv, ho⟩ := h.2 i hi
  exact ⟨v, Outline.entry_right hb hv, ho⟩

end Node

namespace Outline

/-- The numbers of states below `above`, from one cursor to another. -/
structure Numbered (above : List NodeId) (c : Cursor) (o : Outline) (c' : Cursor) : Prop where
  order : c.order ≤ c'.order
  observable : c.observable ≤ c'.observable
  processes : c'.invoke = c.invoke + o.invokes.length
  bounds : ∀ n ∈ o.nodes, c.order ≤ n.order ∧ n.order + n.transitions.length < c'.order
  increasing : o.nodes.Pairwise fun n m => n.order + n.transitions.length < m.order
  observed : ∀ n ∈ o.nodes, c.observable ≤ n.observable
  followed : ∀ n ∈ o.nodes, n.Followed o.arrows c.transition
  employs : ∀ n ∈ o.nodes, n.Employs o.invokes c.invoke
  below : ∀ n ∈ o.nodes, ∀ a ∈ above, a ∈ n.ancestors
  ancestors : ∀ n ∈ o.nodes, ∀ a ∈ n.ancestors, a ∈ above ∨ c.node ≤ a
  between : ∀ n ∈ o.nodes, ∀ m ∈ o.nodes, ∀ d ∈ o.nodes, n.index < m.index → m.index ≤ d.index →
    n.index ∈ d.ancestors → n.index ∈ m.ancestors

namespace Numbered

/-- No states have no numbers. -/
theorem nil (above : List NodeId) (c : Cursor) : Numbered above c .empty c := by
  constructor <;> simp [Outline.empty]

/-- States numbered behind a state. -/
theorem cons {above : List NodeId} {c c₁ c₂ : Cursor} {r : NodeId} {roots : List NodeId}
    {o q : Outline} (habove : ∀ a ∈ above, a < c.node) (lo : Laid above c [r] o c₁)
    (lq : Laid above c₁ roots q c₂) (ho : Numbered above c o c₁) (hq : Numbered above c₁ q c₂) :
    Numbered above c (o.append q) c₂ := by
  constructor
  case order => exact Nat.le_trans ho.order hq.order
  case observable => exact Nat.le_trans ho.observable hq.observable
  case processes =>
    rw [hq.processes, ho.processes]
    simp [append]
    omega
  case bounds =>
    intro n hn
    have horder := ho.order
    have horder' := hq.order
    rcases mem_nodes_append.1 hn with hn | hn
    · have := ho.bounds n hn
      omega
    · have := hq.bounds n hn
      omega
  case increasing =>
    refine List.pairwise_append.2 ⟨ho.increasing, hq.increasing, fun n hn m hm => ?_⟩
    exact Nat.lt_of_lt_of_le (ho.bounds n hn).2 (hq.bounds m hm).1
  case observed =>
    intro n hn
    rcases mem_nodes_append.1 hn with hn | hn
    · exact ho.observed n hn
    · exact Nat.le_trans ho.observable (hq.observed n hn)
  case followed =>
    intro n hn
    rcases mem_nodes_append.1 hn with hn | hn
    · exact (ho.followed n hn).append_left
    · exact (hq.followed n hn).append_right lo.arrows
  case employs =>
    intro n hn
    rcases mem_nodes_append.1 hn with hn | hn
    · exact (ho.employs n hn).append_left
    · exact (hq.employs n hn).append_right ho.processes
  case below =>
    intro n hn
    exact (mem_nodes_append.1 hn).elim (ho.below n) (hq.below n)
  case ancestors =>
    intro n hn a ha
    rcases mem_nodes_append.1 hn with hn | hn
    · exact ho.ancestors n hn a ha
    · have hle := lo.nodes
      refine (hq.ancestors n hn a ha).imp_right fun h => ?_
      omega
  case between =>
    intro n hn m hm d hd hnm hmd h
    rcases mem_nodes_append.1 hn with hn | hn
    · rcases mem_nodes_append.1 hd with hd | hd
      · rcases mem_nodes_append.1 hm with hm | hm
        · exact ho.between n hn m hm d hd hnm hmd h
        · exact absurd (Nat.le_trans (lq.index_bounds hm).1 hmd) (Nat.not_le.2 (lo.index_bounds hd).2)
      · -- nothing in the later states lies below one of the earlier ones
        rcases hq.ancestors d hd _ h with h | h
        · exact absurd (lo.index_bounds hn).1 (Nat.not_le.2 (habove _ h))
        · exact absurd h (Nat.not_le.2 (lo.index_bounds hn).2)
    · have later {k : Node} (hk : k ∈ (o.append q).nodes) (hlt : n.index < k.index) : k ∈ q.nodes := by
        refine (mem_nodes_append.1 hk).resolve_left fun hk => Nat.lt_asymm hlt ?_
        exact Nat.lt_of_lt_of_le (lo.index_bounds hk).2 (lq.index_bounds hn).1
      exact hq.between n hn m (later hm hnm) d (later hd (Nat.lt_of_lt_of_le hnm hmd)) hnm hmd h

end Numbered
end Outline

namespace StateDef

/-- The numbers of the nodes of a state's histories. -/
theorem numbers_historyNodes {s : StateDef} {above : List NodeId} {c : Cursor} {n : Node}
    (h : n ∈ s.historyNodes above c) : ∃ j < s.history.length,
      n.order = c.order + 1 + s.transitions.length + j ∧ c.observable < n.observable ∧
      n.invokes = [] := by
  obtain ⟨⟨d, j⟩, hd, rfl⟩ := List.mem_map.1 h
  obtain ⟨hj, -⟩ := List.getElem?_eq_some_iff.1 (List.mk_mem_zipIdx_iff_getElem?.1 hd)
  refine ⟨j, hj, rfl, ?_, rfl⟩
  show c.observable < c.observable + 1 + s.initialCount + s.transitions.length + 2 * j
  omega

theorem increasing_historyNodes (s : StateDef) (above : List NodeId) (c : Cursor) :
    (s.historyNodes above c).Pairwise fun n m => n.order + n.transitions.length < m.order := by
  rw [List.pairwise_iff_getElem]
  intro i j hi hj hlt
  simp [historyNodes]
  omega

theorem followed_ownNode (s : StateDef) (above : List NodeId) (c : Cursor) (roots : List NodeId)
    (behind : Cursor) : (s.ownNode above c roots behind).Followed (s.eventArrows c) c.transition := by
  have hlen : (s.ownNode above c roots behind).transitions.length = s.transitions.length := by
    simp [ownNode]
  refine ⟨c.transition, ?_, fun j hj => ?_⟩
  · rw [hlen]
    simp [ownNode, List.range'_eq_map_range]
  · rw [hlen] at hj
    refine ⟨_, List.mk_add_mem_zipIdx_iff_getElem?.2 (List.getElem?_eq_getElem (by
      simpa [eventArrows] using hj)), ?_⟩
    simp [eventArrows, ownNode]

theorem employs_ownNode (s : StateDef) (above : List NodeId) (c : Cursor) (roots : List NodeId)
    (behind : Cursor) : (s.ownNode above c roots behind).Employs (s.processes c) c.invoke := by
  constructor
  · exact List.Pairwise.map _ (fun i j hne h => hne (Nat.add_left_cancel h)) List.nodup_range
  · intro i hi
    simp only [ownNode, List.mem_map, List.mem_range] at hi
    obtain ⟨j, hj, rfl⟩ := hi
    refine ⟨_, List.mk_add_mem_zipIdx_iff_getElem?.2 (List.getElem?_eq_getElem (by
      simpa [processes] using hj)), ?_⟩
    simp [processes, ownNode]

end StateDef

namespace Outline.Numbered

open StateDef

variable {s : StateDef} {above : List NodeId} {c behind : Cursor} {roots : List NodeId}
  {inner : Outline}

theorem bounds_assemble (h : Numbered (c.node :: above) (s.childCursor c) inner behind) :
    ∀ n ∈ (s.assemble above c roots inner behind).1.nodes,
      c.order ≤ n.order ∧ n.order + n.transitions.length < behind.order := by
  have hle : c.order + 1 + s.transitions.length + s.history.length ≤ behind.order := h.order
  intro n hn
  rcases Laid.mem_assemble.1 hn with rfl | hn | hn
  · simp [ownNode]
    omega
  · obtain ⟨j, hj, ho, -⟩ := numbers_historyNodes hn
    obtain ⟨-, -, -, -, -, -, -, -, -, ht⟩ := mem_historyNodes hn
    rw [ho, ht, List.length_nil]
    omega
  · have hb := h.bounds n hn
    simp only [childCursor] at hb
    omega

theorem increasing_assemble (h : Numbered (c.node :: above) (s.childCursor c) inner behind) :
    (s.assemble above c roots inner behind).1.nodes.Pairwise
      fun n m => n.order + n.transitions.length < m.order := by
  have hinner : ∀ m ∈ inner.nodes,
      c.order + 1 + s.transitions.length + s.history.length ≤ m.order := fun m hm => (h.bounds m hm).1
  refine List.pairwise_cons.2 ⟨?_, List.pairwise_append.2
    ⟨s.increasing_historyNodes above c, h.increasing, ?_⟩⟩
  · intro m hm
    simp only [ownNode, List.length_map, List.length_range]
    rcases List.mem_append.1 hm with hm | hm
    · obtain ⟨j, -, ho, -⟩ := numbers_historyNodes hm
      omega
    · have := hinner m hm
      omega
  · intro n hn m hm
    obtain ⟨j, hj, ho, -⟩ := numbers_historyNodes hn
    obtain ⟨-, -, -, -, -, -, -, -, -, ht⟩ := mem_historyNodes hn
    rw [ho, ht, List.length_nil]
    have := hinner m hm
    omega

theorem followed_assemble (h : Numbered (c.node :: above) (s.childCursor c) inner behind) :
    ∀ n ∈ (s.assemble above c roots inner behind).1.nodes,
      n.Followed (s.assemble above c roots inner behind).1.arrows c.transition := by
  intro n hn
  rcases Laid.mem_assemble.1 hn with rfl | hn | hn
  · exact ((s.followed_ownNode above c roots behind).append_left.append_left).append_left
  · obtain ⟨-, -, -, -, -, -, -, -, -, ht⟩ := mem_historyNodes hn
    exact ⟨0, by simp [ht], fun j hj => by simp [ht] at hj⟩
  · refine ((h.followed n hn).append_right ?_).append_left
    simp [childCursor, eventArrows, historyArrows]
    omega

theorem employs_assemble (h : Numbered (c.node :: above) (s.childCursor c) inner behind) :
    ∀ n ∈ (s.assemble above c roots inner behind).1.nodes,
      n.Employs (s.assemble above c roots inner behind).1.invokes c.invoke := by
  intro n hn
  rcases Laid.mem_assemble.1 hn with rfl | hn | hn
  · exact (s.employs_ownNode above c roots behind).append_left
  · obtain ⟨-, -, -, -, hi⟩ := numbers_historyNodes hn
    exact ⟨by rw [hi]; exact List.nodup_nil, fun i hm => by rw [hi] at hm; cases hm⟩
  · exact (h.employs n hn).append_right (by simp [childCursor, StateDef.processes])

theorem ancestors_assemble (h : Numbered (c.node :: above) (s.childCursor c) inner behind) :
    ∀ n ∈ (s.assemble above c roots inner behind).1.nodes,
      (∀ a ∈ above, a ∈ n.ancestors) ∧ ∀ a ∈ n.ancestors, a ∈ above ∨ c.node ≤ a := by
  intro n hn
  rcases Laid.mem_assemble.1 hn with rfl | hn | hn
  · exact ⟨fun _ ha => ha, fun _ ha => .inl ha⟩
  · obtain ⟨-, -, -, -, -, ha, -⟩ := mem_historyNodes hn
    rw [ha]
    refine ⟨fun a => List.mem_cons_of_mem _, fun a hm => ?_⟩
    rcases List.mem_cons.1 hm with rfl | hm
    · exact .inr (Nat.le_refl _)
    · exact .inl hm
  · refine ⟨fun a ha => h.below n hn a (List.mem_cons_of_mem _ ha), fun a ha => ?_⟩
    rcases h.ancestors n hn a ha with hm | hm
    · rcases List.mem_cons.1 hm with rfl | hm
      · exact .inr (Nat.le_refl _)
      · exact .inl hm
    · have hm : c.node + 1 + s.history.length ≤ a := hm
      exact .inr (by omega)

theorem between_assemble (habove : ∀ a ∈ above, a < c.node)
    (l : Laid (c.node :: above) (s.childCursor c) roots inner behind)
    (h : Numbered (c.node :: above) (s.childCursor c) inner behind) :
    ∀ n ∈ (s.assemble above c roots inner behind).1.nodes,
      ∀ m ∈ (s.assemble above c roots inner behind).1.nodes,
      ∀ d ∈ (s.assemble above c roots inner behind).1.nodes, n.index < m.index →
        m.index ≤ d.index → n.index ∈ d.ancestors → n.index ∈ m.ancestors := by
  have inside {k : Node} (hk : k ∈ inner.nodes) : c.node + 1 + s.history.length ≤ k.index :=
    (l.index_bounds hk).1
  intro n hn m hm d hd hnm hmd ha
  rcases Laid.mem_assemble.1 hn with rfl | hn | hn
  · -- whatever else is there lies below the state itself
    change c.node < m.index at hnm
    show c.node ∈ m.ancestors
    rcases Laid.mem_assemble.1 hm with rfl | hm | hm
    · exact absurd hnm (Nat.lt_irrefl _)
    · obtain ⟨-, -, -, -, -, ha, -⟩ := mem_historyNodes hm
      simp [ha]
    · exact h.below m hm _ (by simp)
  · -- nothing lies below a history
    obtain ⟨j, hj, hi, -⟩ := mem_historyNodes hn
    rw [hi] at ha
    have hstrange : c.node + 1 + j ∉ c.node :: above := by
      intro hmem
      rcases List.mem_cons.1 hmem with e | hmem
      · omega
      · exact absurd (habove _ hmem) (Nat.not_lt.2 (by omega))
    rcases Laid.mem_assemble.1 hd with rfl | hd | hd
    · exact absurd (List.mem_cons_of_mem _ ha) hstrange
    · obtain ⟨-, -, -, -, -, ha', -⟩ := mem_historyNodes hd
      exact absurd (ha' ▸ ha) hstrange
    · refine ((h.ancestors d hd _ ha).elim hstrange fun hle => ?_).elim
      have hle : c.node + 1 + s.history.length ≤ c.node + 1 + j := hle
      omega
  · have later {k : Node} (hk : k ∈ (s.assemble above c roots inner behind).1.nodes)
        (hlt : n.index < k.index) : k ∈ inner.nodes := by
      have hlt := Nat.lt_of_le_of_lt (inside hn) hlt
      rcases Laid.mem_assemble.1 hk with rfl | hk | hk
      · change _ < c.node at hlt
        omega
      · obtain ⟨j, hj, hi, -⟩ := mem_historyNodes hk
        rw [hi] at hlt
        omega
      · exact hk
    exact h.between n hn m (later hm hnm) d (later hd (Nat.lt_of_lt_of_le hnm hmd)) hnm hmd ha

/-- A state is numbered if its children are. -/
theorem assemble (habove : ∀ a ∈ above, a < c.node)
    (l : Laid (c.node :: above) (s.childCursor c) roots inner behind)
    (h : Numbered (c.node :: above) (s.childCursor c) inner behind) :
    Numbered above c (s.assemble above c roots inner behind).1
      (s.assemble above c roots inner behind).2 where
  order := by
    have := h.order
    simp only [childCursor] at this
    simp only [StateDef.assemble]
    omega
  observable := by
    have := h.observable
    simp only [childCursor] at this
    simp only [StateDef.assemble]
    omega
  processes := by
    have := h.processes
    simp only [childCursor] at this
    simp [StateDef.assemble, StateDef.processes, this]
    omega
  bounds := h.bounds_assemble
  increasing := h.increasing_assemble
  observed n hn := by
    rcases Laid.mem_assemble.1 hn with rfl | hn | hn
    · exact Nat.le_refl _
    · obtain ⟨-, -, -, ho, -⟩ := numbers_historyNodes hn
      exact Nat.le_of_lt ho
    · have := h.observed n hn
      simp only [childCursor] at this
      omega
  followed := h.followed_assemble
  employs := h.employs_assemble
  below n hn := (h.ancestors_assemble n hn).1
  ancestors n hn := (h.ancestors_assemble n hn).2
  between := h.between_assemble habove l

end Outline.Numbered

namespace StateDef

open Outline

mutual

/-- A checked state is numbered. -/
theorem numbered_outline (above : List NodeId) (c : Cursor) (habove : ∀ a ∈ above, a < c.node) :
    ∀ (s : StateDef) {taken taken' : List String}, s.check taken = .ok taken' →
      Numbered above c (outline above c s).1 (outline above c s).2
  | ⟨_, _, _, _, _, states, _, _, _, _, _⟩, taken, taken', h => by
    rw [check_eq] at h
    split at h
    · cases h
    rename_i next hc
    rw [outline_eq]
    refine Numbered.assemble habove (laid_outlineAll _ _ states h)
      (numbered_outlineAll _ _ ?_ states h)
    intro a ha
    have hle : a ≤ c.node := by
      rcases List.mem_cons.1 ha with rfl | ha
      · exact Nat.le_refl _
      · exact Nat.le_of_lt (habove a ha)
    exact Nat.lt_of_lt_of_le (Nat.lt_succ_of_le hle) (Nat.le_add_right _ _)

/-- Checked states are numbered one after the other. -/
theorem numbered_outlineAll (above : List NodeId) (c : Cursor) (habove : ∀ a ∈ above, a < c.node) :
    ∀ (ss : List StateDef) {taken taken' : List String}, checkAll taken ss = .ok taken' →
      Numbered above c (outlineAll above c ss).2.1 (outlineAll above c ss).2.2
  | [], _, _, _ => Numbered.nil above c
  | s :: ss, taken, taken', h => by
    rw [checkAll] at h
    split at h
    · cases h
    rename_i next hc
    have lo := laid_outline above c s hc
    rw [outlineAll.eq_2]
    refine Numbered.cons habove lo (laid_outlineAll above _ ss h)
      (numbered_outline above c habove s hc) (numbered_outlineAll above _ ?_ ss h)
    intro a ha
    rw [lo.nodes]
    exact Nat.lt_of_lt_of_le (habove a ha) (Nat.le_add_right _ _)

end
end StateDef

/-! ### The tables of a numbered definition -/

namespace Outline.Numbered

variable {c' : Cursor} {roots : List NodeId} {o : Outline} {nodes : NodeTable} {a b m d : NodeId}

/-- A later node comes behind the event transitions of an earlier one. -/
theorem order_lt (h : Numbered [] Definition.startCursor o c') (hn : nodes = o.nodes.toArray)
    (hab : a < b) (hb : b < nodes.size) :
    (nodes.node a).order + (nodes.node a).transitions.length < (nodes.node b).order := by
  have hget {i : NodeId} (hi : i < o.nodes.length) : nodes.node i = o.nodes[i] := by
    simp [NodeTable.node, hn, List.getElem?_eq_getElem hi]
  have hb : b < o.nodes.length := by simpa [hn] using hb
  have ha : a < o.nodes.length := Nat.lt_trans hab hb
  rw [hget ha, hget hb]
  exact List.pairwise_iff_getElem.1 h.increasing a b ha hb hab

/-- An event transition is the `j`-th of its state for some `j`. -/
theorem exists_place (l : Laid [] Definition.startCursor roots o c')
    (h : Numbered [] Definition.startCursor o c') (hn : nodes = o.nodes.toArray) (a : NodeId) :
    ∃ first, ∀ t ∈ (nodes.node a).transitions, ∃ j < (nodes.node a).transitions.length,
      t = first + j ∧ ∃ b, o.arrows[t]? = some b ∧ b.order = (nodes.node a).order + 1 + j := by
  by_cases ha : a < nodes.size
  · obtain ⟨first, he, hf⟩ := h.followed _ (l.node_mem hn ha).1
    refine ⟨first, fun t hm => ?_⟩
    rw [he, List.mem_range'_1] at hm
    obtain ⟨j, rfl⟩ := Nat.exists_eq_add_of_le hm.1
    have hj : j < (nodes.node a).transitions.length := Nat.lt_of_add_lt_add_left hm.2
    obtain ⟨b, hb, ho⟩ := hf j hj
    exact ⟨j, hj, rfl, b, List.mk_mem_zipIdx_iff_getElem?.1 hb, ho⟩
  · refine ⟨0, fun t hm => ?_⟩
    rw [NodeTable.node_of_le (Nat.le_of_not_lt ha)] at hm
    cases hm

/-- What lies below a node follows it without a gap. -/
theorem descends_between (l : Laid [] Definition.startCursor roots o c')
    (h : Numbered [] Definition.startCursor o c') (hn : nodes = o.nodes.toArray) (ham : a < m)
    (hmd : m ≤ d) (hd : a ∈ (nodes.node d).ancestors) : a ∈ (nodes.node m).ancestors := by
  have hlt : d < nodes.size := NodeTable.lt_size_of_ancestor hd
  have hm := l.node_mem hn (Nat.lt_of_le_of_lt hmd hlt)
  have ha := l.node_mem hn (Nat.lt_trans ham (Nat.lt_of_le_of_lt hmd hlt))
  have hd' := l.node_mem hn hlt
  have hbetween := h.between _ ha.1 _ hm.1 _ hd'.1
  rw [ha.2, hm.2, hd'.2] at hbetween
  exact hbetween ham hmd hd

/-- The processes of a node name it as their owner. -/
theorem owner_eq (l : Laid [] Definition.startCursor roots o c')
    (h : Numbered [] Definition.startCursor o c') (hn : nodes = o.nodes.toArray) {i : InvokeId}
    (hi : i ∈ (nodes.node a).invokes) : ∃ v, o.invokes[i]? = some v ∧ v.owner = a := by
  obtain ⟨hm, ha⟩ := l.node_mem hn (NodeTable.lt_size_of_invoke hi)
  obtain ⟨v, hv, ho⟩ := (h.employs _ hm).2 i hi
  exact ⟨v, List.mk_mem_zipIdx_iff_getElem?.1 hv, ho.trans ha⟩

end Outline.Numbered

namespace Chart

/-- What numbering establishes. -/
structure Numbered (c : Chart) : Prop where
  order_lt : ∀ {a b}, a < b → b < c.nodes.size → (c.node a).order < (c.node b).order
  behind : ∀ {a t}, t ∈ (c.node a).transitions → (c.node a).order < (c.transition t).order
  before : ∀ {a b t}, t ∈ (c.node a).transitions → a < b → b < c.nodes.size →
    (c.transition t).order < (c.node b).order
  declared : ∀ {a t u}, t ∈ (c.node a).transitions → u ∈ (c.node a).transitions → t < u →
    (c.transition t).order < (c.transition u).order
  between : ∀ {a m d}, a < m → m ≤ d → c.descends d a = true → c.descends m a = true
  owner : ∀ {n i}, i ∈ (c.node n).invokes → (c.invoke i).owner = n
  once : ∀ n, (c.node n).invokes.Nodup
  observable : ∀ {n}, n < c.nodes.size → (c.node n).observable ≠ Listeners.chart

namespace Built

variable {c : Chart} {name : String} {version : Nat} {d : Definition} {o : Outline} {k : Cursor}
  {targets : List (List NodeId)}

theorem numbered_outline (h : c.Built name version d o k targets) :
    Outline.Numbered [] Definition.startCursor o k := by
  obtain ⟨taken, hc⟩ := h.checked
  have := StateDef.numbered_outlineAll [] Definition.startCursor (by simp) d.states hc
  rwa [h.outline] at this

/-- An event transition is the `j`-th of its state for some `j`, and has the number of its place. -/
theorem exists_place (h : c.Built name version d o k targets) (n : NodeId) :
    ∃ first, ∀ t ∈ (c.node n).transitions, ∃ j < (c.node n).transitions.length,
      t = first + j ∧ (c.transition t).order = (c.node n).order + 1 + j := by
  obtain ⟨first, hf⟩ := h.numbered_outline.exists_place h.laid h.nodes n
  refine ⟨first, fun t hm => ?_⟩
  obtain ⟨j, hj, e, a, ha, ho⟩ := hf t hm
  exact ⟨j, hj, e, (h.order_eq ha).trans ho⟩

theorem numbered (h : c.Built name version d o k targets) : c.Numbered := by
  have laid := h.laid
  have num := h.numbered_outline
  constructor
  case order_lt =>
    intro a b hab hb
    exact Nat.lt_of_le_of_lt (Nat.le_add_right _ _) (num.order_lt h.nodes hab hb)
  case behind =>
    intro a t hm
    obtain ⟨first, hf⟩ := h.exists_place a
    obtain ⟨j, -, -, ho⟩ := hf t hm
    omega
  case before =>
    intro a b t hm hab hb
    obtain ⟨first, hf⟩ := h.exists_place a
    obtain ⟨j, hj, -, ho⟩ := hf t hm
    have hlt : (c.node a).order + (c.node a).transitions.length < (c.node b).order :=
      num.order_lt h.nodes hab hb
    omega
  case declared =>
    intro a t u hm hm' hlt
    obtain ⟨first, hf⟩ := h.exists_place a
    obtain ⟨i, -, rfl, ho⟩ := hf t hm
    obtain ⟨j, -, rfl, ho'⟩ := hf u hm'
    have hlt := Nat.lt_of_add_lt_add_left hlt
    omega
  case between =>
    intro a m d ham hmd hd
    rw [descends_iff] at hd ⊢
    exact num.descends_between laid h.nodes ham hmd hd
  case owner =>
    intro n i hm
    obtain ⟨v, hv, ho⟩ := num.owner_eq laid h.nodes hm
    simp [Chart.invoke, h.invokes, hv, ho]
  case once =>
    intro n
    by_cases hn : n < c.nodes.size
    · exact (num.employs _ (laid.node_mem h.nodes hn).1).1
    · rw [Chart.node, NodeTable.node_of_le (Nat.le_of_not_lt hn)]
      exact List.nodup_nil
  case observable =>
    intro n hn e
    have hle : 2 ≤ (c.node n).observable := num.observed _ (laid.node_mem h.nodes hn).1
    rw [e] at hle
    exact absurd hle (by decide)

end Built

/-- Charts that compile are numbered. -/
theorem numbered_of_compile {name : String} {version : Nat} {d : Definition} {c : Chart}
    (h : compile name version d = .ok c) : c.Numbered := by
  obtain ⟨o, k, targets, hb⟩ := built_of_compile h
  exact hb.numbered

/-- Charts that load are numbered. -/
theorem numbered_of_load {name : String} {version : Nat} {v : Value} {c : Chart}
    (h : load name version v = .ok c) : c.Numbered :=
  numbered_of_compile (compile_of_load h).choose_spec

end Chart
end Statechart
