import Statechart.Proofs.WellFormed

/-! Every node has a name of its own.

    Checking a definition claims the names of its states and histories in the order in which they are
    numbered, and none is claimed twice; so looking up the name of a node finds the node. Children are
    numbered one after the other, so lists of children are increasing. -/

namespace Statechart

/-- Whether names were claimed one after the other, none of them twice. -/
structure Claimed (ids taken taken' : List String) : Prop where
  names : taken' = ids.reverse ++ taken
  new : taken.Nodup → taken'.Nodup

namespace Claimed

variable {ids ids' a b d : List String} {id : String}

theorem refl (taken : List String) : Claimed [] taken taken := ⟨rfl, fun h => h⟩

theorem append (h : Claimed ids a b) (h' : Claimed ids' b d) : Claimed (ids ++ ids') a d where
  names := by rw [h'.names, h.names, List.reverse_append, List.append_assoc]
  new hn := h'.new (h.new hn)

theorem of_claimId (h : claimId a id = .ok b) : Claimed [id] a b := by
  unfold claimId at h
  split at h
  · cases h
  split at h
  · cases h
  rename_i hnew
  cases h
  exact ⟨rfl, fun hn => List.nodup_cons.2 ⟨by simpa using hnew, hn⟩⟩

theorem of_histories : ∀ {hs : List HistoryDef} {a b : List String},
    HistoryDef.checkAll a hs = .ok b → Claimed (hs.map HistoryDef.id) a b
  | [], a, b, h => by
    cases h
    exact refl a
  | d :: hs, a, b, h => by
    rw [HistoryDef.checkAll] at h
    split at h
    · cases h
    rename_i next hd
    unfold HistoryDef.check at hd
    split at hd
    · cases hd
    · exact (of_claimId hd).append (of_histories h)

theorem of_checkOwn {s : StateDef} (h : s.checkOwn a = .ok b) :
    Claimed (s.id :: s.history.map HistoryDef.id) a b := by
  unfold StateDef.checkOwn at h
  obtain ⟨⟨⟩, -, h⟩ := StateDef.bind_ok h
  obtain ⟨next, hown, h⟩ := StateDef.bind_ok h
  obtain ⟨next', hhist, h⟩ := StateDef.bind_ok h
  obtain ⟨⟨⟩, -, h⟩ := StateDef.bind_ok h
  cases h
  exact (of_claimId hown).append (of_histories hhist)

end Claimed

/-- Whether the names of the nodes laid out were claimed, and siblings among them are in order. -/
structure Outline.Listed (roots : List NodeId) (o : Outline) (taken taken' : List String) : Prop where
  claimed : Claimed (o.nodes.map Node.id) taken taken'
  sorted : roots.Pairwise (· < ·)
  children : ∀ n ∈ o.nodes, n.children.Pairwise (· < ·)

namespace StateDef

open Outline

theorem map_id_historyNodes (s : StateDef) (above : List NodeId) (c : Cursor) :
    (s.historyNodes above c).map Node.id = s.history.map HistoryDef.id := by
  refine List.ext_getElem (by simp [historyNodes]) ?_
  intro i h₁ h₂
  simp [historyNodes]

/-- A state is listed if its children are. -/
theorem listed_assemble {s : StateDef} {above : List NodeId} {c behind : Cursor} {roots : List NodeId}
    {inner : Outline} {taken next taken' : List String} (hown : s.checkOwn taken = .ok next)
    (hin : Listed roots inner next taken') :
    Listed [c.node] (s.assemble above c roots inner behind).1 taken taken' := by
  refine ⟨?_, List.pairwise_singleton _ _, fun n hn => ?_⟩
  · have h := (Claimed.of_checkOwn hown).append hin.claimed
    rw [← map_id_historyNodes s above c] at h
    simpa [assemble, ownNode] using h
  · rcases Laid.mem_assemble.1 hn with rfl | hn | hn
    · exact hin.sorted
    · obtain ⟨j, -, -, -, -, -, -, hnone, -⟩ := mem_historyNodes hn
      rw [hnone]
      exact .nil
    · exact hin.children n hn

mutual

/-- A checked state is listed. -/
theorem listed_outline (above : List NodeId) (c : Cursor) : ∀ (s : StateDef) {taken taken' : List String},
    s.check taken = .ok taken' → Listed [c.node] (outline above c s).1 taken taken'
  | ⟨_, _, _, _, _, states, _, _, _, _, _⟩, taken, taken', h => by
    rw [check_eq] at h
    split at h
    · cases h
    rename_i next hown
    rw [outline_eq]
    exact listed_assemble hown (listed_outlineAll _ _ states h)

/-- Checked states are listed one after the other. -/
theorem listed_outlineAll (above : List NodeId) (c : Cursor) :
    ∀ (ss : List StateDef) {taken taken' : List String}, checkAll taken ss = .ok taken' →
      Listed (outlineAll above c ss).1 (outlineAll above c ss).2.1 taken taken'
  | [], taken, _, h => by
    cases h
    exact ⟨.refl taken, .nil, by simp [outlineAll, Outline.empty]⟩
  | s :: ss, taken, taken', h => by
    rw [checkAll] at h
    split at h
    · cases h
    rename_i next hs
    have hfirst := listed_outline above c s hs
    have hrest := listed_outlineAll above (outline above c s).2 ss h
    have hlaid := laid_outline above c s hs
    have hlaid' := laid_outlineAll above (outline above c s).2 ss h
    rw [outlineAll.eq_2]
    refine ⟨?_, List.pairwise_cons.2 ⟨fun r hr => ?_, hrest.sorted⟩, fun n hn => ?_⟩
    · have := hfirst.claimed.append hrest.claimed
      rwa [← List.map_append] at this
    · -- what comes behind a state is numbered behind all that is in it
      obtain ⟨n, hn, hi, -⟩ := hlaid.rooted c.node (List.mem_singleton.2 rfl)
      obtain ⟨m, hm, rfl, -⟩ := hlaid'.rooted r hr
      rw [← hi]
      exact Nat.lt_of_lt_of_le (hlaid.index_bounds hn).2 (hlaid'.index_bounds hm).1
    · exact (List.mem_append.1 hn).elim (hfirst.children n) (hrest.children n)

end
end StateDef

namespace Chart

/-- Whether nodes have different names and siblings are in order. -/
structure Named (c : Chart) : Prop where
  names : (c.nodes.toList.map Node.id).Nodup
  top : c.children.Pairwise (· < ·)
  children : ∀ n, (c.node n).children.Pairwise (· < ·)

theorem named_of_compile {name : String} {version : Nat} {d : Definition} {c : Chart}
    (h : compile name version d = .ok c) : c.Named := by
  obtain ⟨o, k, targets, hb⟩ := built_of_compile h
  obtain ⟨taken, hcheck⟩ := hb.checked
  have hlisted := StateDef.listed_outlineAll [] Definition.startCursor d.states hcheck
  rw [hb.outline] at hlisted
  refine ⟨?_, hlisted.sorted, fun n => ?_⟩
  · have hnew := hlisted.claimed.new .nil
    rw [hlisted.claimed.names, List.append_nil] at hnew
    rw [hb.nodes]
    exact (List.reverse_perm _).nodup_iff.1 hnew
  · by_cases hn : n < c.nodes.size
    · exact hlisted.children _ (hb.laid.node_mem hb.nodes hn).1
    · rw [Chart.node, NodeTable.node_of_le (Nat.le_of_not_lt hn)]
      exact .nil

/-- Charts that load have different names for their nodes. -/
theorem named_of_load {name : String} {version : Nat} {v : Value} {c : Chart}
    (h : load name version v = .ok c) : c.Named :=
  named_of_compile (compile_of_load h).choose_spec

/-- The name of a node leads to the node. -/
theorem Named.find? {c : Chart} (h : c.Named) {i : NodeId} (hi : i < c.nodes.size) :
    c.find? (c.node i).id = some i := by
  have hnode {j : NodeId} (hj : j < c.nodes.size) : c.nodes[j] = c.node j := by
    simp [Chart.node, NodeTable.node, hj]
  refine Array.findIdx?_eq_some_iff_getElem.2 ⟨hi, by simp [hnode], fun j hj => ?_⟩
  have hne := List.pairwise_iff_getElem.1 h.names j i (by simpa using Nat.lt_trans hj hi)
    (by simpa using hi) hj
  simpa [hnode] using hne

/-- Nodes with the same name are the same. -/
theorem Named.eq_of_id {c : Chart} (h : c.Named) {i j : NodeId} (hi : i < c.nodes.size)
    (hj : j < c.nodes.size) (hid : (c.node i).id = (c.node j).id) : i = j := by
  have hfind := h.find? hi
  rw [hid, h.find? hj] at hfind
  exact (Option.some.inj hfind).symm

end Chart
end Statechart
