import Statechart.Proofs.Layout

/-! Charts that load are trees, and what they refer to is there.

    `Chart.WellFormed` collects what a machine relies on while it runs: the nodes form a forest whose
    parents come first, children and histories are those that name their parent, every transition has
    the source that lists it, and targets are where the checks of loading want them. -/

namespace Statechart

namespace Chart

/-- What loading establishes. -/
structure WellFormed (c : Chart) : Prop where
  index_eq : ∀ {i}, i < c.nodes.size → (c.node i).index = i
  parent_lt : ∀ {i p}, (c.node i).parent = some p → p < i
  parent_state : ∀ {i p}, (c.node i).parent = some p → (c.node p).isHistory = false
  ancestors_none : ∀ {i}, (c.node i).parent = none → (c.node i).ancestors = []
  ancestors_some : ∀ {i p}, (c.node i).parent = some p →
    (c.node i).ancestors = p :: (c.node p).ancestors
  mem_children : ∀ {p m}, m ∈ (c.node p).children ↔
    (c.node m).parent = some p ∧ (c.node m).isHistory = false
  mem_histories : ∀ {p m}, m ∈ (c.node p).histories ↔
    (c.node m).parent = some p ∧ (c.node m).isHistory = true
  mem_top : ∀ {m}, m ∈ c.children ↔ m < c.nodes.size ∧ (c.node m).parent = none
  shaped : ∀ i, (c.node i).Shaped
  source_eq : ∀ {n t}, t ∈ (c.node n).transitions →
    (c.transition t).source = some n ∧ (c.transition t).origin = .event
  initial : ∀ {n}, (c.node n).isCompound = true → ∃ t, (c.node n).initial = some t ∧
    (c.transition t).targets ≠ [] ∧
    ∀ x ∈ (c.transition t).targets, c.descends x n = true ∧ (c.node x).isHistory = false
  default : ∀ {h p kind}, (c.node h).kind = .history kind → (c.node h).parent = some p →
    ∃ t, (c.node h).initial = some t ∧ (c.transition t).targets ≠ [] ∧
      ∀ x ∈ (c.transition t).targets, c.nodes.historyCovers kind p x = true
  start : (c.transition c.initial).source = none ∧ (c.transition c.initial).targets ≠ [] ∧
    ∀ x ∈ (c.transition c.initial).targets, (c.node x).isHistory = false
  target_lt : ∀ {t x}, x ∈ (c.transition t).targets → x < c.nodes.size
  targets_nodup : ∀ t, (c.transition t).targets.Nodup
  compatible : ∀ t, (c.transition t).targets.Pairwise fun a b => c.nodes.compatible a b = true
  internal_eq : ∀ t, (c.transition t).internal =
    c.nodes.isInternal (c.transition t).source (c.transition t).kind (c.transition t).targets
  domain_eq : ∀ t, (c.transition t).domain =
    c.nodes.domain (c.transition t).source (c.transition t).internal (c.transition t).targets

end Chart

/-! ### Names and targets -/

namespace Arrow

/-- Resolving names finds nodes of the table, each once. -/
theorem of_resolveFrom {nodes : NodeTable} : ∀ {ids : List String} {found targets : List NodeId},
    resolveFrom nodes found ids = .ok targets → found.Nodup → (∀ x ∈ found, x < nodes.size) →
      targets.Nodup ∧ (∀ x ∈ targets, x < nodes.size) ∧ ((ids ≠ [] ∨ found ≠ []) → targets ≠ [])
  | [], found, targets, h, hd, hl => by
    cases h
    exact ⟨hd, hl, fun h => h.resolve_left fun hn => hn rfl⟩
  | id :: ids, found, targets, h, hd, hl => by
    rw [resolveFrom] at h
    split at h
    · cases h
    rename_i n hn
    have hlt : n < nodes.size := by
      obtain ⟨hi, -⟩ := Array.findIdx?_eq_some_iff_getElem.1 hn
      exact hi
    split at h
    · rename_i hm
      have hne : found ≠ [] := by rintro rfl; simp at hm
      obtain ⟨h₁, h₂, h₃⟩ := of_resolveFrom h hd hl
      exact ⟨h₁, h₂, fun _ => h₃ (.inr hne)⟩
    · rename_i hm
      have hm : n ∉ found := by simpa using hm
      obtain ⟨h₁, h₂, h₃⟩ := of_resolveFrom h
        (List.nodup_append.2 ⟨hd, by simp, fun a ha b hb e =>
          hm (List.mem_singleton.1 hb ▸ e ▸ ha)⟩)
        (fun x hx => by
          rcases List.mem_append.1 hx with hx | hx
          · exact hl x hx
          · exact List.mem_singleton.1 hx ▸ hlt)
      exact ⟨h₁, h₂, fun _ => h₃ (.inr (by simp))⟩

theorem of_resolve {nodes : NodeTable} {a : Arrow} {targets : List NodeId}
    (h : a.resolve nodes = .ok targets) : targets.Nodup ∧ (∀ x ∈ targets, x < nodes.size) ∧
      (a.targets ≠ [] → targets ≠ []) := by
  obtain ⟨h₁, h₂, h₃⟩ := of_resolveFrom h List.nodup_nil (by simp)
  exact ⟨h₁, h₂, fun h => h₃ (.inl h)⟩

end Arrow

/-- Every arrow is resolved in its place. -/
theorem of_resolveAll {nodes : NodeTable} : ∀ {as : List Arrow} {ts : List (List NodeId)},
    resolveAll nodes as = .ok ts → ts.length = as.length ∧
      ∀ (i : Nat) (hi : i < as.length), ∃ t, ts[i]? = some t ∧ as[i].resolve nodes = .ok t
  | [], ts, h => by
    cases h
    exact ⟨rfl, fun i hi => absurd hi (Nat.not_lt_zero i)⟩
  | a :: as, ts, h => by
    rw [resolveAll] at h
    split at h
    · cases h
    rename_i t ht
    split at h
    · cases h
    rename_i rest hr
    cases h
    obtain ⟨hl, hs⟩ := of_resolveAll hr
    refine ⟨by simp [hl], ?_⟩
    intro i hi
    cases i with
    | zero => exact ⟨t, rfl, ht⟩
    | succ i =>
      obtain ⟨t', ht', hres⟩ := hs i (Nat.lt_of_succ_lt_succ hi)
      exact ⟨t', by simpa using ht', hres⟩

/-- Targets that pass the check can be active together, two at a time. -/
theorem NodeTable.pairwise_of_legalTargets {t : NodeTable} : ∀ {targets : List NodeId},
    t.legalTargets targets = true → targets.Pairwise fun a b => t.compatible a b = true
  | [], _ => List.Pairwise.nil
  | a :: as, h => by
    rw [legalTargets, Bool.and_eq_true, List.all_eq_true] at h
    exact List.pairwise_cons.2 ⟨h.1, pairwise_of_legalTargets h.2⟩

/-- What the validation of a transition establishes. -/
theorem NodeTable.of_targetError? {t : NodeTable} {a : Arrow} {targets : List NodeId}
    (h : t.targetError? a targets = none) :
    (targets.Pairwise fun a b => t.compatible a b = true) ∧
      (a.origin = .chart → ∀ x ∈ targets, (t.node x).isHistory = false) ∧
      (a.origin = .initial → ∀ n, a.source = some n →
        ∀ x ∈ targets, t.descends x n = true ∧ (t.node x).isHistory = false) := by
  refine ⟨?_, ?_, ?_⟩
  · have hl : ¬(1 < targets.length ∧ t.legalTargets targets = false) := by
      intro hc
      unfold targetError? at h
      simp only [hc, and_self, if_true] at h
      split at h <;> cases h
    match targets, hl with
    | [], _ => exact List.Pairwise.nil
    | [_], _ => exact List.pairwise_singleton _ _
    | a :: b :: as, hl =>
      exact pairwise_of_legalTargets (eq_true_of_ne_false fun h' => hl ⟨by simp, h'⟩)
  · intro ho x hx
    refine Bool.eq_false_iff.2 ?_
    intro e
    have : (targets.any fun x => (t.node x).isHistory) = true := List.any_eq_true.2 ⟨x, hx, e⟩
    simp [targetError?, ho, this] at h
  · intro ho n hn x hx
    cases hf : t.firstOutside? a.source targets with
    | none =>
      have := List.find?_eq_none.1 hf x hx
      simpa [hn] using this
    | some y => simp [targetError?, ho, hf] at h

/-! ### The tables of a laid out definition -/

namespace Outline.Laid

variable {above : List NodeId} {c' : Cursor} {roots : List NodeId} {o : Outline} {nodes : NodeTable}

/-- The nodes of a layout that begins at zero are those of its table. -/
theorem node_mem (h : Laid above Definition.startCursor roots o c') (hn : nodes = o.nodes.toArray)
    {i : NodeId} (hi : i < nodes.size) : nodes.node i ∈ o.nodes ∧ (nodes.node i).index = i := by
  subst hn
  have hi' : i < o.nodes.length := by simpa using hi
  have e : NodeTable.node o.nodes.toArray i = o.nodes[i] := by
    simp [NodeTable.node, List.getElem?_eq_getElem hi']
  have hx : (o.nodes.map Node.index)[i]? = (List.range' 0 o.nodes.length)[i]? := by
    rw [h.indices]
    rfl
  rw [List.getElem?_map, List.getElem?_eq_getElem hi', List.getElem?_range' hi'] at hx
  rw [e]
  exact ⟨List.getElem_mem hi', by simpa using hx⟩

theorem node_index (h : Laid above Definition.startCursor roots o c') (hn : nodes = o.nodes.toArray)
    {n : Node} (hm : n ∈ o.nodes) : n.index < nodes.size ∧ nodes.node n.index = n := by
  obtain ⟨i, hi, rfl⟩ := List.getElem_of_mem hm
  have hi' : i < nodes.size := by subst hn; simpa using hi
  obtain ⟨-, hx⟩ := h.node_mem hn hi'
  have e : nodes.node i = o.nodes[i] := by
    subst hn
    simp [NodeTable.node, List.getElem?_eq_getElem hi]
  rw [e] at hx
  exact ⟨by rw [hx]; exact hi', by rw [hx]; exact e⟩

end Outline.Laid

namespace NodeTable

theorem node_of_le {t : NodeTable} {i : NodeId} (h : t.size ≤ i) : t.node i = default := by
  simp [node, Array.getElem?_eq_none h]

theorem lt_of_ne_default {t : NodeTable} {i : NodeId} (h : t.node i ≠ default) : i < t.size :=
  Nat.lt_of_not_le fun hle => h (node_of_le hle)

/-! A node that says anything of itself is in the table. -/

section
variable {t : NodeTable} {i j : NodeId}

theorem lt_size_of_parent (h : (t.node i).parent = some j) : i < t.size :=
  lt_of_ne_default fun e => by
    rw [e] at h
    cases h

theorem lt_size_of_ancestor (h : j ∈ (t.node i).ancestors) : i < t.size :=
  lt_of_ne_default fun e => by
    rw [e] at h
    cases h

theorem lt_size_of_child (h : j ∈ (t.node i).children) : i < t.size :=
  lt_of_ne_default fun e => by
    rw [e] at h
    cases h

theorem lt_size_of_history (h : j ∈ (t.node i).histories) : i < t.size :=
  lt_of_ne_default fun e => by
    rw [e] at h
    cases h

theorem lt_size_of_transition {k : TransitionId} (h : k ∈ (t.node i).transitions) : i < t.size :=
  lt_of_ne_default fun e => by
    rw [e] at h
    cases h

theorem lt_size_of_initial {k : TransitionId} (h : (t.node i).initial = some k) : i < t.size :=
  lt_of_ne_default fun e => by
    rw [e] at h
    cases h

theorem lt_size_of_invoke {k : InvokeId} (h : k ∈ (t.node i).invokes) : i < t.size :=
  lt_of_ne_default fun e => by
    rw [e] at h
    cases h

theorem lt_size_of_compound (h : (t.node i).isCompound = true) : i < t.size :=
  lt_of_ne_default fun e => by
    rw [e] at h
    cases h

end
end NodeTable

namespace Outline.Laid

variable {c' : Cursor} {roots : List NodeId} {o : Outline} {nodes : NodeTable}

/-- A node with a parent is under it. -/
theorem under (h : Laid [] Definition.startCursor roots o c') (hn : nodes = o.nodes.toArray)
    {i p : NodeId} (hp : (nodes.node i).parent = some p) : (nodes.node p).Under (nodes.node i) := by
  have hi : i < nodes.size := NodeTable.lt_size_of_parent hp
  obtain ⟨hm, -⟩ := h.node_mem hn hi
  rcases h.placed _ hm with ⟨-, -, hr, -⟩ | ⟨q, hq, hu⟩
  · rw [hp] at hr; cases hr
  · have e : q.index = p := Option.some.inj (hu.parent.symm.trans hp)
    have := (h.node_index hn hq).2
    rw [e] at this
    rwa [this]

/-- A node without a parent is at the top. -/
theorem at_top (h : Laid [] Definition.startCursor roots o c') (hn : nodes = o.nodes.toArray)
    {i : NodeId} (hi : i < nodes.size) (hp : (nodes.node i).parent = none) :
    i ∈ roots ∧ (nodes.node i).ancestors = [] := by
  obtain ⟨hm, hx⟩ := h.node_mem hn hi
  rcases h.placed _ hm with ⟨hr, -, -, ha⟩ | ⟨q, hq, hu⟩
  · exact ⟨hx ▸ hr, ha⟩
  · rw [hu.parent] at hp; cases hp

/-- The children of a node are the states that name it as their parent. -/
theorem mem_children (h : Laid [] Definition.startCursor roots o c') (hn : nodes = o.nodes.toArray)
    {p m : NodeId} : m ∈ (nodes.node p).children ↔
      (nodes.node m).parent = some p ∧ (nodes.node m).isHistory = false := by
  constructor
  · intro hm
    have hp : p < nodes.size := NodeTable.lt_size_of_child hm
    obtain ⟨hq, hx⟩ := h.node_mem hn hp
    obtain ⟨n, hn', rfl, hu, hk⟩ := h.children _ hq m hm
    rw [(h.node_index hn hn').2]
    exact ⟨hx ▸ hu.parent, hk⟩
  · rintro ⟨hp, hk⟩
    have hm : m < nodes.size := NodeTable.lt_size_of_parent hp
    have := (h.under hn hp).child hk
    rwa [(h.node_mem hn hm).2] at this

/-- The histories of a node are those that name it as their parent. -/
theorem mem_histories (h : Laid [] Definition.startCursor roots o c') (hn : nodes = o.nodes.toArray)
    {p m : NodeId} : m ∈ (nodes.node p).histories ↔
      (nodes.node m).parent = some p ∧ (nodes.node m).isHistory = true := by
  constructor
  · intro hm
    have hp : p < nodes.size := NodeTable.lt_size_of_history hm
    obtain ⟨hq, hx⟩ := h.node_mem hn hp
    obtain ⟨n, hn', rfl, hu, hk⟩ := h.histories _ hq m hm
    rw [(h.node_index hn hn').2]
    exact ⟨hx ▸ hu.parent, hk⟩
  · rintro ⟨hp, hk⟩
    have hm : m < nodes.size := NodeTable.lt_size_of_parent hp
    have := (h.under hn hp).history hk
    rwa [(h.node_mem hn hm).2] at this

/-- The nodes at the top are those without a parent. -/
theorem mem_top (h : Laid [] Definition.startCursor roots o c') (hn : nodes = o.nodes.toArray)
    {m : NodeId} : m ∈ roots ↔ m < nodes.size ∧ (nodes.node m).parent = none := by
  constructor
  · intro hm
    obtain ⟨n, hmem, rfl, -, hp, -⟩ := h.rooted m hm
    obtain ⟨hlt, he⟩ := h.node_index hn hmem
    exact ⟨hlt, he.symm ▸ hp⟩
  · rintro ⟨hm, hp⟩
    exact (h.at_top hn hm hp).1

/-- A parent knows its own index. -/
theorem parent_index (h : Laid [] Definition.startCursor roots o c') (hn : nodes = o.nodes.toArray)
    {i p : NodeId} (hp : (nodes.node i).parent = some p) : (nodes.node p).index = p :=
  Option.some.inj ((h.under hn hp).parent.symm.trans hp)

/-- Parents come first. -/
theorem parent_lt (h : Laid [] Definition.startCursor roots o c') (hn : nodes = o.nodes.toArray)
    {i p : NodeId} (hp : (nodes.node i).parent = some p) : p < i := by
  have hi : i < nodes.size := NodeTable.lt_size_of_parent hp
  have hlt := (h.under hn hp).lt
  rwa [(h.node_mem hn hi).2, h.parent_index hn hp] at hlt

theorem ancestors_none (h : Laid [] Definition.startCursor roots o c') (hn : nodes = o.nodes.toArray)
    {i : NodeId} (hp : (nodes.node i).parent = none) : (nodes.node i).ancestors = [] := by
  by_cases hi : i < nodes.size
  · exact (h.at_top hn hi hp).2
  · rw [NodeTable.node_of_le (Nat.le_of_not_lt hi)]
    rfl

theorem ancestors_some (h : Laid [] Definition.startCursor roots o c') (hn : nodes = o.nodes.toArray)
    {i p : NodeId} (hp : (nodes.node i).parent = some p) :
    (nodes.node i).ancestors = p :: (nodes.node p).ancestors := by
  have ha := (h.under hn hp).ancestors
  rwa [h.parent_index hn hp] at ha

theorem shaped_node (h : Laid [] Definition.startCursor roots o c') (hn : nodes = o.nodes.toArray)
    (i : NodeId) : (nodes.node i).Shaped := by
  by_cases hi : i < nodes.size
  · exact h.shaped _ (h.node_mem hn hi).1
  · rw [NodeTable.node_of_le (Nat.le_of_not_lt hi)]
    constructor <;> intro hd <;> cases hd

end Outline.Laid

/-! ### From the layout to the chart -/

/-- Whether targets are nodes of a table, each named once, of which any two can be active together. -/
structure NodeTable.Targetable (t : NodeTable) (targets : List NodeId) : Prop where
  nodup : targets.Nodup
  lt_size : ∀ x ∈ targets, x < t.size
  compatible : targets.Pairwise fun a b => t.compatible a b = true

theorem NodeTable.Targetable.nil {t : NodeTable} : t.Targetable [] where
  nodup := List.nodup_nil
  lt_size _ hx := nomatch hx
  compatible := .nil

namespace Chart

/-- A laid out chart whose transitions are completed arrows is well formed if they come from the states
    that list them, and what has to be entered has somewhere to begin. -/
theorem wellFormed_of_laid {c : Chart} {o : Outline} {c' : Cursor}
    (hl : Outline.Laid [] Definition.startCursor c.children o c') (hn : c.nodes = o.nodes.toArray)
    (complete : ∀ t, c.transition t = default ∨
      ∃ (a : Arrow) (ts : List NodeId), c.nodes.Targetable ts ∧ c.transition t = a.complete c.nodes ts)
    (source_eq : ∀ {n t}, t ∈ (c.node n).transitions →
      (c.transition t).source = some n ∧ (c.transition t).origin = .event)
    (initial : ∀ {n}, (c.node n).isCompound = true → ∃ t, (c.node n).initial = some t ∧
      (c.transition t).targets ≠ [] ∧
      ∀ x ∈ (c.transition t).targets, c.descends x n = true ∧ (c.node x).isHistory = false)
    (default : ∀ {h p kind}, (c.node h).kind = .history kind → (c.node h).parent = some p →
      ∃ t, (c.node h).initial = some t ∧ (c.transition t).targets ≠ [] ∧
        ∀ x ∈ (c.transition t).targets, c.nodes.historyCovers kind p x = true)
    (start : (c.transition c.initial).source = none ∧ (c.transition c.initial).targets ≠ [] ∧
      ∀ x ∈ (c.transition c.initial).targets, (c.node x).isHistory = false) : c.WellFormed := by
  have targetable (t : TransitionId) : c.nodes.Targetable (c.transition t).targets := by
    rcases complete t with e | ⟨a, ts, h, e⟩
    · rw [e]
      exact .nil
    · rw [e]
      exact h
  constructor
  case index_eq => exact fun hi => (hl.node_mem hn hi).2
  case parent_lt => exact hl.parent_lt hn
  case parent_state => exact fun hp => (hl.under hn hp).state
  case ancestors_none => exact hl.ancestors_none hn
  case ancestors_some => exact hl.ancestors_some hn
  case mem_children => exact hl.mem_children hn
  case mem_histories => exact hl.mem_histories hn
  case mem_top => exact hl.mem_top hn
  case shaped => exact hl.shaped_node hn
  case source_eq => exact source_eq
  case initial => exact initial
  case default => exact default
  case start => exact start
  case target_lt => exact fun {t x} hx => (targetable t).lt_size x hx
  case targets_nodup => exact fun t => (targetable t).nodup
  case compatible => exact fun t => (targetable t).compatible
  case internal_eq =>
    intro t
    rcases complete t with e | ⟨a, ts, -, e⟩ <;> rw [e] <;> rfl
  case domain_eq =>
    intro t
    rcases complete t with e | ⟨a, ts, -, e⟩ <;> rw [e] <;> rfl

/-- How a chart comes from a definition: states are laid out in tables, arrows are completed with the
    targets that their names stand for, behind them the one with which the chart starts, and nothing is
    wrong with any of it. -/
structure Built (c : Chart) (name : String) (version : Nat) (d : Definition) (o : Outline) (k : Cursor)
    (targets : List (List NodeId)) : Prop where
  label : c.name = name ∧ c.version = version
  definition : c.definition = d
  checksum : c.checksum = Checksum.ofText d.document.text
  states : d.states ≠ []
  checked : ∃ taken, StateDef.checkAll [] d.states = .ok taken
  outline : StateDef.outlineAll [] Definition.startCursor d.states = (c.children, o, k)
  nodes : c.nodes = o.nodes.toArray
  invokes : c.invokes = o.invokes.toArray
  initial : c.initial = o.arrows.length
  resolved : resolveAll c.nodes (o.arrows ++ [d.initialArrow]) = .ok targets
  transitions : c.transitions = (((o.arrows ++ [d.initialArrow]).zip targets).map fun p =>
    p.1.complete c.nodes p.2).toArray
  sound : firstError? c.nodes ((o.arrows ++ [d.initialArrow]).zip targets) o.invokes = none

/-- Compiling goes through all its checks. -/
theorem built_of_compile {name : String} {version : Nat} {d : Definition} {c : Chart}
    (h : compile name version d = .ok c) : ∃ o k targets, c.Built name version d o k targets := by
  unfold compile at h
  split at h
  · cases h
  rename_i hne
  split at h
  · cases h
  rename_i taken hc
  simp only [Definition.outline] at h
  split at h
  · cases h
  rename_i targets hr
  split at h
  · cases h
  rename_i he
  cases h
  exact ⟨_, _, targets, ⟨rfl, rfl⟩, rfl, rfl, by simpa using hne, ⟨taken, hc⟩, rfl, rfl, rfl, by simp,
    hr, rfl, he⟩

namespace Built

variable {c : Chart} {name : String} {version : Nat} {d : Definition} {o : Outline} {k : Cursor}
  {targets : List (List NodeId)} {i : TransitionId} {a : Arrow} {n p : NodeId}

theorem laid (h : c.Built name version d o k targets) :
    Outline.Laid [] Definition.startCursor c.children o k := by
  obtain ⟨taken, hc⟩ := h.checked
  have := StateDef.laid_outlineAll [] Definition.startCursor d.states hc
  rwa [h.outline] at this

/-- Every arrow becomes the transition in its place. -/
theorem complete_arrow (h : c.Built name version d o k targets)
    (ha : (o.arrows ++ [d.initialArrow])[i]? = some a) :
    ∃ ts, ((o.arrows ++ [d.initialArrow]).zip targets)[i]? = some (a, ts) ∧
      a.resolve c.nodes = .ok ts ∧ c.transition i = a.complete c.nodes ts := by
  obtain ⟨hi, rfl⟩ := List.getElem?_eq_some_iff.1 ha
  obtain ⟨ts, ht, hres⟩ := (of_resolveAll h.resolved).2 i hi
  have hz : ((o.arrows ++ [d.initialArrow]).zip targets)[i]? = some (_, ts) :=
    List.getElem?_zip_eq_some.2 ⟨ha, ht⟩
  exact ⟨ts, hz, hres, by simp [Chart.transition, h.transitions, hz]⟩

/-- The arrows of the layout stand in front. -/
theorem getElem?_arrows (d : Definition) (ha : o.arrows[i]? = some a) :
    (o.arrows ++ [d.initialArrow])[i]? = some a := by
  rw [List.getElem?_append_left (List.getElem?_eq_some_iff.1 ha).1, ha]

/-- They become transitions. -/
theorem complete (h : c.Built name version d o k targets) (ha : o.arrows[i]? = some a) :
    ∃ ts, a.resolve c.nodes = .ok ts ∧ c.transition i = a.complete c.nodes ts := by
  obtain ⟨ts, -, h⟩ := h.complete_arrow (getElem?_arrows d ha)
  exact ⟨ts, h⟩

theorem size_transitions (h : c.Built name version d o k targets) :
    c.transitions.size = o.arrows.length + 1 := by
  simp [h.transitions, (of_resolveAll h.resolved).1]

/-- A transition keeps the order of the arrow it comes from. -/
theorem order_eq (h : c.Built name version d o k targets) (ha : o.arrows[i]? = some a) :
    (c.transition i).order = a.order := by
  obtain ⟨ts, -, he⟩ := h.complete ha
  rw [he]
  rfl

/-- Nothing is wrong with any transition or any history. -/
theorem sound_parts (h : c.Built name version d o k targets) :
    (∀ p ∈ (o.arrows ++ [d.initialArrow]).zip targets, c.nodes.targetError? p.1 p.2 = none) ∧
      ∀ n ∈ o.nodes, c.nodes.historyError? (fun i =>
        (((o.arrows ++ [d.initialArrow]).zip targets)[i]?.map Prod.snd).getD []) n = none := by
  have he := h.sound
  simp only [firstError?] at he
  split at he
  · cases he
  rename_i ht
  split at he
  · cases he
  rename_i hh
  refine ⟨fun p hp => List.findSome?_eq_none_iff.1 ht p hp, fun n hn => ?_⟩
  exact List.findSome?_eq_none_iff.1 hh n (by simpa [h.nodes] using hn)

/-- Every transition comes from an arrow that leads to nodes of the chart, but for those that are not
    there. -/
theorem transition_complete (h : c.Built name version d o k targets) (i : TransitionId) :
    c.transition i = default ∨ ∃ (a : Arrow) (ts : List NodeId), c.nodes.Targetable ts ∧
      c.transition i = a.complete c.nodes ts := by
  cases ha : (o.arrows ++ [d.initialArrow])[i]? with
  | none =>
    have hz : ((o.arrows ++ [d.initialArrow]).zip targets)[i]? = none := by
      simp only [List.getElem?_eq_none_iff, List.length_zip] at ha ⊢
      omega
    exact .inl (by simp [Chart.transition, h.transitions, hz])
  | some a =>
    obtain ⟨ts, hz, hr, ht⟩ := h.complete_arrow ha
    obtain ⟨hnodup, hlt, -⟩ := Arrow.of_resolve hr
    have hv := h.sound_parts.1 (a, ts) (List.mem_of_getElem? hz)
    exact .inr ⟨a, ts, ⟨hnodup, hlt, (NodeTable.of_targetError? hv).1⟩, ht⟩

/-- The transition that an arrow of the layout stands for. One that is not for an event leads
    somewhere. -/
theorem of_stands (h : c.Built name version d o k targets) {origin : Origin} {source : Option NodeId}
    (hs : Arrow.Stands o.arrows Definition.startCursor.transition i origin source) :
    ∃ (a : Arrow) (ts : List NodeId),
      ((o.arrows ++ [d.initialArrow]).zip targets)[i]? = some (a, ts) ∧
      c.transition i = a.complete c.nodes ts ∧ a.origin = origin ∧ a.source = source ∧
      c.nodes.targetError? a ts = none ∧ (origin = .event ∨ ts ≠ []) := by
  obtain ⟨a, ha, ho, hsource, hne⟩ := hs
  obtain ⟨ts, hz, hr, ht⟩ := h.complete_arrow (getElem?_arrows d (List.mk_mem_zipIdx_iff_getElem?.1 ha))
  exact ⟨a, ts, hz, ht, ho, hsource, h.sound_parts.1 (a, ts) (List.mem_of_getElem? hz),
    hne.imp_right (Arrow.of_resolve hr).2.2⟩

theorem source_eq (h : c.Built name version d o k targets) (ht : i ∈ (c.node n).transitions) :
    (c.transition i).source = some n ∧ (c.transition i).origin = .event := by
  obtain ⟨hm, hx⟩ := h.laid.node_mem h.nodes (NodeTable.lt_size_of_transition ht)
  obtain ⟨a, ts, -, he, ho, hs, -⟩ := h.of_stands (h.laid.events _ hm i ht)
  rw [he]
  exact ⟨hs.trans (congrArg some hx), ho⟩

/-- Compound states start with states below them. -/
theorem exists_initial (h : c.Built name version d o k targets) (hc : (c.node n).isCompound = true) :
    ∃ t, (c.node n).initial = some t ∧ (c.transition t).targets ≠ [] ∧
      ∀ x ∈ (c.transition t).targets, c.descends x n = true ∧ (c.node x).isHistory = false := by
  obtain ⟨hm, hx⟩ := h.laid.node_mem h.nodes (NodeTable.lt_size_of_compound hc)
  obtain ⟨t, ht, hst⟩ := h.laid.initials _ hm hc
  obtain ⟨a, ts, -, he, ho, hs, hv, hne⟩ := h.of_stands hst
  refine ⟨t, ht, ?_, ?_⟩
  · rw [he]
    exact hne.resolve_left (by simp)
  · rw [he]
    exact (NodeTable.of_targetError? hv).2.2 ho n (hs.trans (congrArg some hx))

/-- Histories stand for states that they cover as long as nothing is recorded. -/
theorem exists_default (h : c.Built name version d o k targets) {kind : HistoryKind}
    (hk : (c.node n).kind = .history kind) (hp : (c.node n).parent = some p) :
    ∃ t, (c.node n).initial = some t ∧ (c.transition t).targets ≠ [] ∧
      ∀ x ∈ (c.transition t).targets, c.nodes.historyCovers kind p x = true := by
  obtain ⟨hm, -⟩ := h.laid.node_mem h.nodes (NodeTable.lt_size_of_parent hp)
  change (c.nodes.node n).kind = _ at hk
  change (c.nodes.node n).parent = _ at hp
  obtain ⟨t, ht, hst⟩ := h.laid.defaults _ hm (by rw [Node.isHistory, hk])
  obtain ⟨a, ts, hz, he, -, -, -, hne⟩ := h.of_stands hst
  refine ⟨t, ht, ?_, fun x hx => ?_⟩
  · rw [he]
    exact hne.resolve_left (by simp)
  · rw [he] at hx
    have hv := h.sound_parts.2 _ hm
    unfold NodeTable.historyError? at hv
    rw [hk, hp, ht] at hv
    simp only [Option.map_eq_none_iff, List.find?_eq_none, hz] at hv
    simpa using hv x hx

/-- The chart starts with states. -/
theorem start (h : c.Built name version d o k targets) : (c.transition c.initial).source = none ∧
    (c.transition c.initial).targets ≠ [] ∧
      ∀ x ∈ (c.transition c.initial).targets, (c.node x).isHistory = false := by
  obtain ⟨ts, hz, hr, he⟩ := h.complete_arrow (i := c.initial) (a := d.initialArrow)
    (by simp [h.initial])
  have hv := h.sound_parts.1 _ (List.mem_of_getElem? hz)
  rw [he]
  refine ⟨rfl, (Arrow.of_resolve hr).2.2 ?_, (NodeTable.of_targetError? hv).2.1 rfl⟩
  obtain ⟨s, ss, e⟩ := List.exists_cons_of_ne_nil h.states
  show d.initialTargets ≠ []
  unfold Definition.initialTargets
  split
  · simp [e]
  · rename_i hi
    simpa using hi

theorem wellFormed (h : c.Built name version d o k targets) : c.WellFormed :=
  wellFormed_of_laid h.laid h.nodes h.transition_complete h.source_eq h.exists_initial
    h.exists_default h.start

end Built

/-- Charts that a definition compiles to are well formed. -/
theorem wellFormed_of_compile {name : String} {version : Nat} {d : Definition} {c : Chart}
    (h : compile name version d = .ok c) : c.WellFormed := by
  obtain ⟨o, k, targets, hb⟩ := built_of_compile h
  exact hb.wellFormed

/-- A chart that loads is compiled from a definition. -/
theorem compile_of_load {name : String} {version : Nat} {v : Value} {c : Chart}
    (h : load name version v = .ok c) : ∃ d, compile name version d = .ok c := by
  unfold load at h
  split at h
  · cases h
  split at h
  · cases h
  split at h
  · cases h
  rename_i c' hc
  cases h
  exact ⟨_, hc⟩

/-- Charts that load are well formed. -/
theorem wellFormed_of_load {name : String} {version : Nat} {v : Value} {c : Chart}
    (h : load name version v = .ok c) : c.WellFormed :=
  wellFormed_of_compile (compile_of_load h).choose_spec

/-- What has a value is that value. -/
theorem eq_ok_of_toOption {ε α : Type} {x : Except ε α} {a : α} (h : x.toOption = some a) :
    x = .ok a := by
  cases x with
  | ok b => exact congrArg _ (Option.some.inj h)
  | error e => cases h

/-- The chart of a value that loads. -/
theorem load_eq_ok {name : String} {version : Nat} {v : Value}
    (h : (load name version v).toOption.isSome = true) :
    load name version v = .ok ((load name version v).toOption.get h) :=
  eq_ok_of_toOption (Option.some_get h).symm

end Chart

end Statechart
