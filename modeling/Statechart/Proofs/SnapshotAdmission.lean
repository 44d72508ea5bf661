import Statechart.Proofs.ConfigurationTrees
import Statechart.Proofs.RoundTrip

/-! Which configurations a snapshot may have.

    The check of a snapshot counts active children state by state, over the leaves that the snapshot
    names and everything above them. What passes are exactly the leaves of the trees that grow from one
    state at the top, one child of every compound state and all children of every parallel one; the
    state at the top may be a final one if the machine has stopped, and a machine that has stopped may
    have no active state at all. -/

namespace Statechart

open Chart Session

namespace Store

variable {c : Chart} {snap : Snapshot} {running : Bool} {L : NodeSet} {K : List NodeId}
  {m n top : NodeId}

/-! ### Names -/

/-- Names of leaves are read as the leaves they are the names of. -/
theorem resolveLeaves_of_atomic : ∀ {ids : List String},
    (∀ id ∈ ids, ∃ n, c.find? id = some n ∧ (c.node n).isAtomic = true) →
    ∃ L, resolveLeaves c ids = .ok L ∧ ∀ n, n ∈ L ↔ ∃ id ∈ ids, c.find? id = some n
  | [], _ => ⟨[], rfl, by simp⟩
  | id :: ids, h => by
    obtain ⟨⟨n, hn, ha⟩, hids⟩ := List.forall_mem_cons.1 h
    obtain ⟨L, hL, hmem⟩ := resolveLeaves_of_atomic hids
    refine ⟨NodeSet.insert n L, ?_, fun m => ?_⟩
    · rw [resolveLeaves, resolve_eq_ok.2 hn]
      simp only [ha, if_true, hL, Except.map]
    · rw [NodeSet.mem_insert, hmem]
      simp [hn, eq_comm]

/-- Only names of leaves are read. -/
theorem atomic_of_resolveLeaves : ∀ {ids : List String} {L : NodeSet},
    resolveLeaves c ids = .ok L →
    ∀ id ∈ ids, ∃ n, c.find? id = some n ∧ (c.node n).isAtomic = true
  | [], _, _ => by simp
  | id :: ids, L, h => by
    rw [resolveLeaves] at h
    split at h
    · cases h
    rename_i n hn
    split at h
    case isFalse => cases h
    rename_i ha
    refine List.forall_mem_cons.2 ⟨⟨n, resolve_eq_ok.1 hn, ha⟩, ?_⟩
    cases hrest : resolveLeaves c ids with
    | error e =>
      rw [hrest] at h
      cases h
    | ok rest => exact atomic_of_resolveLeaves hrest

/-! ### What passes is the leaves of a tree -/

section

variable (hc : c.WellFormed)

include hc

/-- Whatever the leaves of a tree from the top cover lies within the state from which it grows. -/
theorem within_of_grown (htop : top ∈ c.children) (hK : c.Grown top K) (hm : c.Covers K m) :
    c.Within m top := by
  obtain ⟨l, hl, hlm⟩ := hm
  obtain ⟨r, hmr, hr⟩ := hc.exists_top m
  have hlt := ((hc.leaves_of_grown hK).2 l hl).2
  rwa [hc.eq_of_within (hr.trans (hc.mem_top.1 htop).2.symm) (hc.within_trans hlm hmr) hlt] at hmr

/-- The leaves of a tree from the top cover one state at the top. -/
theorem coversOne_of_grown (htop : top ∈ c.children) (hK : c.Grown top K) :
    c.CoversOne K c.children := by
  refine ⟨top, htop, hc.covers_of_grown hK, fun m hm hcov => ?_⟩
  have hp := (hc.mem_top.1 hm).2.trans (hc.mem_top.1 htop).2.symm
  exact hc.eq_of_within hp (.refl m) (within_of_grown hc htop hK hcov)

/-- A final state at the top is all that its tree covers. -/
theorem eq_of_grown_final (htop : top ∈ c.children) (hf : (c.node top).isAtomic = true)
    (hK : c.Grown top K) (hm : c.Covers K m) : m = top := by
  obtain ⟨l, hl, hlm⟩ := hm
  obtain ⟨ha, hlt⟩ := (hc.leaves_of_grown hK).2 l hl
  obtain rfl := hc.eq_of_within_atomic hlt hf (WellFormed.not_history_of_atomic ha)
  exact hc.within_antisymm (within_of_grown hc htop hK ⟨l, hl, hlm⟩) hlm

/-- The leaves of a tree from the top are a configuration; of a machine that has stopped if the state at
    the top is a final one. -/
theorem passes_of_grown (hn : c.Named) (htop : top ∈ c.children) (hK : c.Grown top K)
    (hmem : ∀ n, n ∈ K ↔ n ∈ L) (hrun : (c.node top).isFinal = true → running = false) :
    configurationError? c L running = none := by
  have hcov {m : NodeId} : c.Covers L m ↔ c.Covers K m := by simp only [Covers, hmem]
  refine configurationError?_of_branches hn ?_ fun n hcn => ⟨?_, fun hfin => ?_⟩
  · obtain ⟨m, hm, hmK, huniq⟩ := coversOne_of_grown hc htop hK
    exact ⟨m, hm, hcov.2 hmK, fun k hk hkL => huniq k hk (hcov.1 hkL)⟩
  · have hnK := hcov.1 hcn
    exact hc.branches_congr (fun l _ => hmem l)
      (hc.branches_of_grown hK (within_of_grown hc htop hK hnK) hnK)
  · obtain ⟨ha, hp⟩ := WellFormed.atomic_of_topLevelFinal hfin
    have hntop := within_of_grown hc htop hK (hcov.1 hcn)
    obtain rfl := hc.eq_of_within (hp.trans (hc.mem_top.1 htop).2.symm) (.refl n) hntop
    have hsingle : c.closure L = [n] := by
      refine NodeSet.eq_singleton (NodeSet.nodup_of_pairwise (pairwise_closure c L))
        (mem_closure_iff_covers.2 hcn) fun m hm => ?_
      exact eq_of_grown_final hc htop ha hK (hcov.1 (mem_closure_iff_covers.1 hm))
    rw [Node.isTopLevelFinal, Bool.and_eq_true] at hfin
    exact ⟨by rw [hsingle]; rfl, hrun hfin.1⟩

/-- A set of leaves passes the check if it is the leaves of a tree from the top. -/
theorem passes_iff_grown (hn : c.Named)
    (hL : ∀ l ∈ L, l < c.nodes.size ∧ (c.node l).isAtomic = true) :
    configurationError? c L running = none ↔ (L = [] ∧ running = false) ∨
      ∃ top ∈ c.children, ∃ K, c.Grown top K ∧ (∀ n, n ∈ K ↔ n ∈ L) ∧
        ((c.node top).isFinal = true → running = false) := by
  constructor
  · intro h
    rcases of_configurationError? h with h | ⟨⟨top, htop, hcov, huniq⟩, hbr⟩
    · exact .inl h
    obtain ⟨K, hK, hmem⟩ := hc.spanned_of_branches (fun l hl => (hL l hl).2)
      (fun m hm => (hbr m hm).1) hcov
    refine .inr ⟨top, htop, K, hK, fun l => ?_, fun hf => ?_⟩
    · refine (hmem l).trans ⟨And.left, fun hl => ⟨hl, ?_⟩⟩
      obtain ⟨r, hlr, hr⟩ := hc.exists_top l
      have hrtop : r ∈ c.children :=
        hc.mem_top.2 ⟨Nat.lt_of_le_of_lt (hc.le_of_within hlr) (hL l hl).1, hr⟩
      exact huniq r hrtop ⟨l, hl, hlr⟩ ▸ hlr
    · refine ((hbr top hcov).2 ?_).2
      rw [Node.isTopLevelFinal, hf, (hc.mem_top.1 htop).2]
      rfl
  · rintro (⟨rfl, rfl⟩ | ⟨top, htop, K, hK, hmem, hrun⟩)
    · rfl
    · exact passes_of_grown hc hn htop hK hmem hrun

end

/-- A snapshot that fits the chart and holds neither histories nor variables of states is restored if its
    leaves pass the check. -/
theorem restore_iff (hsum : snap.checksum = c.checksum) (hh : snap.histories = [])
    (hx : snap.contexts = []) : (∃ s, restore c snap = .ok s) ↔
      ∃ L, resolveLeaves c snap.configuration = .ok L ∧
        configurationError? c L snap.running = none := by
  constructor
  · rintro ⟨s, hs⟩
    exact ⟨s.leaves, of_restore hs⟩
  · rintro ⟨L, hL, hpass⟩
    exact ⟨_, restore_eq_ok hsum hL hpass (by rw [hh]; rfl) (by rw [hx]; rfl)⟩

/-- On every chart that loads, a snapshot that fits the chart and holds neither histories nor variables
    of states is restored if and only if its entries name leaves, and either there are none and the
    machine has stopped, or they are the leaves of a tree from a state at the top, with the machine
    stopped if that state is a final one. -/
theorem restore_iff_grown {name : String} {version : Nat} {v : Value}
    (hload : Chart.load name version v = .ok c) (hsum : snap.checksum = c.checksum)
    (hh : snap.histories = []) (hx : snap.contexts = []) :
    (∃ s, restore c snap = .ok s) ↔
      (∀ id ∈ snap.configuration, ∃ n, c.find? id = some n ∧ (c.node n).isAtomic = true) ∧
        ((snap.configuration = [] ∧ snap.running = false) ∨
          ∃ top ∈ c.children, ∃ K, c.Grown top K ∧
            (∀ n, n ∈ K ↔ ∃ id ∈ snap.configuration, c.find? id = some n) ∧
            ((c.node top).isFinal = true → snap.running = false)) := by
  have hc := wellFormed_of_load hload
  have hn := named_of_load hload
  rw [restore_iff hsum hh hx]
  constructor
  · rintro ⟨L, hL, hpass⟩
    have hatom := atomic_of_resolveLeaves hL
    obtain ⟨L', hL', hmem⟩ := resolveLeaves_of_atomic hatom
    rw [hL] at hL'
    cases hL'
    refine ⟨hatom, ?_⟩
    rcases (passes_iff_grown hc hn (of_resolveLeaves hL).2).1 hpass with ⟨rfl, hrun⟩ | h
    · refine .inl ⟨List.eq_nil_iff_forall_not_mem.2 fun id hid => ?_, hrun⟩
      obtain ⟨n, hid', -⟩ := hatom id hid
      exact absurd ((hmem n).2 ⟨id, hid, hid'⟩) List.not_mem_nil
    · simp only [hmem] at h
      exact .inr h
  · rintro ⟨hatom, h⟩
    obtain ⟨L, hL, hmem⟩ := resolveLeaves_of_atomic hatom
    refine ⟨L, hL, (passes_iff_grown hc hn (of_resolveLeaves hL).2).2 ?_⟩
    rcases h with ⟨hnil, hrun⟩ | h
    · refine .inl ⟨List.eq_nil_iff_forall_not_mem.2 fun n hin => ?_, hrun⟩
      obtain ⟨id, hid, -⟩ := (hmem n).1 hin
      rw [hnil] at hid
      cases hid
    · simp only [← hmem] at h
      exact .inr h

/-- A snapshot of the lamp when it is bright. -/
def lampLit : Snapshot :=
  { chart := "lamp", version := 1, checksum := lampChart.checksum, sessionId := "desk"
    running := true, configuration := ["Slow", "Bright"], histories := [], contexts := []
    globals := [], createdAt := 0 }

/-- The lamp can be bright: below the state at the top there is a child of each of its two parts. -/
theorem admitted_lampLit : ∃ s, restore lampChart lampLit = .ok s := by
  have hbright : lampChart.find? "Bright" = some 5 := by decide +kernel
  have hslow : lampChart.find? "Slow" = some 7 := by decide +kernel
  have hatom : (lampChart.node 5).isAtomic = true ∧ (lampChart.node 7).isAtomic = true := by
    decide +kernel
  have hparts : (lampChart.node 1).children = [3, 6] := by decide +kernel
  have hbulb : lampChart.Grown 3 [5] :=
    .compound (by decide +kernel) (by decide +kernel) (.leaf hatom.1)
  have hfan : lampChart.Grown 6 [7] :=
    .compound (by decide +kernel) (by decide +kernel) (.leaf hatom.2)
  have htree : lampChart.Grown 1 ([3, 6].flatMap fun m => if m = 3 then [5] else [7]) := by
    rw [← hparts]
    refine .parallel (by decide +kernel) fun m hm => ?_
    rw [hparts, List.mem_pair] at hm
    rcases hm with rfl | rfl
    · exact hbulb
    · exact hfan
  refine (restore_iff_grown load_lamp rfl rfl rfl).2 ⟨?_, .inr ⟨1, by decide +kernel, _, htree, ?_, ?_⟩⟩
  · simp [lampLit, hbright, hslow, hatom]
  · intro n
    simp [lampLit, hbright, hslow, eq_comm, or_comm]
  · decide +kernel

end Store
end Statechart
