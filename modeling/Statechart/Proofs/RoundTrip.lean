import Mathlib.Data.List.Nodup
import Mathlib.Data.List.Perm.Basic
import Statechart.Proofs.Naming
import Statechart.Proofs.Restore
import Statechart.Proofs.StoreInvariants

/-! What a snapshot gives back.

    A snapshot names states where the store has their numbers, in the order of the document or of the
    names. Every node has a name of its own and the tables of a store are in order, so reading the names
    back gives the same tables. A store in a legal configuration passes every check and comes back as it
    was, but for the event in hand, which a snapshot does not have. -/

namespace Statechart

open Chart Session

namespace NodeSet

/-- A set is what is in it. -/
theorem eq_of_perm {s t : NodeSet} (h : s.Perm t) (hs : s.Pairwise (· < ·)) (ht : t.Pairwise (· < ·)) :
    s = t :=
  h.eq_of_pairwise (fun _ _ _ _ hab hba => absurd (Nat.lt_trans hab hba) (Nat.lt_irrefl _)) hs ht

end NodeSet

namespace Dict

/-- A table is what is in it. -/
theorem eq_of_perm {α : Type} {d e : Dict NodeId α} (h : d.Perm e) (hd : (keys d).Pairwise (· < ·))
    (he : (keys e).Pairwise (· < ·)) : d = e :=
  h.eq_of_pairwise (fun _ _ _ _ hab hba => absurd (Nat.lt_trans hab hba) (Nat.lt_irrefl _))
    (List.pairwise_map (f := Prod.fst).1 hd) (List.pairwise_map (f := Prod.fst).1 he)

end Dict

namespace Store

variable {c : Chart} {store : Store} {s₀ s : Session} (hn : c.Named)

include hn

/-! ### Names -/

theorem resolve_node {i : NodeId} (hi : i < c.nodes.size) : resolve c (c.node i).id = .ok i :=
  resolve_eq_ok.2 (hn.find? hi)

/-- Different states have different names. -/
theorem nodup_names {ns : List NodeId} (hns : ns.Nodup) (hlt : ∀ n ∈ ns, n < c.nodes.size) :
    (ns.map fun n => (c.node n).id).Nodup := by
  refine List.Nodup.map_on (fun a ha b hb hab => ?_) hns
  have hfind := hn.find? (hlt a ha)
  rw [hab, hn.find? (hlt b hb)] at hfind
  exact (Option.some.inj hfind).symm

theorem resolveLeaves_names : ∀ {ns : List NodeId}, ns.Nodup →
    (∀ n ∈ ns, n < c.nodes.size ∧ (c.node n).isAtomic = true) →
    ∃ s, resolveLeaves c (ns.map fun n => (c.node n).id) = .ok s ∧ s.Perm ns
  | [], _, _ => ⟨[], rfl, .refl _⟩
  | n :: ns, hns, hall => by
    obtain ⟨hnew, hns⟩ := List.nodup_cons.1 hns
    obtain ⟨s, hs, hperm⟩ := resolveLeaves_names hns fun m hm => hall m (List.mem_cons_of_mem _ hm)
    obtain ⟨hlt, ha⟩ := hall n (by simp)
    refine ⟨NodeSet.insert n s, ?_,
      (NodeSet.insert_perm fun h => hnew (hperm.mem_iff.1 h)).trans (hperm.cons n)⟩
    rw [List.map_cons, resolveLeaves, resolve_node hn hlt]
    simp only [ha, if_true, hs, Except.map]

theorem resolveStates_names : ∀ {ns : List NodeId}, ns.Nodup → (∀ n ∈ ns, n < c.nodes.size) →
    ∃ s, resolveStates c (ns.map fun n => (c.node n).id) = .ok s ∧ s.Perm ns ∧ s.Pairwise (· < ·)
  | [], _, _ => ⟨[], rfl, .refl _, .nil⟩
  | n :: ns, hns, hall => by
    obtain ⟨hnew, hns⟩ := List.nodup_cons.1 hns
    obtain ⟨s, hs, hperm, hsort⟩ :=
      resolveStates_names hns fun m hm => hall m (List.mem_cons_of_mem _ hm)
    refine ⟨NodeSet.insert n s, ?_,
      (NodeSet.insert_perm fun h => hnew (hperm.mem_iff.1 h)).trans (hperm.cons n),
      NodeSet.pairwise_insert hsort⟩
    rw [List.map_cons, resolveStates, resolve_node hn (hall n (by simp))]
    simp only [hs, Except.map]

theorem resolveHistories_names : ∀ {d : List (NodeId × NodeSet)}, (d.map Prod.fst).Nodup →
    (∀ p ∈ d, p.1 < c.nodes.size ∧ (c.node p.1).isHistory = true ∧ p.2.Pairwise (· < ·) ∧
      ∀ n ∈ p.2, n < c.nodes.size) →
    ∃ r, resolveHistories c (d.map fun p => ((c.node p.1).id, p.2.map fun n => (c.node n).id)) = .ok r ∧
      r.Perm d ∧ (Dict.keys r).Pairwise (· < ·)
  | [], _, _ => ⟨[], rfl, .refl _, .nil⟩
  | (h, states) :: d, hd, hall => by
    obtain ⟨hnew, hd⟩ := List.nodup_cons.1 hd
    obtain ⟨r, hr, hperm, hsort⟩ :=
      resolveHistories_names hd fun p hp => hall p (List.mem_cons_of_mem _ hp)
    obtain ⟨hlt, hhist, hstates, hmem⟩ := hall (h, states) (by simp)
    obtain ⟨states', hs, hsperm, hssort⟩ :=
      resolveStates_names hn (NodeSet.nodup_of_pairwise hstates) hmem
    cases NodeSet.eq_of_perm hsperm hssort hstates
    refine ⟨Dict.insert h states r, ?_,
      (Dict.insert_perm fun hm => hnew ((hperm.map Prod.fst).mem_iff.1 hm)).trans (hperm.cons _),
      pairwise_keys_insert hsort⟩
    rw [List.map_cons, resolveHistories, resolve_node hn hlt]
    simp only [hhist, if_true, hs, hr, Except.map]

theorem resolveContexts_names : ∀ {d : List (NodeId × Object)}, (d.map Prod.fst).Nodup →
    (∀ p ∈ d, p.1 < c.nodes.size) →
    ∃ r, resolveContexts c (d.map fun p => ((c.node p.1).id, p.2)) = .ok r ∧ r.Perm d ∧
      (Dict.keys r).Pairwise (· < ·)
  | [], _, _ => ⟨[], rfl, .refl _, .nil⟩
  | (n, vars) :: d, hd, hall => by
    obtain ⟨hnew, hd⟩ := List.nodup_cons.1 hd
    obtain ⟨r, hr, hperm, hsort⟩ :=
      resolveContexts_names hd fun p hp => hall p (List.mem_cons_of_mem _ hp)
    refine ⟨Dict.insert n vars r, ?_,
      (Dict.insert_perm fun hm => hnew ((hperm.map Prod.fst).mem_iff.1 hm)).trans (hperm.cons _),
      pairwise_keys_insert hsort⟩
    rw [List.map_cons, resolveContexts, resolve_node hn (hall (n, vars) (by simp))]
    simp only [hr, Except.map]

/-- A table by name has the entries of the table by number, in the order of the names. -/
theorem exists_named {α β : Type} {f : α → β} {d : Dict NodeId α}
    (hd : (Dict.keys d).Pairwise (· < ·)) (hlt : ∀ n ∈ Dict.keys d, n < c.nodes.size) :
    ∃ e : List (NodeId × α), e.Perm d ∧
      Dict.ofList (d.map fun p => ((c.node p.1).id, f p.2)) =
        e.map fun p => ((c.node p.1).id, f p.2) := by
  have hnodup : ((d.map fun p => ((c.node p.1).id, f p.2)).map Prod.fst).Nodup := by
    rw [List.map_map]
    have := nodup_names hn (NodeSet.nodup_of_pairwise hd) hlt
    rwa [Dict.keys, List.map_map] at this
  obtain ⟨e, he, hperm⟩ : Relation.Comp
      (fun bs (e : List (NodeId × α)) => bs = e.map fun p => ((c.node p.1).id, f p.2)) List.Perm
      (Dict.ofList (d.map fun p => ((c.node p.1).id, f p.2))) d := by
    rw [List.eq_map_comp_perm]
    exact Dict.ofList_perm hnodup
  exact ⟨e, hperm, he⟩

/-! ### The configuration -/

omit hn in
theorem countIn_eq_one {all : NodeSet} {ns : List NodeId} (hns : ns.Pairwise (· < ·))
    (h : ∃ n ∈ ns, n ∈ all ∧ ∀ m ∈ ns, m ∈ all → m = n) : countIn all ns = 1 := by
  obtain ⟨n, hn, hall, huniq⟩ := h
  have hperm : (ns.filter all.contains).Perm [n] := by
    refine (List.perm_ext_iff_of_nodup ((NodeSet.nodup_of_pairwise hns).filter _)
      (List.nodup_singleton n)).2 fun m => ?_
    rw [List.mem_filter, List.contains_iff_mem, List.mem_singleton]
    exact ⟨fun h => huniq m h.1 h.2, fun e => e ▸ ⟨hn, hall⟩⟩
  exact hperm.length_eq

omit hn in
theorem countIn_eq_length {all : NodeSet} {ns : List NodeId} (h : ∀ n ∈ ns, n ∈ all) :
    countIn all ns = ns.length := by
  rw [countIn, List.filter_eq_self.2 fun n hm => by simpa using h n hm]

/-- Leaves that branch everywhere below one state at the top pass the check; a final state at the top
    must be alone and the machine have stopped. -/
theorem configurationError?_of_branches {L : NodeSet} {running : Bool}
    (htop : c.CoversOne L c.children) (hbr : ∀ n, c.Covers L n → c.Branches L n ∧
      ((c.node n).isTopLevelFinal = true → (c.closure L).length = 1 ∧ running = false)) :
    configurationError? c L running = none := by
  have hne : L.isEmpty = false := by
    obtain ⟨n, -, ⟨l, hl, -⟩, -⟩ := htop
    simpa using List.ne_nil_of_mem hl
  have hcount : countIn (c.closure L) c.children = 1 := countIn_eq_one hn.top (coversOne_iff.1 htop)
  simp only [configurationError?, hne, Bool.false_eq_true, if_false, hcount, ne_eq, not_true_eq_false]
  refine List.findSome?_eq_none_iff.2 fun n hm => ?_
  obtain ⟨hb, hfinal⟩ := hbr n (mem_closure_iff_covers.1 hm)
  unfold stateError?
  dsimp only
  split
  · rename_i hf
    obtain ⟨hlength, hrun⟩ := hfinal hf
    simp [hlength, hrun]
  split
  · rename_i hcomp
    have hone := countIn_eq_one (hn.children n) (coversOne_iff.1 (hb.compound hcomp))
    rw [if_neg fun hne => hne hone]
  split
  · rename_i hpar
    have hall := countIn_eq_length fun m hm => mem_closure_iff_covers.2 (hb.parallel hpar m hm)
    rw [if_neg fun hne => hne hall]
  · rfl

/-- A legal configuration passes the check. -/
theorem configurationError?_of_legal (h : store.Legal c) :
    configurationError? c store.leaves true = none := by
  refine configurationError?_of_branches hn (coversOne_iff.2 h.top) fun n hcov => ?_
  have hactive : n ∈ store.active c := mem_closure_iff_covers.2 hcov
  refine ⟨⟨fun hcomp => coversOne_iff.2 (h.compound n hactive hcomp), fun hpar m hm => ?_⟩, fun hf => ?_⟩
  · exact mem_closure_iff_covers.1 (h.parallel n hactive hpar m hm)
  · rw [h.unfinished n hactive] at hf
    cases hf

/-! ### The store -/

/-- Whether histories have recorded sets of states. -/
def Filed (c : Chart) (s : Store) : Prop :=
  ∀ p ∈ s.histories, p.1 < c.nodes.size ∧ (c.node p.1).isHistory = true ∧ p.2.Pairwise (· < ·) ∧
    ∀ n ∈ p.2, n < c.nodes.size

omit hn in
/-- Histories record sets of states. -/
theorem filed_of_chronicle (hc : c.WellFormed) {past : List Stage} {p : Phase}
    (h : Chronicle c s₀ past p s) (ho : s.store.Orderly c) : s.store.Filed c := by
  rintro ⟨k, R⟩ hR
  have hrec : s.store.recorded? k = some R :=
    Dict.get?_of_mem (NodeSet.nodup_of_pairwise ho.records) hR
  obtain ⟨g, hg, n, kind, hk, hp, -, rfl⟩ := h.exists_stage hc hrec
  have hw := (h.of_mem hc g hg).1
  refine ⟨lt_size_of_parent hp, by simp [Node.isHistory, hk], ?_, fun x hx =>
    hc.lt_size_of_descends (recordOf_below hc hw.leaf hx).2⟩
  cases kind with
  | deep => exact hw.sorted.filter _
  | shallow => exact NodeSet.pairwise_ofList _

/-- A running machine's store comes back from its snapshot, but for the event in hand. -/
theorem restore_snapshot (hlegal : store.Legal c) (hsort : store.leaves.Pairwise (· < ·))
    (ho : store.Orderly c) (hfiled : store.Filed c) (hcur : store.Current c) :
    restore c (store.snapshot c true) = .ok { store with event := none } := by
  have hleaves : ∃ s, resolveLeaves c (store.leafNames c) = .ok s ∧ s.Perm store.leaves := by
    have hperm : (c.sortDocument store.leaves).Perm store.leaves := stableSort_perm _ _
    obtain ⟨s, hs, hsperm⟩ := resolveLeaves_names hn
      (hperm.nodup_iff.2 (NodeSet.nodup_of_pairwise hsort))
      fun n hm => hlegal.leaf n (hperm.mem_iff.1 hm)
    exact ⟨s, hs, hsperm.trans hperm⟩
  obtain ⟨leaves, hl, hperm⟩ := hleaves
  cases NodeSet.eq_of_perm hperm (of_resolveLeaves hl).1 hsort
  obtain ⟨e, heperm, he⟩ := exists_named hn (f := fun states => states.map fun n => (c.node n).id)
    ho.records fun n hm => by
      obtain ⟨p, hp, rfl⟩ := List.mem_map.1 hm
      exact (hfiled p hp).1
  obtain ⟨histories, hh, hhperm, hhsort⟩ := resolveHistories_names hn (d := e)
    ((heperm.map Prod.fst).nodup_iff.2 (NodeSet.nodup_of_pairwise ho.records))
    fun p hp => hfiled p (heperm.mem_iff.1 hp)
  cases Dict.eq_of_perm (hhperm.trans heperm) hhsort ho.records
  obtain ⟨e', heperm', he'⟩ := exists_named hn (f := fun vars : Object => vars) ho.scopes ho.owned
  obtain ⟨contexts, hx, hxperm, hxsort⟩ := resolveContexts_names hn (d := e')
    ((heperm'.map Prod.fst).nodup_iff.2 (NodeSet.nodup_of_pairwise ho.scopes))
    fun p hp => ho.owned p.1 (List.mem_map_of_mem (heperm'.mem_iff.1 hp))
  cases Dict.eq_of_perm (hxperm.trans heperm') hxsort ho.scopes
  have hrestore : restore c (store.snapshot c true) = _ :=
    restore_eq_ok rfl hl (configurationError?_of_legal hn hlegal) (he ▸ hh) (he' ▸ hx)
  rw [hrestore]
  unfold Current at hcur
  simp only [publish, snapshot, empty, hcur]
  rfl

end Store
end Statechart
