import Statechart.Proofs.Chronicle

/-! Targets that exclude each other.

    Two states exclude each other if they lie in different children of one compound state, so that at
    most one of them can be active. Loading compares the targets of a transition by where they stand in
    the tree, and a history of a parallel state stands beside the regions in which it will be entered: a
    transition to such a history and to a state in one of the regions loads, and its step enters two
    children of a compound state as soon as the history stands for another state there. For every other
    transition it depends on the records alone, and on a chart without such transitions no step is ever
    forked. -/

namespace Statechart

open Chart Session

variable {c : Chart} {E : NodeSet} {a b d n x y S : NodeId} {t : TransitionId} {store : Store}
  {s₀ s : Session} {p : Phase} {past : List Stage}

namespace Chart

/-- Whether two states lie in different children of one compound state. -/
def Excludes (c : Chart) (x y : NodeId) : Prop :=
  ∃ n a b, (c.node n).isCompound = true ∧ a ∈ (c.node n).children ∧ b ∈ (c.node n).children ∧
    a ≠ b ∧ c.Within x a ∧ c.Within y b

/-- Whether a set of states holds at most one child of each compound state. -/
def Unforked (c : Chart) (E : NodeSet) : Prop :=
  ∀ n, (c.node n).isCompound = true → ∀ a ∈ (c.node n).children, ∀ b ∈ (c.node n).children,
    a ∈ E → b ∈ E → a = b

/-- The states that a transition leads to, histories replaced by what they stand for. -/
def resolved (c : Chart) (store : Store) (t : TransitionId) : List NodeId :=
  (c.transition t).targets.flatMap (store.stands c)

namespace WellFormed

variable (hc : c.WellFormed)

include hc

/-- Children of a compound state are rivals. -/
theorem rivals_of_children (hn : (c.node n).isCompound = true) (ha : a ∈ (c.node n).children)
    (hb : b ∈ (c.node n).children) : c.Rivals a b := by
  have hpa := (hc.mem_children.1 ha).1
  refine ⟨hpa.trans (hc.mem_children.1 hb).1.symm, ?_⟩
  intro p hp
  rw [hpa] at hp
  cases hp
  exact hn

theorem unforked_of_tidy (h : c.Tidy E) : c.Unforked E := fun _ hn _ ha _ hb haE hbE =>
  h (hc.rivals_of_children hn ha hb) (.of_mem haE) (.of_mem hbE)

/-- Of two states below a third one neither of which lies within the other, either they exclude each
    other or they can be active together. -/
theorem apart_of_not_excludes (hx : c.descends x S = true) (hy : c.descends y S = true)
    (hxs : (c.node x).isHistory = false) (hys : (c.node y).isHistory = false)
    (hxy : ¬c.Within x y) (hyx : ¬c.Within y x) (h : ¬c.Excludes x y) : c.Apart x y := by
  refine ⟨hxy, hyx, fun {m n} hr hm hn => Decidable.byContradiction fun hne => ?_⟩
  have state {z k : NodeId} (hz : (c.node z).isHistory = false) (hw : c.Within z k) :
      (c.node k).isHistory = false := by
    rcases hw with rfl | hd
    · exact hz
    · exact hc.not_history_of_descends hd
  cases hp : (c.node m).parent with
  | none =>
    -- at the top the two lie within the same node, that of the state above both
    have hSm : c.Within S m := (hc.comparable (.inr hx) hm).resolve_right fun hmS => by
      rcases hmS with rfl | hd
      · exact hne (hc.eq_of_within hr.1 (.inr hy) hn)
      · exact hc.not_descends_of_top hp hd
    exact hne (hc.eq_of_within hr.1 (hc.within_trans (.inr hy) hSm) hn)
  | some q =>
    exact h ⟨q, m, n, hr.2 q hp, hc.mem_children.2 ⟨hp, state hxs hm⟩,
      hc.mem_children.2 ⟨hr.1.symm.trans hp, state hys hn⟩, hne, hm, hn⟩

/-- States that a transition leads to do not exclude each other above its domain. -/
theorem leads_of_child (hx : c.Leads t x) (hy : c.Leads t y) (ha : (c.node a).parent = (c.node b).parent)
    (hne : a ≠ b) (hxa : c.Within x a) (hyb : c.Within y b) : c.Leads t a := by
  refine ⟨hx.1, fun d hd => ?_⟩
  have above (h : c.Within d a) : False :=
    hne (hc.eq_of_within ha (hc.within_trans (.inr (hy.2 d hd)) h) hyb)
  rcases hc.comparable hxa (.inr (hx.2 d hd)) with (h | h) | h
  · exact (above (.inl h.symm)).elim
  · exact h
  · exact (above h).elim

end WellFormed
end Chart

namespace EntryPlan

variable {plan : EntryPlan} (hc : c.WellFormed)

include hc

/-- The plan of one transition holds everything between an entered state and the domain. -/
theorem Planned.mem_up (h : Planned c [t] plan) : ∀ {x : NodeId}, x ∈ plan.entry →
    ∀ {m : NodeId}, c.Within x m → c.Leads t m → m ∈ plan.entry := by
  intro x
  induction x using Nat.strongRecOn with
  | ind x ih =>
    intro hx m hw hm
    rcases hw with rfl | hd
    · exact hx
    obtain ⟨q, hq, hw⟩ := hc.descends_iff_parent.1 hd
    rcases h.placed x hx with ⟨u, hu, -, hdom⟩ | ⟨q', hq', e⟩
    · -- the parent is the domain, and what leads on from there does not lie above it
      rw [List.mem_singleton.1 hu] at hdom
      exact (hc.not_within_of_descends (hm.2 q (hdom.symm.trans hq)) hw).elim
    · rw [hq] at e
      cases e
      exact ih q (hc.parent_lt hq) hq' hw hm

/-- States of the plan of one transition that exclude each other are entered through two children of one
    compound state. -/
theorem Planned.forked (h : Planned c [t] plan) (hx : x ∈ plan.entry) (hy : y ∈ plan.entry)
    (hxy : c.Excludes x y) : ¬c.Unforked plan.entry := by
  intro hu
  obtain ⟨n, a, b, hn, ha, hb, hne, hxa, hyb⟩ := hxy
  have led {z : NodeId} (hz : z ∈ plan.entry) : c.Leads t z := by
    obtain ⟨u, hu, hl⟩ := h.led z hz
    rwa [List.mem_singleton.1 hu] at hl
  have hpar := (hc.mem_children.1 ha).1.trans (hc.mem_children.1 hb).1.symm
  have haE := h.mem_up hc hx hxa (hc.leads_of_child (led hx) (led hy) hpar hne hxa hyb)
  have hbE := h.mem_up hc hy hyb (hc.leads_of_child (led hy) (led hx) hpar.symm hne.symm hyb hxa)
  exact hne (hu n hn a ha b hb haE hbE)

end EntryPlan

namespace Session

namespace Chronicle

variable (hc : c.WellFormed)

include hc

/-- What histories have recorded can be active together unless two recorded states exclude each
    other. -/
theorem agrees_of_not_excludes (h : Chronicle c s₀ past p s)
    (hex : ∀ y ∈ s.store.stands c x, ∀ z ∈ s.store.stands c x, ¬c.Excludes y z) :
    s.store.Agrees c x := by
  intro R hR
  obtain ⟨g, hg, n, kind, hk, -, -, rfl⟩ := h.exists_stage hc hR
  have hw := (h.of_mem hc g hg).1
  have hstands : ∀ y ∈ recordOf c g.before n kind, y ∈ s.store.stands c x := by
    intro y hy
    have hrem := Store.remembered?_of_recorded? hR (List.ne_nil_of_mem hy)
    rw [Store.stands, if_pos (by simp [Node.isHistory, hk]), hrem]
    exact hy
  refine (incomparable_recordOf hc hw).imp_of_mem fun {y z} hy hz hyz => ?_
  obtain ⟨hys, hyn⟩ := recordOf_below hc hw.leaf hy
  obtain ⟨hzs, hzn⟩ := recordOf_below hc hw.leaf hz
  exact hc.apart_of_not_excludes hyn hzn hys hzs hyz.1 hyz.2
    (hex y (hstands y hy) z (hstands z hz))

/-- If histories of parallel states stand alone as targets, what a history has recorded can be active
    together, also after the machine has stopped. -/
theorem agrees (h : Chronicle c s₀ past p s) (ha : c.HistoriesAlone) : s.store.Agrees c x := by
  intro R hR
  obtain ⟨g, hg, n, kind, -, -, -, rfl⟩ := h.exists_stage hc hR
  exact pairwise_recordOf hc ((h.of_mem hc g hg).2.1 ha)

end Chronicle

/-- Where the histories among its targets allow it, a transition on its own enters no two rivals. -/
theorem tidy_of_agrees (hc : c.WellFormed) (hs : store.Sane c) (hu : c.Unmixed t)
    (ha : ∀ x ∈ (c.transition t).targets, store.Agrees c x) {plan : EntryPlan}
    (hp : EntryPlan.ofTransitions c store [t] = some plan) : c.Tidy plan.entry := by
  obtain ⟨p, hp', -, -, htidy⟩ := EntryPlan.planned_ofTransitions hc hs.recalls [t]
  rw [hp] at hp'
  cases hp'
  have htarget {x : NodeId} (hx : x ∈ EntryPlan.targetsOf c [t]) : x ∈ (c.transition t).targets := by
    obtain ⟨u, hu, hx⟩ := EntryPlan.mem_targetsOf.1 hx
    rwa [List.mem_singleton.1 hu] at hx
  have hareas : (EntryPlan.targetsOf c [t]).Pairwise fun x y => c.Apart (c.area x) (c.area y) :=
    EntryPlan.nodup_targetsOf.imp_of_mem fun {x y} hx hy hne =>
      hc.apart_areas_of_transition hu (htarget hx) (htarget hy) hne
  intro m n
  exact htidy (fun x hx => ha x (htarget hx)) hareas

/-- A transition has a step, which is forked if two of the states that it leads to exclude each other. -/
theorem Step.forked_of_excludes (hc : c.WellFormed) (hs : store.Recalls c) (t : TransitionId)
    (event : Option Event) : ∃ step, Step.build c store event [t] = some step ∧
      EntryPlan.ofTransitions c store [t] = some step.plan ∧
      ∀ x ∈ c.resolved store t, ∀ y ∈ c.resolved store t, c.Excludes x y →
        ¬c.Unforked step.plan.entry := by
  obtain ⟨plan, hplan, hplanned, hstands, -⟩ := EntryPlan.planned_ofTransitions hc hs [t]
  refine ⟨⟨event, [t], Step.exitOf c store [t], plan⟩, by rw [Step.build, hplan]; rfl, hplan, ?_⟩
  have entered {x : NodeId} (hx : x ∈ c.resolved store t) : x ∈ plan.entry := by
    obtain ⟨y, hy, hx⟩ := List.mem_flatMap.1 hx
    exact hstands y (EntryPlan.mem_targetsOf.2 ⟨t, by simp, hy⟩) x hx
  exact fun x hx y hy hxy => hplanned.forked hc (entered hx) (entered hy) hxy

/-- Of every transition, wherever a run has come to: its step is forked if two of the states that it
    leads to exclude each other, which loading does not rule out. If the transition does not mix a
    history of a parallel state with other targets, it is forked for this reason alone; and if no
    transition of the chart does, it never is. -/
theorem unforked_of_reaches {name : String} {version : Nat} {v : Value}
    (hl : Chart.load name version v = .ok c) (s₀ : Session) :
    ∀ p s t event, Reaches c s₀ p s → ∃ step, Step.build c s.store event [t] = some step ∧
      (∀ x ∈ c.resolved s.store t, ∀ y ∈ c.resolved s.store t, c.Excludes x y →
        ¬c.Unforked step.plan.entry) ∧
      (c.Unmixed t → (c.Unforked step.plan.entry ↔
        ∀ x ∈ c.resolved s.store t, ∀ y ∈ c.resolved s.store t, ¬c.Excludes x y)) ∧
      (c.HistoriesAlone → c.Unforked step.plan.entry) := by
  have hc := wellFormed_of_load hl
  intro p s t event hreach
  obtain ⟨past, h⟩ := Chronicle.of_reaches hreach
  have hsane := (h.whole hc).toSane
  obtain ⟨step, hb, hplan, hforked⟩ := Step.forked_of_excludes hc hsane.recalls t event
  refine ⟨step, hb, hforked, fun hu => ⟨fun hun x hx y hy hxy => hforked x hx y hy hxy hun,
    fun hex => ?_⟩, fun ha => ?_⟩
  · refine hc.unforked_of_tidy (tidy_of_agrees hc hsane hu (fun x hx => ?_) hplan)
    have resolved {y : NodeId} (hy : y ∈ s.store.stands c x) : y ∈ c.resolved s.store t :=
      List.mem_flatMap.2 ⟨x, hx, hy⟩
    exact h.agrees_of_not_excludes hc fun y hy z hz => hex y (resolved hy) z (resolved hz)
  · exact hc.unforked_of_tidy (tidy_of_agrees hc hsane (ha t) (fun x _ => h.agrees hc ha) hplan)

/-- A machine that is started fast, and apart from that as it last worked. -/
def engine : Value :=
  .object [("states", .array [
    .object [("id", .string "Idle"), ("transitions", .array [
      .object [("event", .string "start"), ("target", .string "Fast Last")]])],
    .object [
      ("history", .array [.object [
        ("id", .string "Last"), ("target", .string "Slow Loud"), ("type", .string "deep")]]),
      ("id", .string "Work"), ("kind", .string "parallel"),
      ("states", .array [
        .object [("id", .string "Motor"), ("states", .array [
          .object [("id", .string "Slow")], .object [("id", .string "Fast")]])],
        .object [("id", .string "Horn"), ("states", .array [
          .object [("id", .string "Quiet")], .object [("id", .string "Loud")]])]])]])]

/-- The chart of the machine. -/
def engineChart : Chart := (Chart.load "engine" 1 engine).toOption.get (by decide +kernel)

theorem load_engine : Chart.load "engine" 1 engine = .ok engineChart := load_eq_ok _

/-- The machine before it is started. -/
def newEngine : Session := .fresh (some engineChart) (.ofSeed 0 0)

/-- The machine when it has nothing to do. -/
def idleEngine : Session := (newEngine.play engineChart 10 []).get (by decide +kernel)

theorem run_idleEngine : Run engineChart newEngine idleEngine :=
  Run.of_play (Option.some_get _).symm

/-- The chart loads, but starting the machine would enter both children of its motor. -/
theorem forked_engine : 0 ∈ (engineChart.node 0).transitions ∧
    idleEngine.store.leafNames engineChart = ["Idle"] ∧
    engineChart.namesOf (engineChart.resolved idleEngine.store 0) = ["Slow", "Fast", "Loud"] ∧
    ∃ step, Step.build engineChart idleEngine.store none [0] = some step ∧
      ¬engineChart.Unforked step.plan.entry := by
  obtain ⟨step, hb, hforked, -⟩ :=
    unforked_of_reaches load_engine newEngine .rest idleEngine 0 none run_idleEngine.reaches
  refine ⟨by decide +kernel, by decide +kernel, by decide +kernel, step, hb, ?_⟩
  refine hforked 5 (by decide +kernel) 4 (by decide +kernel) ?_
  exact ⟨3, 5, 4, by decide +kernel, by decide +kernel, by decide +kernel, by decide, .refl 5, .refl 4⟩

end Session
end Statechart
