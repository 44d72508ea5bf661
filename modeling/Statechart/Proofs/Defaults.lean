import Mathlib.Data.List.Basic
import Statechart.Proofs.Entrances
import Statechart.Proofs.EntryRoots
import Statechart.Proofs.FinalAlone
import Statechart.Proofs.History
import Statechart.Proofs.OperationTraces

/-! What content a step runs for the defaults that it takes.

    Which defaults are taken is found out while the plan of a step is made, and written down under the
    states; their content is run later, when these states are entered. So the content of an initial
    transition is run once if its state is entered through it, and that of a history's default once if
    it is taken and the state whose history it is is entered. If that state stays active its history's
    default is taken without its content. -/

namespace Statechart

open Chart

/-- A history and a compound state are not entered through the same transition. -/
theorem Chart.Entranced.initial_ne {c : Chart} (he : c.Entranced) (hn : c.Numbered) {h n : NodeId}
    {i : TransitionId} (hh : (c.node h).isHistory = true) (hcomp : (c.node n).isCompound = true)
    (hi : (c.node h).initial = some i) : (c.node n).initial ≠ some i := fun hni => by
  obtain rfl := he.eq_of_initial hn hni hi
  cases hk : (c.node n).kind <;> simp [Node.isHistory, Node.isCompound, hk] at hh hcomp

/-- A part of carrying out a step. -/
inductive Act where
  | leave (exit : NodeSet)
  | take (event : Option String) (i : TransitionId)
  | arrive (n : NodeId)
  | content (n : NodeId) (i : TransitionId)
  | finish (n : NodeId)

/-- What the entry of a state is before any default content is run. -/
def Session.arrive (c : Chart) (s : Session) (i : NodeId) : Session :=
  let n := c.node i
  let s := if n.isAtomic then s.mapStore (Store.activate i) else s
  let s := s.mapStore (Store.ensureContext c i)
  let s := if n.invokes.isEmpty then s else { s with pending := NodeSet.insert i s.pending }
  let s := s.runBlocks c i ("entry.state." ++ n.id) n.onEntry false
  s.notify n.observable (.entered n)

namespace Act

/-- Does a part. -/
def perform (c : Chart) (s : Session) : Act → Session
  | .leave exit => s.leaveAll c exit
  | .take event i => s.take c event i
  | .arrive n => s.arrive c n
  | .content n i => s.run c (some n) (c.transition i).actions
  | .finish n => s.finish c (c.node n)

/-- The transition whose content a part runs. -/
def content? : Act → Option TransitionId
  | .take _ i => some i
  | .content _ i => some i
  | _ => none

/-- The parts of entering a state, in order. -/
def ofEntry (c : Chart) (plan : EntryPlan) (n : NodeId) : List Act :=
  .arrive n :: (Deed.defaults c plan n).map (.content n) ++ [.finish n]

end Act

namespace Step

/-- The parts of a step, in order. -/
def acts (c : Chart) (step : Step) : List Act :=
  .leave step.exit :: step.transitions.map (.take step.eventName) ++
    (c.sortDocument step.plan.entry).flatMap (Act.ofEntry c step.plan)

/-- The transitions whose content a step runs, in order. -/
def contents (c : Chart) (step : Step) : List TransitionId := (step.acts c).filterMap Act.content?

/-- Whether a history is resolved by its default when transitions are taken: it is one of their targets
    and has no record. -/
def Resolves (c : Chart) (store : Store) (ts : List TransitionId) (h : NodeId) : Prop :=
  (∃ t ∈ ts, h ∈ (c.transition t).targets) ∧ (c.node h).isHistory = true ∧ store.recorded? h = none

variable {c : Chart} {step : Step} {i : TransitionId} {n : NodeId}

theorem contents_eq : step.contents c =
    step.transitions ++ (c.sortDocument step.plan.entry).flatMap (Deed.defaults c step.plan) := by
  simp [contents, acts, Act.ofEntry, Act.content?, List.filterMap_cons, List.filterMap_append,
    List.filterMap_map, List.filterMap_flatMap, Function.comp_def]

end Step

namespace Session

variable {c : Chart} {s : Session} {step : Step} {n : NodeId}

/-- A state is entered part by part. -/
theorem enterState_eq (plan : EntryPlan) (hi : (c.node n).index = n) : s.enterState c plan n =
    (Act.ofEntry c plan n).foldl (Act.perform c) s := by
  have h : s.enterState c plan n =
      ((s.arrive c n).runDefaults c plan (c.node n)).finish c (c.node n) := rfl
  rw [h, runDefaults_eq, hi, ← Deed.defaults, Act.ofEntry, List.cons_append, List.foldl_cons,
    List.foldl_append, List.foldl_map]
  rfl

/-- A step does its parts one after the other. -/
theorem carryOut_eq (hindex : ∀ n ∈ step.plan.entry, (c.node n).index = n) :
    s.carryOut c step = (step.acts c).foldl (Act.perform c) s := by
  rw [Step.acts, List.foldl_append, List.foldl_cons, List.foldl_map, List.foldl_flatMap]
  refine List.foldl_ext _ _ _ fun s n hn => ?_
  exact enterState_eq step.plan (hindex n (mem_stableSort.1 hn))

end Session

/-- An element that only one part of a list has something of is counted in that part alone. -/
theorem count_flatMap_of_only {α β : Type} [DecidableEq α] [DecidableEq β] {f : α → List β} {a : α}
    {b : β} : ∀ {as : List α}, as.Nodup → (∀ x ∈ as, b ∈ f x → x = a) →
      (as.flatMap f).count b = if a ∈ as then (f a).count b else 0
  | [], _, _ => rfl
  | x :: as, hd, h => by
    obtain ⟨hx, hd⟩ := List.nodup_cons.1 hd
    rw [List.flatMap_cons, List.count_append,
      count_flatMap_of_only hd fun y hy => h y (List.mem_cons_of_mem _ hy)]
    by_cases e : x = a
    · subst e
      simp [hx]
    · have hnone : (f x).count b = 0 := List.count_eq_zero.2 fun hb => e (h x (by simp) hb)
      simp [hnone, Ne.symm e]

namespace Session

variable {c : Chart} {s₀ s : Session} {past : List Stage} {p : Phase}

/-- In a run no history has recorded nothing. -/
theorem Chronicle.remembered?_eq (hc : c.WellFormed) (h : Chronicle c s₀ past p s) (k : NodeId) :
    s.store.remembered? k = s.store.recorded? k := by
  cases hR : s.store.recorded? k with
  | none => rw [Store.remembered?, hR]
  | some R =>
    obtain ⟨g, hg, n, kind, hk, hn, hactive, rfl⟩ := h.exists_stage hc hR
    have hhist : (c.node k).isHistory = true := by simp [Node.isHistory, hk]
    exact Store.remembered?_of_recorded? hR (recordOf_ne_nil hc (h.of_mem hc g hg).1 hactive
      (hc.not_atomic_of_history hhist hn))

end Session

namespace EntryPlan

variable {c : Chart} {store : Store} {ts : List TransitionId} {h o x : NodeId} {i : TransitionId}

theorem defaultOf?_eq_some : defaultOf? c store x = some (o, i) ↔ (c.node x).isHistory = true ∧
    store.remembered? x = none ∧ (c.node x).parent = some o ∧ (c.node x).initial = some i := by
  unfold defaultOf?
  cases (c.node x).parent <;> cases (c.node x).initial <;> simp
  tauto

end EntryPlan

namespace Step

variable {c : Chart} {s : Session} {step : Step} {h i n o x : NodeId}

/-- What is known of a step that is about to be carried out. -/
structure Ready (c : Chart) (store : Store) (step : Step) : Prop where
  plan : EntryPlan.ofTransitions c store step.transitions = some step.plan
  recalls : store.Recalls c
  filled : ∀ k, store.remembered? k = store.recorded? k
  declared : step.transitions = [c.initial] ∨ ∀ t ∈ step.transitions, ∃ n, t ∈ (c.node n).transitions

namespace Ready

variable {store : Store} (hc : c.WellFormed) (hn : c.Numbered) (he : c.Entranced)
  (hr : step.Ready c store)

include hc hr

theorem nodup : (c.sortDocument step.plan.entry).Nodup := by
  have hsorted := EntryPlan.pairwise_ofTransitions hc hr.plan
  exact (stableSort_perm _ _).nodup_iff.2 (NodeSet.nodup_of_pairwise hsorted)

/-- The plan notes a default for a state only if a history of it is resolved by that. -/
theorem get?_defaultHistory (h : Dict.get? o step.plan.defaultHistory = some i) :
    ∃ x, Resolves c store step.transitions x ∧ (c.node x).parent = some o ∧
      (c.node x).initial = some i := by
  rw [(EntryPlan.begun_ofTransitions hc hr.recalls hr.plan).2] at h
  rcases Dict.mem_of_mem_insertAll (Dict.mem_of_get? h) with hm | hm
  · cases hm
  · obtain ⟨x, hx, hd⟩ := List.mem_filterMap.1 hm
    obtain ⟨hh, hrem, ho, hi⟩ := EntryPlan.defaultOf?_eq_some.1 hd
    exact ⟨x, ⟨EntryPlan.mem_targetsOf.1 hx, hh, hr.filled x ▸ hrem⟩, ho, hi⟩

/-- It notes one for every state that has a history that is resolved by its default. -/
theorem exists_get?_defaultHistory (hx : Resolves c store step.transitions x)
    (ho : (c.node x).parent = some o) (hi : (c.node x).initial = some i) :
    ∃ j, Dict.get? o step.plan.defaultHistory = some j := by
  refine Option.ne_none_iff_exists'.1 fun hnone => Dict.get?_eq_none_iff.1 hnone ?_
  rw [(EntryPlan.begun_ofTransitions hc hr.recalls hr.plan).2]
  refine Dict.mem_keys_insertAll.2 (.inr ⟨i, List.mem_filterMap.2 ⟨x, ?_, ?_⟩⟩)
  · exact EntryPlan.mem_targetsOf.2 hx.1
  · exact EntryPlan.defaultOf?_eq_some.2 ⟨hx.2.1, (hr.filled x).trans hx.2.2, ho, hi⟩

/-- Default content belongs to a state that is entered through its initial transition, or to one with a
    history that is resolved by its default. -/
theorem of_mem_defaults (hi : i ∈ Deed.defaults c step.plan n) :
    (n ∈ step.plan.defaultEntry ∧ (c.node n).isCompound = true ∧ (c.node n).initial = some i) ∨
      ∃ x, (c.node x).isHistory = true ∧ (c.node x).parent = some n ∧ (c.node x).initial = some i := by
  rcases List.mem_append.1 hi with hi | hi
  · split at hi
    · rename_i h
      rw [Bool.and_eq_true, List.contains_iff_mem] at h
      exact .inl ⟨h.1, h.2, by simpa using hi⟩
    · cases hi
  · obtain ⟨x, hx, ho, hxi⟩ := hr.get?_defaultHistory hc (by simpa using hi)
    exact .inr ⟨x, hx.2.1, ho, hxi⟩

include hn he

omit hc in
/-- The transition through which a node is entered is not among those taken. -/
theorem count_transitions (hi : (c.node x).initial = some i) : step.transitions.count i = 0 := by
  refine List.count_eq_zero.2 fun hmem => ?_
  rcases hr.declared with e | h
  · rw [e, List.mem_singleton] at hmem
    exact he.inner hi hmem
  · obtain ⟨n, hn'⟩ := h i hmem
    exact he.not_mem_transitions hn hi hn'

/-- The content of the transition through which a node is entered is run once if some state is entered
    to which it belongs, and else not. -/
theorem count_contents (hi : (c.node x).initial = some i)
    (hown : ∀ m, i ∈ Deed.defaults c step.plan m → m = n) : (step.contents c).count i =
      if n ∈ step.plan.entry then (Deed.defaults c step.plan n).count i else 0 := by
  rw [contents_eq, List.count_append, hr.count_transitions hn he hi, Nat.zero_add,
    count_flatMap_of_only (hr.nodup hc) fun m _ => hown m]
  simp only [sortDocument, mem_stableSort]

/-- The content of an initial transition is run once if the state is entered through it, and else not. -/
theorem count_initial (hcomp : (c.node n).isCompound = true) (hi : (c.node n).initial = some i) :
    (step.contents c).count i = if n ∈ step.plan.defaultEntry then 1 else 0 := by
  have hnone : (Dict.get? n step.plan.defaultHistory).toList.count i = 0 := by
    refine List.count_eq_zero.2 fun hmem => ?_
    obtain ⟨x, hx, -, hxi⟩ := hr.get?_defaultHistory hc (by simpa using hmem)
    exact he.initial_ne hn hx.2.1 hcomp hxi hi
  have hentered : n ∈ step.plan.defaultEntry → n ∈ step.plan.entry := fun h =>
    ((EntryPlan.begun_ofTransitions hc hr.recalls hr.plan).1.begins n h).entered
  rw [hr.count_contents hc hn he hi fun m hmem => ?_, Deed.defaults, List.count_append, hnone, hi]
  · by_cases hmem : n ∈ step.plan.defaultEntry
    · simp [hmem, hentered hmem, hcomp]
    · simp [hmem]
  · rcases hr.of_mem_defaults hc hmem with ⟨-, -, hmi⟩ | ⟨y, hy, -, hyi⟩
    · exact he.eq_of_initial hn hmi hi
    · exact absurd hi (he.initial_ne hn hy hcomp hyi)

/-- The content of a history's default is run once if the state whose history it is is entered and the
    default noted for it, and else not. -/
theorem count_default (hh : (c.node h).isHistory = true) (ho : (c.node h).parent = some o)
    (hi : (c.node h).initial = some i) : (step.contents c).count i =
      if o ∈ step.plan.entry ∧ Dict.get? o step.plan.defaultHistory = some i then 1 else 0 := by
  have hnone : (if step.plan.defaultEntry.contains o && (c.node o).isCompound then
      (c.node o).initial.toList else []).count i = 0 := by
    refine List.count_eq_zero.2 fun hmem => ?_
    split at hmem
    · rename_i hcomp
      rw [Bool.and_eq_true] at hcomp
      exact he.initial_ne hn hh hcomp.2 hi (by simpa using hmem)
    · cases hmem
  rw [hr.count_contents hc hn he hi fun m hmem => ?_, Deed.defaults, List.count_append, hnone]
  · by_cases hentry : o ∈ step.plan.entry
    · cases hd : Dict.get? o step.plan.defaultHistory <;> simp [hentry, List.count_singleton]
    · simp [hentry]
  · rcases hr.of_mem_defaults hc hmem with ⟨-, hcomp, hmi⟩ | ⟨y, hy, hym, hyi⟩
    · exact absurd hmi (he.initial_ne hn hh hcomp hi)
    · obtain rfl := he.eq_of_initial hn hyi hi
      exact Option.some.inj (hym.symm.trans ho)

/-- The content of a history's default is run at most once, and only if the history is resolved by it
    and the state whose history it is is entered. -/
theorem resolves_of_count (hh : (c.node h).isHistory = true) (ho : (c.node h).parent = some o)
    (hi : (c.node h).initial = some i) : (step.contents c).count i = 0 ∨
      (step.contents c).count i = 1 ∧ Resolves c store step.transitions h ∧ o ∈ step.plan.entry := by
  rw [hr.count_default hc hn he hh ho hi]
  split
  · rename_i hnoted
    obtain ⟨x, hx, -, hxi⟩ := hr.get?_defaultHistory hc hnoted.2
    exact .inr ⟨rfl, he.eq_of_initial hn hxi hi ▸ hx, hnoted.1⟩
  · exact .inl rfl

/-- If the state whose history it is is entered and no other history of it is resolved by its default,
    the content is run. -/
theorem count_of_resolves (hx : Resolves c store step.transitions h) (ho : (c.node h).parent = some o)
    (hi : (c.node h).initial = some i) (hentry : o ∈ step.plan.entry)
    (hall : ∀ g, (c.node g).parent = some o → Resolves c store step.transitions g → g = h) :
    (step.contents c).count i = 1 := by
  obtain ⟨j, hj⟩ := hr.exists_get?_defaultHistory hc hx ho hi
  obtain ⟨g, hg, hgo, hgj⟩ := hr.get?_defaultHistory hc hj
  obtain rfl := hall g hgo hg
  obtain rfl : j = i := Option.some.inj (hgj.symm.trans hi)
  rw [hr.count_default hc hn he hx.2.1 ho hi, if_pos ⟨hentry, hj⟩]

end Ready
end Step

namespace Session

variable {c : Chart} {s s₀ : Session} {event : Option Event} {ts : List TransitionId} {step : Step}

/-- Wherever a run takes transitions its step is ready to be carried out. -/
theorem ready_of_reaches (hc : c.WellFormed) (hreach : Reaches c s₀ (.about event ts) s)
    (hb : Step.build c s.store event ts = some step) :
    step.transitions = ts ∧ step.Ready c s.store := by
  obtain ⟨plan, hplan, rfl⟩ := Option.map_eq_some_iff.1 hb
  obtain ⟨past, hpast⟩ := Chronicle.of_reaches hreach
  exact ⟨rfl, hplan, (holds_of_reaches hc hreach).sane.recalls, hpast.remembered?_eq hc,
    declared_of_reaches hc hreach⟩

/-- On a chart whose parallel states' histories stand alone, what the targets of a step stand for is
    entered in areas that are apart. -/
theorem settled_of_reaches (hc : c.WellFormed) (hreach : Reaches c s₀ (.about event ts) s)
    (ha : c.HistoriesAlone) : s.store.Settled c ∧
      (EntryPlan.targetsOf c ts).Pairwise fun x y => c.Apart (c.area x) (c.area y) := by
  have hprepared : Prepared c ts s := holds_of_reaches hc hreach
  have hs := (hprepared.settled ha).1
  exact ⟨hs, hprepared.chosen.pairwise_areas hc hs.leaf hs.regular.tidy ha⟩

/-- On such a chart exactly those compound states are entered through their initial transitions that do
    not lie on the way to anything the step is bound for. -/
theorem mem_defaultEntry_iff (hc : c.WellFormed) (hreach : Reaches c s₀ (.about event ts) s)
    (ha : c.HistoriesAlone) {plan : EntryPlan} (hplan : EntryPlan.ofTransitions c s.store ts = some plan)
    {n : NodeId} (hn : (c.node n).isCompound = true) : n ∈ plan.defaultEntry ↔ n ∈ plan.entry ∧
      ∀ x, c.Bound (EntryPlan.Named c s.store ts) plan.defaultEntry n x → c.descends x n = false := by
  obtain ⟨hs, hareas⟩ := settled_of_reaches hc hreach ha
  have hbegun := (EntryPlan.begun_ofTransitions hc hs.recalls hplan).1
  refine ⟨fun hD => ⟨(hbegun.begins n hD).entered, fun x hx => ?_⟩, fun ⟨hE, hclear⟩ => ?_⟩
  · exact EntryPlan.clear_ofTransitions hc hs.recalls hareas (fun x _ => hs.agrees x) hplan hD hx
  · refine (hbegun.passed n hE hn).resolve_right fun ⟨x, hx, hd⟩ => ?_
    rw [hclear x hx] at hd
    cases hd

/-- On such a chart, too, no two histories of one state are resolved by their defaults at once. -/
theorem eq_of_resolves (hc : c.WellFormed) (hreach : Reaches c s₀ (.about event ts) s)
    (ha : c.HistoriesAlone) {g h o : NodeId} (hg : Step.Resolves c s.store ts g)
    (hh : Step.Resolves c s.store ts h) (hgo : (c.node g).parent = some o)
    (hho : (c.node h).parent = some o) : g = h := by
  obtain ⟨-, hareas⟩ := settled_of_reaches hc hreach ha
  have : Std.Symm fun x y => c.Apart (c.area x) (c.area y) := ⟨fun _ _ h => h.symm⟩
  by_contra hne
  have hapart := hareas.forall (EntryPlan.mem_targetsOf.2 hg.1) (EntryPlan.mem_targetsOf.2 hh.1) hne
  rw [area_of_history hg.2.1 hgo, area_of_history hh.2.1 hho] at hapart
  exact hapart.left (.refl o)

/-- Wherever a run takes transitions, the content of a compound state's initial transition is run once if
    the state is entered through it, and else not. That of a history's default is run at most once, and
    only if the history is resolved by its default and the state whose history it is is entered; and then
    it is run, unless another history of that state is resolved by its default too, which never happens
    if histories of parallel states stand alone as targets. -/
theorem contents_of_reaches {name : String} {version : Nat} {v : Value}
    (hl : Chart.load name version v = .ok c) (s₀ : Session) :
    ∀ event ts s, Reaches c s₀ (.about event ts) s → ∃ step t,
      Step.build c s.store event ts = some step ∧ s.microStep c event ts = some t ∧
      t = (step.acts c).foldl (Act.perform c) s ∧
      c.Begun (EntryPlan.Named c s.store ts) step.plan.entry step.plan.defaultEntry ∧
      (c.HistoriesAlone → ∀ n, (c.node n).isCompound = true →
        (n ∈ step.plan.defaultEntry ↔ n ∈ step.plan.entry ∧
          ∀ x, c.Bound (EntryPlan.Named c s.store ts) step.plan.defaultEntry n x →
            c.descends x n = false)) ∧
      (∀ n i, (c.node n).isCompound = true → (c.node n).initial = some i →
        (step.contents c).count i = if n ∈ step.plan.defaultEntry then 1 else 0) ∧
      ∀ h o i, (c.node h).isHistory = true → (c.node h).parent = some o → (c.node h).initial = some i →
        ((step.contents c).count i = 0 ∨ (step.contents c).count i = 1 ∧
          Step.Resolves c s.store ts h ∧ o ∈ step.plan.entry) ∧
        (Step.Resolves c s.store ts h → o ∈ step.plan.entry →
          (c.HistoriesAlone ∨
            ∀ g, (c.node g).parent = some o → Step.Resolves c s.store ts g → g = h) →
          (step.contents c).count i = 1) := by
  have hc := wellFormed_of_load hl
  have hn := numbered_of_load hl
  have he := entranced_of_load hl
  intro event ts s hreach
  have hprepared : Prepared c ts s := holds_of_reaches hc hreach
  obtain ⟨step, t, hb, ht, rfl, -, -, hmoved, -, hplan⟩ :=
    microStep_spec hc event hprepared.sane hprepared.chosen
  obtain ⟨rfl, hr⟩ := ready_of_reaches hc hreach hb
  refine ⟨step, _, hb, ht, carryOut_eq fun n hn => ?_,
    (EntryPlan.begun_ofTransitions hc hr.recalls hplan).1,
    fun ha n hn => mem_defaultEntry_iff hc hreach ha hplan hn,
    fun n i => hr.count_initial hc hn he, fun h o i hh ho hi =>
      ⟨hr.resolves_of_count hc hn he hh ho hi, fun hx hentry halone =>
        hr.count_of_resolves hc hn he hx ho hi hentry (halone.elim (fun ha g hgo hg => ?_) id)⟩⟩
  · exact hc.index_eq (hmoved.planned.complete n hn).lt
  · exact eq_of_resolves hc hreach ha hg hx hgo ho

/-- A book that is read on from its mark, which is at the chapter until the book has been put away for
    the first time. -/
def reader : Value :=
  .object [("datamodel", .object [("opened", .bool false)]),
    ("states", .array [
      .object [("id", .string "Shelf"), ("transitions", .array [
        .object [("event", .string "open"), ("target", .string "Cover")],
        .object [("event", .string "take"), ("target", .string "Mark")]])],
      .object [
        ("history", .array [.object [
          ("actions", .array [.object [
            ("expr", .string "true"), ("location", .string "opened"), ("type", .string "assign")]]),
          ("id", .string "Mark"), ("target", .string "Chapter")]]),
        ("id", .string "Reading"),
        ("states", .array [
          .object [("id", .string "Cover"), ("transitions", .array [
            .object [("event", .string "resume"), ("target", .string "Mark")]])],
          .object [("id", .string "Chapter")]])]])]

/-- The chart of the book. -/
def readerChart : Chart := (Chart.load "reader" 1 reader).toOption.get (by decide +kernel)

theorem load_reader : Chart.load "reader" 1 reader = .ok readerChart := load_eq_ok _

/-- The book before anything has happened. -/
def newReader : Session := .fresh (some readerChart) (.ofSeed 0 0)

/-- The book on its shelf. -/
def shelvedReader : Session := (newReader.play readerChart 10 []).get (by decide +kernel)

/-- The book with its cover open. -/
def openReader : Session := (newReader.play readerChart 10 [.signal "open"]).get (by decide +kernel)

/-- The transitions that an event asks for, and the book then. -/
def asking (s : Session) (name : String) : List TransitionId × Session :=
  (s.answer readerChart (.signal name)).select readerChart (some (Event.signal name).name)

/-- The book at the moment when it is to do what an event asks for. -/
def asked (s : Session) (name : String) : Session := { (asking s name).2 with pending := [] }

theorem reaches_asked {s : Session} {name : String} (hrun : Run readerChart newReader s)
    (hr : s.running = true) (hne : (asking s name).1 ≠ []) :
    Reaches readerChart newReader (.about (some (.signal name)) (asking s name).1) (asked s name) := by
  unfold asked asking
  exact hrun.reaches.accepted hr rfl hne

theorem reaches_resuming : Reaches readerChart newReader
    (.about (some (.signal "resume")) (asking openReader "resume").1) (asked openReader "resume") :=
  reaches_asked (Run.of_play (Option.some_get _).symm) (by decide +kernel) (by decide +kernel)

theorem reaches_taking : Reaches readerChart newReader
    (.about (some (.signal "take")) (asking shelvedReader "take").1) (asked shelvedReader "take") :=
  reaches_asked (Run.of_play (Option.some_get _).symm) (by decide +kernel) (by decide +kernel)

/-- What is being read is entered through its initial transition or by its mark, which both taking the
    book and resuming it ask for. -/
theorem reader_mark : (readerChart.node 1).isCompound = true ∧ (readerChart.node 1).initial = some 4 ∧
    (readerChart.node 2).isHistory = true ∧ (readerChart.node 2).parent = some 1 ∧
    (readerChart.node 2).initial = some 2 ∧ (∀ t ∈ [1, 3], 2 ∈ (readerChart.transition t).targets) ∧
    readerChart.HistoriesAlone := by decide +kernel

/-- The mark of a book that is taken off its shelf is resolved by its default, and the content of that is
    run, since with it the book begins to be read; not through its initial transition, so the content of
    that is not run. -/
theorem marked_taking : ∃ step t,
    Step.build readerChart (asked shelvedReader "take").store (some (.signal "take"))
      (asking shelvedReader "take").1 = some step ∧
    (asked shelvedReader "take").microStep readerChart (some (.signal "take"))
      (asking shelvedReader "take").1 = some t ∧
    (readerChart.node 2).initial = some 2 ∧ (step.contents readerChart).count 2 = 1 ∧
    (readerChart.node 1).initial = some 4 ∧ (step.contents readerChart).count 4 = 0 := by
  obtain ⟨step, t, hb, ht, -, -, -, hinitial, hdefault⟩ :=
    contents_of_reaches load_reader newReader _ _ _ reaches_taking
  obtain ⟨hcompound, hbegins, hhistory, hparent, hmark, htargets, halone⟩ := reader_mark
  obtain ⟨hasked, hrecord, hplan⟩ : 1 ∈ (asking shelvedReader "take").1 ∧
      (asked shelvedReader "take").store.recorded? 2 = none ∧
      (Step.build readerChart (asked shelvedReader "take").store (some (.signal "take"))
        (asking shelvedReader "take").1).map (fun step =>
          (step.plan.entry, step.plan.defaultEntry)) = some ([1, 4], []) := by decide +kernel
  rw [hb] at hplan
  obtain ⟨hentry, hbegun⟩ := Prod.mk.inj (Option.some.inj hplan)
  have hresolves : Step.Resolves readerChart (asked shelvedReader "take").store
      (asking shelvedReader "take").1 2 := ⟨⟨1, hasked, htargets 1 (by decide)⟩, hhistory, hrecord⟩
  refine ⟨step, t, hb, ht, hmark, ?_, hbegins, ?_⟩
  · exact (hdefault 2 1 2 hhistory hparent hmark).2 hresolves (by rw [hentry]; decide) (.inl halone)
  · rw [hinitial 1 4 hcompound hbegins, hbegun]
    rfl

/-- If the book is being read, its mark is resolved by its default too as long as the book has not been
    put away; but the content of that is not run, and the book is not marked as opened. -/
theorem unmarked_resuming :
    Reaches readerChart newReader (.about (some (.signal "resume")) (asking openReader "resume").1)
      (asked openReader "resume") ∧
    (readerChart.node 2).initial = some 2 ∧
    Step.Resolves readerChart (asked openReader "resume").store (asking openReader "resume").1 2 ∧
    ∃ step t, Step.build readerChart (asked openReader "resume").store (some (.signal "resume"))
        (asking openReader "resume").1 = some step ∧
      (asked openReader "resume").microStep readerChart (some (.signal "resume"))
        (asking openReader "resume").1 = some t ∧
      step.plan.entry = [4] ∧ (step.contents readerChart).count 2 = 0 ∧
      (Dict.get? "opened" t.store.globals).bind Value.readBool = some false := by
  obtain ⟨-, -, hhistory, -, hmark, htargets, -⟩ := reader_mark
  obtain ⟨hasked, hrecord, hplan, hopened⟩ : 3 ∈ (asking openReader "resume").1 ∧
      (asked openReader "resume").store.recorded? 2 = none ∧
      (Step.build readerChart (asked openReader "resume").store (some (.signal "resume"))
        (asking openReader "resume").1).map (fun step =>
          (step.plan.entry, (step.contents readerChart).count 2)) = some ([4], 0) ∧
      ((asked openReader "resume").microStep readerChart (some (.signal "resume"))
        (asking openReader "resume").1).map (fun t =>
          (Dict.get? "opened" t.store.globals).bind Value.readBool) = some (some false) := by
    decide +kernel
  obtain ⟨step, hb, hstep⟩ := Option.map_eq_some_iff.1 hplan
  obtain ⟨t, ht, hopened⟩ := Option.map_eq_some_iff.1 hopened
  obtain ⟨hentry, hcount⟩ := Prod.mk.inj hstep
  refine ⟨reaches_resuming, hmark, ?_, step, t, hb, ht, hentry, hcount, hopened⟩
  exact ⟨⟨3, hasked, htargets 3 (by decide)⟩, hhistory, hrecord⟩

end Session
end Statechart
