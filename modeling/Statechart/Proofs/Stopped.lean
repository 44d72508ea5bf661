import Statechart.Proofs.RunTrace

/-! Sessions that have stopped.

    A session stops in the step that enters a final state at the top, or by an event from outside. Then
    every state that is still active is left: its exit content runs, its processes end, and nothing stays
    but the final state, if there is one. From then on events are only put into the queue. -/

namespace Statechart

open Chart Session

namespace Session

variable {c : Chart} {s₀ s t u : Session} {x : Scene} {e : Event}

/-- What becomes of a session that has stopped: every active state is left once, from the inside out,
    and no process is live. -/
structure Ended (c : Chart) (u t : Session) : Prop where
  live : t.live = []
  each : ∀ n, n ∈ c.sortReverse (u.store.active c) ↔ n ∈ u.store.active c
  once : (c.sortReverse (u.store.active c)).Nodup
  exits : ∃ x y, Shows c x u ((c.sortReverse (u.store.active c)).flatMap (Deed.exits c)) y t

theorem ended_of_poised (hc : c.WellFormed) (hx : x.live = u.live) (h : Poised c x u)
    (hr : u.running = false) : Ended c u (u.finalStep c) := by
  have hshows := shows_finalStep hx h.toStaffed hr h.present (h.active_lt hc)
  exact {
    live := hshows.live.symm
    each := fun n => mem_stableSort
    once := (stableSort_perm _ _).nodup_iff.2 (NodeSet.nodup_of_pairwise (c.pairwise_closure _))
    exits := ⟨x, _, hshows⟩ }

/-- Of a configuration that has finished the final state at the top stays. -/
theorem finished_finalStep (hr : u.running = false) (h : u.store.Finished c) :
    (u.finalStep c).store.Finished c := by
  obtain ⟨f, hf, htop⟩ := h
  refine ⟨f, ?_, htop⟩
  rw [(finalStep_store hr).2, hf]
  simp [htop]

/-- Of a configuration without a final state at the top nothing stays. -/
theorem leaves_finalStep (hr : u.running = false)
    (h : ∀ l ∈ u.store.leaves, (c.node l).isTopLevelFinal = false) :
    (u.finalStep c).store.leaves = [] := by
  rw [(finalStep_store hr).2]
  exact List.filter_eq_nil_iff.2 fun l hl => by simp [h l hl]

/-- What is kept of a session at rest on a run. -/
structure Ready (c : Chart) (s : Session) : Prop where
  running : s.running = true → s.pending = [] ∧ ∃ x : Scene, x.live = s.live ∧ Poised c x s
  stopped : s.running = false → s.live = [] ∧ (s.store.leaves = [] ∨ s.store.Finished c)

theorem Ready.of_running (hr : s.running = true) (hq : s.pending = []) (hx : x.live = s.live)
    (h : Poised c x s) : Ready c s where
  running _ := ⟨hq, x, hx, h⟩
  stopped hr' := by rw [hr] at hr'; cases hr'

theorem Ready.of_ended (hr : u.running = false) (h : Ended c u (u.finalStep c))
    (hl : (u.finalStep c).store.leaves = [] ∨ (u.finalStep c).store.Finished c) :
    Ready c (u.finalStep c) where
  running hr' := by
    rw [finalStep_spec.2, hr] at hr'
    cases hr'
  stopped _ := ⟨h.live, hl⟩

variable (hc : c.WellFormed) (hn : c.Numbered)

include hc hn

/-- Working off an event of a run: it keeps what is kept, and this is how it stops the session. -/
theorem stops_nextStep {fuel : Nat} (hs : Ready c s) (hf : s.running = true → s.store.Steady c)
    (h : s.nextStep c fuel e = some t) : Ready c t ∧
      (s.running = true → t.running = false → ∃ u, t = u.finalStep c ∧ Ended c u t ∧
        (e.isCancel = false ∧ StoppedBy c s u ∧ t.store.Finished c ∨
          e.isCancel = true ∧ u = { s with running := false } ∧ t.store.leaves = [])) := by
  cases hr : s.running with
  | false =>
    rw [nextStep, if_neg (by simp [hr])] at h
    cases h
    exact ⟨hs, nofun⟩
  | true =>
    obtain ⟨hq, x, hx, hp⟩ := hs.running hr
    cases rested_of_nextStep hc hn hx hp hr hq h with
    | running hd hp hr' hq =>
      refine ⟨.of_running hr' hq hd.live hp, fun _ hstop => ?_⟩
      rw [hr'] at hstop
      cases hstop
    | @ended ds y u hd hp hr' _ hcause ht =>
      subst ht
      have hended := ended_of_poised hc hd.live hp hr'
      rcases hcause with ⟨he, hby⟩ | ⟨he, rfl⟩
      · have hfin := finished_finalStep hr' hby.1
        exact ⟨.of_ended hr' hended (.inr hfin), fun _ _ => ⟨u, rfl, hended, .inl ⟨he, hby, hfin⟩⟩⟩
      · have hnil := leaves_finalStep hr' (hf hr).unfinished
        exact ⟨.of_ended hr' hended (.inl hnil), fun _ _ => ⟨_, rfl, hended, .inr ⟨he, rfl, hnil⟩⟩⟩

/-- Starting: it establishes what is kept, and this is how it stops the session. -/
theorem stops_firstStep {fuel : Nat} (h : s.firstStep c fuel = some t) : Ready c t ∧
    (t.running = false → ∃ u, t = u.finalStep c ∧ Ended c u t ∧ StoppedBy c s u ∧
      t.store.Finished c) := by
  cases rested_of_firstStep hc hn h with
  | running hd hp hr hq =>
    refine ⟨.of_running hr hq hd.live hp, fun hstop => ?_⟩
    rw [hr] at hstop
    cases hstop
  | @ended ds y u hd hp hr _ hby ht =>
    subst ht
    have hended := ended_of_poised hc hd.live hp hr
    have hfin := finished_finalStep hr hby.1
    exact ⟨.of_ended hr hended (.inr hfin), fun _ => ⟨u, rfl, hended, hby, hfin⟩⟩

theorem ready_of_run (h : Run c s₀ s) : Ready c s := by
  induction h with
  | go h => exact (stops_firstStep hc hn h).1
  | next hrun h ih => exact (stops_nextStep hc hn ih (holds_of_reaches hc hrun.reaches) h).1
  | equip _ chart invokers listeners sink outbox ih =>
    refine ⟨fun hr => ?_, ih.stopped⟩
    obtain ⟨hq, x, hx, hp⟩ := ih.running hr
    exact ⟨hq, x, hx, hp.equip chart invokers listeners sink outbox⟩

end Session

namespace Machine

variable {c : Chart} {m : Machine}

/-- A machine that has stopped works off nothing. -/
theorem triggerEvents_of_stopped (h : m.running = false) (fuel : Nat) :
    (m.triggerEvents (fuel + 1)).map Prod.fst = some m := by
  unfold triggerEvents
  split
  · rfl
  · rw [workOff_of_not_running h]
    rfl

theorem foldl_enqueue (es : List Event) (m : Machine) :
    es.foldl (fun m e => m.enqueue e) m = { m with inbox := m.inbox ++ es } := by
  induction es generalizing m with
  | nil => simp
  | cons e es ih =>
    rw [List.foldl_cons, ih, enqueue, EventQueue.push, List.append_assoc]
    rfl

/-- A session stops at its start, or when it works off an event, in one of two ways: by a step that
    enters a final state at the top, which alone stays; or by an event that stops it, and then nothing
    stays. Either way each state that was active is left once, its exit content run, and no process is
    left. After that events are only put into the queue. -/
theorem stopped_of_run {name : String} {version : Nat} {v : Value}
    (hl : Chart.load name version v = .ok c) (s₀ : Session) :
    (∀ fuel t, s₀.firstStep c fuel = some t → t.running = false →
      ∃ u, t = u.finalStep c ∧ Ended c u t ∧ StoppedBy c s₀ u ∧ t.store.Finished c) ∧
    (∀ fuel e s t, Run c s₀ s → s.running = true → s.nextStep c fuel e = some t → t.running = false →
      ∃ u, t = u.finalStep c ∧ Ended c u t ∧
        (e.isCancel = false ∧ StoppedBy c s u ∧ t.store.Finished c ∨
          e.isCancel = true ∧ u = { s with running := false } ∧ t.store.leaves = [])) ∧
    ∀ m : Machine, Run c s₀ m.session → m.running = false →
      m.session.live = [] ∧ (m.session.store.leaves = [] ∨ m.session.store.Finished c) ∧
      ∀ fuel e es, m.session.nextStep c fuel e = some m.session ∧
        (m.triggerEvents (fuel + 1)).map Prod.fst = some m ∧
        (m.trigger e (fuel + 1)).map Prod.fst = some { m with inbox := m.inbox ++ [e] } ∧
        (m.triggerAll es (fuel + 1)).map Prod.fst = some { m with inbox := m.inbox ++ es } := by
  have hc := wellFormed_of_load hl
  have hn := numbered_of_load hl
  refine ⟨fun fuel t h => (stops_firstStep hc hn h).2, fun fuel e s t hrun hr h => ?_,
    fun m hrun hr => ?_⟩
  · exact (stops_nextStep hc hn (ready_of_run hc hn hrun) (holds_of_reaches hc hrun.reaches) h).2 hr
  · obtain ⟨hlive, hleaves⟩ := (ready_of_run hc hn hrun).stopped hr
    refine ⟨hlive, hleaves, fun fuel e es => ⟨?_, triggerEvents_of_stopped hr fuel, ?_, ?_⟩⟩
    · have hr' : m.session.running = false := hr
      rw [nextStep, hr']
      rfl
    · exact triggerEvents_of_stopped (m := m.enqueue e) hr fuel
    · rw [triggerAll, foldl_enqueue]
      exact triggerEvents_of_stopped (m := { m with inbox := m.inbox ++ es }) hr fuel

/-- A booth that is open until it is shut for good, with something to say whenever a state is left. -/
def booth : Value :=
  .object [("states", .array [
    .object [("id", .string "Open"),
      ("on_exit", .array [.object [("actions", .array [
        .object [("type", .string "log"), ("label", .string "curtain down")]])]]),
      ("states", .array [.object [("id", .string "Quiet")]]),
      ("transitions", .array [
        .object [("event", .string "shut"), ("target", .string "Shut")]])],
    .object [("id", .string "Shut"), ("kind", .string "final"),
      ("on_exit", .array [.object [("actions", .array [
        .object [("type", .string "log"), ("label", .string "lights out")]])]])]])]

/-- The chart of the booth. -/
def boothChart : Chart := (Chart.load "booth" 1 booth).toOption.get (by decide +kernel)

theorem load_booth : Chart.load "booth" 1 booth = .ok boothChart := load_eq_ok _

/-- The booth before it is opened. -/
def newBooth : Session := .fresh (some boothChart) (.ofSeed 0 0)

/-- The booth when it has been opened. -/
def openBooth : Session := (newBooth.play boothChart 10 []).get (by decide +kernel)

/-- The booth when it has been shut. -/
def shutBooth : Session := (openBooth.nextStep boothChart 10 (.signal "shut")).get (by decide +kernel)

/-- The booth when it has been called off. -/
def offBooth : Session := (openBooth.nextStep boothChart 10 .stop).get (by decide +kernel)

/-- What a session has logged. -/
def labels (s : Session) : List (Option String) :=
  s.journal.toList.filterMap fun e => match e with
    | .logged label _ => some label
    | _ => none

/-- Shut, the booth puts the lights out in the end; called off, it only lets the curtain down, and nothing
    stays. Either way that was all: whoever asks for it to be opened has to wait. -/
theorem stopped_booth : openBooth.nextStep boothChart 10 (.signal "shut") = some shutBooth ∧
    shutBooth.store.Finished boothChart ∧
    labels shutBooth = [some "curtain down", some "lights out"] ∧
    openBooth.nextStep boothChart 10 .stop = some offBooth ∧ offBooth.store.leaves = [] ∧
    labels offBooth = [some "curtain down"] ∧
    (trigger (.signal "open") 1 ⟨shutBooth, []⟩).map Prod.fst = some ⟨shutBooth, [.signal "open"]⟩ := by
  have hopen : Run boothChart newBooth openBooth := Run.of_play (Option.some_get _).symm
  have hr : openBooth.running = true := by decide +kernel
  have hshut : openBooth.nextStep boothChart 10 (.signal "shut") = some shutBooth :=
    (Option.some_get _).symm
  have hoff : openBooth.nextStep boothChart 10 .stop = some offBooth := (Option.some_get _).symm
  obtain ⟨-, hstops, hlater⟩ := stopped_of_run load_booth newBooth
  obtain ⟨_, -, -, hfin⟩ :=
    hstops 10 (.signal "shut") openBooth shutBooth hopen hr hshut (by decide +kernel)
  obtain ⟨_, -, -, hnil⟩ := hstops 10 .stop openBooth offBooth hopen hr hoff (by decide +kernel)
  obtain ⟨-, -, hfin⟩ := hfin.resolve_right fun h => absurd h.1 (by decide)
  obtain ⟨-, -, hnil⟩ := hnil.resolve_left fun h => absurd h.1 (by decide)
  obtain ⟨-, -, hwait⟩ := hlater ⟨shutBooth, []⟩ (hopen.next hshut) (by decide +kernel)
  exact ⟨hshut, hfin, by decide +kernel, hoff, hnil, by decide +kernel,
    (hwait 0 (.signal "open") []).2.2.1⟩

end Machine
end Statechart
