import Statechart.Proofs.Lockstep

/-! When a machine was started.

    A store says when it was made, for whoever takes a snapshot of it. Nothing that a machine does looks
    at that: whether it is given another date before something is done or after comes to the same. -/

namespace Statechart

namespace Store

variable {c : Chart} {s : Store} {d : Int}

/-- The store with another date. -/
def dated (d : Int) (s : Store) : Store := { s with createdAt := d }

theorem varsOf_dated : (s.dated d).varsOf = s.varsOf := by
  funext scope
  cases scope <;> rfl

theorem lookup_dated (owner : Option NodeId) (name : String) :
    (s.dated d).lookup c owner name = s.lookup c owner name := by
  have hholder (root : String) : (s.dated d).holder? c owner root = s.holder? c owner root := rfl
  unfold lookup
  split
  · rfl
  · rw [hholder, varsOf_dated]

theorem assign_dated (owner : Option NodeId) (location : String) (new : Value) :
    (s.dated d).assign c owner location new = (s.assign c owner location new).map (dated d) id := by
  have hholder (root : String) : (s.dated d).holder? c owner root = s.holder? c owner root := rfl
  have hset (vars : Object) (scope : ScopeName) :
      (s.dated d).setVars vars scope = (s.setVars vars scope).dated d := by
    cases scope <;> rfl
  unfold assign
  split
  · rfl
  · rw [hholder]
    split
    · rfl
    · simp only [varsOf_dated, hset, Prod.map_apply, id]

theorem ensureContext_dated (n : NodeId) :
    (s.dated d).ensureContext c n = (s.ensureContext c n).dated d := by
  unfold ensureContext
  rw [apply_ite (dated d)]
  rfl

theorem recordHistory_dated {n : NodeId} (h : NodeId) :
    Session.recordHistory c n (s.dated d) h = (Session.recordHistory c n s h).dated d := by
  unfold Session.recordHistory
  split
  · rename_i kind _
    cases kind <;> rfl
  · rfl

theorem enter_dated : ∀ fuel, EntryPlan.enter c (s.dated d) fuel = EntryPlan.enter c s fuel
  | 0 => rfl
  | fuel + 1 => by
    funext n p
    rw [EntryPlan.enter, EntryPlan.enter, enter_dated fuel]
    rfl

theorem build_dated (event : Option Event) (ts : List TransitionId) :
    Step.build c (s.dated d) event ts = Step.build c s event ts := by
  simp only [Step.build, EntryPlan.ofTransitions, enter_dated]
  rfl

end Store

namespace Session

variable {c : Chart} {s : Session} {d : Int} {owner : Option NodeId}

/-- The session with another date. -/
def dated (d : Int) (s : Session) : Session := s.mapStore (Store.dated d)

@[simp] theorem store_dated : (s.dated d).store = s.store.dated d := rfl

@[simp] theorem queue_dated : (s.dated d).queue = s.queue := rfl

@[simp] theorem running_dated : (s.dated d).running = s.running := rfl

@[simp] theorem pending_dated : (s.dated d).pending = s.pending := rfl

@[simp] theorem live_dated : (s.dated d).live = s.live := rfl

@[simp] theorem invokers_dated : (s.dated d).invokers = s.invokers := rfl

@[simp] theorem sink_dated : (s.dated d).sink = s.sink := rfl

@[simp] theorem evaluator_dated : (s.dated d).evaluator = s.evaluator := rfl

@[simp] theorem scope_dated : (s.dated d).scope c owner = s.scope c owner := rfl

theorem raise_dated (e : Event) : (s.dated d).raise e = (s.raise e).dated d := rfl

theorem notify_dated (observable : Nat) (notice : Notice) :
    (s.dated d).notify observable notice = (s.notify observable notice).dated d := rfl

theorem mapStore_dated {f : Store → Store} (hf : ∀ store, f (.dated d store) = .dated d (f store)) :
    (s.dated d).mapStore f = (s.mapStore f).dated d := by
  rw [mapStore, store_dated, hf]
  rfl

/-! ### Content -/

theorem evaluate_dated (expr : String) :
    (s.dated d).evaluate c owner expr = s.evaluate c owner expr := rfl

theorem argument_dated (p : Param) : (s.dated d).argument c owner p = s.argument c owner p := by
  unfold argument
  split
  · rfl
  · rw [store_dated, Store.lookup_dated]

theorem arguments_dated (ps : List Param) (values : Object) :
    (s.dated d).arguments c owner ps values = s.arguments c owner ps values := by
  induction ps generalizing values with
  | nil => rfl
  | cons p ps ih => simp only [arguments, argument_dated, ih]

theorem perform_dated (a : Action) :
    (s.dated d).perform c owner a = (s.perform c owner a).map (dated d) id := by
  cases a with
  | log label expr =>
    cases expr with
    | none => rfl
    | some expr =>
      rw [perform, perform, evaluate_dated]
      split <;> rfl
  | assign location expr =>
    rw [perform, perform, evaluate_dated]
    split
    · rw [store_dated, Store.assign_dated]
      rfl
    · rfl
  | send id target kind event delay params =>
    rw [perform, perform, arguments_dated]
    split
    · split <;> rfl
    · rfl
  | _ => rfl

theorem act_dated (a : Action) : (s.dated d).act c owner a = (s.act c owner a).dated d := by
  rw [act, act, perform_dated]
  rcases s.perform c owner a with ⟨t, failure⟩
  cases failure <;> rfl

theorem run_dated (as : List Action) : (s.dated d).run c owner as = (s.run c owner as).dated d :=
  List.foldl_hom _ fun _ _ => act_dated _

theorem runBlocks_dated (n : NodeId) (announcement : String) (bs : List Block) (announced : Bool) :
    (s.dated d).runBlocks c n announcement bs announced =
      (s.runBlocks c n announcement bs announced).dated d := by
  induction bs generalizing s announced with
  | nil => rfl
  | cons b bs ih =>
    rw [runBlocks, runBlocks, run_dated]
    split
    · rw [raise_dated, ih]
    · rw [ih]

/-! ### Processes -/

theorem call_dated (p : Process) (how : Call) :
    (s.dated d).call p how = (s.call p how).map (dated d) id := rfl

theorem cancelProcess_dated (i : InvokeId) :
    (s.dated d).cancelProcess i = (s.cancelProcess i).dated d := by
  unfold cancelProcess
  rw [live_dated]
  split
  · rfl
  · rename_i p _
    have hcall : ({ s.dated d with live := Dict.erase i s.live } : Session).call p .stop =
        (call p .stop { s with live := Dict.erase i s.live }).map (dated d) id := rfl
    rw [hcall]
    rcases call p .stop { s with live := Dict.erase i s.live } with ⟨t, failure⟩
    cases failure <;> rfl

theorem cancelProcesses_dated (is : List InvokeId) :
    (s.dated d).cancelProcesses is = (s.cancelProcesses is).dated d :=
  List.foldl_hom _ fun _ _ => cancelProcess_dated _

theorem processArgument_dated (n : NodeId) (p : Param) :
    (s.dated d).processArgument c n p = (s.processArgument c n p).map (dated d) id := by
  unfold processArgument
  split
  · rw [evaluator_dated, scope_dated]
    split <;> rfl
  · rw [store_dated, Store.lookup_dated]
    split <;> rfl

theorem processArguments_dated (n : NodeId) (ps : List Param) (values : Object) :
    processArguments c n ps (s.dated d, values) =
      (processArguments c n ps (s, values)).map (dated d) id := by
  induction ps generalizing s values with
  | nil => rfl
  | cons p ps ih =>
    simp only [processArguments, processArgument_dated]
    exact ih _

theorem processName_dated (i : Invoke) :
    (s.dated d).processName i = (s.processName i).map id (dated d) := by
  unfold processName
  split <;> rfl

theorem start_dated (i : InvokeId) : (s.dated d).start c i = (s.start c i).dated d := by
  have hsource : (s.dated d).sourceOf c (c.invoke i) = s.sourceOf c (c.invoke i) := rfl
  unfold start
  dsimp only
  rw [hsource, invokers_dated, processArguments_dated]
  split
  · rfl
  split
  · rfl
  rename_i source _ _ invoker _
  rcases processArguments c (c.invoke i).owner (c.invoke i).params (s, []) with ⟨t, params⟩
  simp only [Prod.map_apply, processName_dated]
  rcases t.processName (c.invoke i) with ⟨id, u⟩
  simp only [Prod.map_apply, id_eq, sink_dated, call_dated]
  rcases u.call ⟨id, invoker, u.sink⟩ (.start source params) with ⟨v, failure⟩
  cases failure <;> rfl

theorem startPending_dated : (s.dated d).startPending c = (s.startPending c).dated d := by
  have hall : (s.dated d).startAll c s.pending = (s.startAll c s.pending).dated d :=
    List.foldl_hom _ fun _ _ => List.foldl_hom _ fun _ _ => start_dated _
  rw [startPending, startPending, pending_dated, hall]
  rfl

theorem tellProcess_dated (e : Event) (entry : InvokeId × Process) :
    (s.dated d).tellProcess c e entry = (s.tellProcess c e entry).dated d := by
  unfold tellProcess
  dsimp only
  rw [run_dated, call_dated]
  split
  · rfl
  split
  · rcases s.call entry.2 (.forward e) with ⟨t, failure⟩
    cases failure <;> rfl
  · rfl

theorem tellProcesses_dated (e : Event) :
    (s.dated d).tellProcesses c e = (s.tellProcesses c e).dated d := by
  rw [tellProcesses, tellProcesses, live_dated]
  exact List.foldl_hom _ fun _ _ => tellProcess_dated _ _

/-! ### Steps -/

theorem endProcesses_dated (n : NodeId) :
    (s.dated d).endProcesses c n = (s.endProcesses c n).dated d := by
  rw [endProcesses, endProcesses, pending_dated, cancelProcesses_dated]
  split <;> rfl

theorem leave_dated (n : NodeId) : (s.dated d).leave c n = (s.leave c n).dated d := by
  have hrecord : (s.dated d).recordHistories c n = (s.recordHistories c n).dated d :=
    mapStore_dated fun _ => List.foldl_hom _ fun _ _ => Store.recordHistory_dated _
  unfold leave
  dsimp only
  rw [hrecord, runBlocks_dated, notify_dated, endProcesses_dated]

theorem leaveAll_dated (exit : NodeSet) :
    (s.dated d).leaveAll c exit = (s.leaveAll c exit).dated d := by
  have hall : (c.sortReverse exit).foldl (leave c) (s.dated d) =
      ((c.sortReverse exit).foldl (leave c) s).dated d := List.foldl_hom _ fun _ _ => leave_dated _
  rw [leaveAll, leaveAll, hall]
  rfl

theorem take_dated (event : Option String) (i : TransitionId) :
    (s.dated d).take c event i = (s.take c event i).dated d := by
  unfold take
  dsimp only
  rw [run_dated]
  split
  · exact List.foldl_hom _ fun _ _ => rfl
  · rfl

theorem finish_dated (m : Node) : (s.dated d).finish c m = (s.finish c m).dated d := by
  have hdone (parent : NodeId) : (s.dated d).raiseDone c parent = (s.raiseDone c parent).dated d := by
    unfold raiseDone
    dsimp only
    split
    · rfl
    · rw [apply_ite (dated d)]
      rfl
  unfold finish
  split
  · split
    · rfl
    · exact hdone _
  · rfl

theorem runDefaults_dated (plan : EntryPlan) (m : Node) :
    (s.dated d).runDefaults c plan m = (s.runDefaults c plan m).dated d := by
  rw [runDefaults_eq, runDefaults_eq]
  exact List.foldl_hom _ fun _ _ => run_dated _

theorem enterState_dated (plan : EntryPlan) (n : NodeId) :
    (s.dated d).enterState c plan n = (s.enterState c plan n).dated d := by
  have hlit : (if (c.node n).isAtomic then (s.dated d).mapStore (Store.activate n) else s.dated d) =
      (if (c.node n).isAtomic then s.mapStore (Store.activate n) else s).dated d := by
    split <;> rfl
  unfold enterState
  dsimp only
  rw [hlit, mapStore_dated fun _ => Store.ensureContext_dated n]
  generalize Session.mapStore (Store.ensureContext c n)
    (if (c.node n).isAtomic then s.mapStore (Store.activate n) else s) = t
  have hwait : (if (c.node n).invokes.isEmpty then t.dated d
      else { t.dated d with pending := NodeSet.insert n t.pending }) =
      (if (c.node n).invokes.isEmpty then t
        else { t with pending := NodeSet.insert n t.pending }).dated d := by
    split <;> rfl
  rw [pending_dated, hwait, runBlocks_dated, notify_dated, runDefaults_dated, finish_dated]

theorem microStep_dated (event : Option Event) (ts : List TransitionId) :
    (s.dated d).microStep c event ts = (s.microStep c event ts).map (dated d) := by
  rw [microStep, microStep, store_dated, Store.build_dated, Option.map_map]
  congr 1
  funext step
  have htake : step.transitions.foldl (take c step.eventName) ((s.leaveAll c step.exit).dated d) =
      (step.transitions.foldl (take c step.eventName) (s.leaveAll c step.exit)).dated d :=
    List.foldl_hom _ fun _ _ => take_dated _ _
  rw [Function.comp_apply, carryOut, carryOut, leaveAll_dated, htake]
  exact List.foldl_hom _ fun _ _ => enterState_dated _ _

/-! ### Selection -/

theorem enabled_dated (event : Option String) (i : TransitionId) :
    (s.dated d).enabled c event i = (s.enabled c event i).map id (dated d) := by
  unfold enabled
  dsimp only
  rw [evaluator_dated, scope_dated]
  split
  · split
    · rfl
    · split <;> rfl
  · rfl

theorem firstEnabled_dated (event : Option String) (ts : List TransitionId) :
    (s.dated d).firstEnabled c event ts = (s.firstEnabled c event ts).map id (dated d) := by
  induction ts generalizing s with
  | nil => rfl
  | cons i ts ih =>
    rw [firstEnabled, firstEnabled, enabled_dated]
    rcases s.enabled c event i with ⟨b, t⟩
    cases b
    · exact ih
    · rfl

/-- A search in the session with another date. -/
def Search.dated (d : Int) (r : Search) : Search := { r with session := r.session.dated d }

theorem climb_dated (event : Option String) (ns : List NodeId) (r : Search) :
    climb c event ns (r.dated d) = (climb c event ns r).dated d := by
  induction ns generalizing r with
  | nil => rfl
  | cons n ns ih =>
    rw [climb, climb]
    have hseen : (r.dated d).seen = r.seen := rfl
    have hfirst : (r.dated d).session.firstEnabled c event (c.node n).transitions =
        (r.session.firstEnabled c event (c.node n).transitions).map id (Session.dated d) :=
      firstEnabled_dated ..
    rw [hseen, hfirst]
    split
    · rfl
    rcases r.session.firstEnabled c event (c.node n).transitions with ⟨i, t⟩
    cases i with
    | none => exact ih ⟨r.found, NodeSet.insert n r.seen, t⟩
    | some i => rfl

theorem searchLeaf_dated (event : Option String) (r : Search) (leaf : NodeId) :
    searchLeaf c event (r.dated d) leaf = (searchLeaf c event r leaf).dated d := by
  unfold searchLeaf
  split
  · exact climb_dated ..
  · rfl

theorem select_dated (event : Option String) :
    (s.dated d).select c event = (s.select c event).map id (dated d) := by
  have hsearch : (s.dated d).search c event = (s.search c event).dated d := by
    have hstart : (⟨[], [], s.dated d⟩ : Search) = Search.dated d ⟨[], [], s⟩ := rfl
    rw [search, search, hstart]
    exact List.foldl_hom _ fun _ _ => searchLeaf_dated ..
  rw [select, select, hsearch]
  rfl

/-! ### Going on -/

theorem nextInternal_dated : (s.dated d).nextInternal c =
    (s.nextInternal c).map id (Prod.map id (dated d)) := by
  rw [nextInternal, nextInternal, select_dated]
  rcases s.select c none with ⟨ts, t⟩
  cases ts with
  | cons i ts => rfl
  | nil =>
    dsimp only [Prod.map_apply, id_eq]
    rw [queue_dated]
    rcases t.queue with _ | ⟨e, queue⟩
    · rfl
    dsimp only [EventQueue.pop]
    split
    · rfl
    · have hpresent : ({ t.dated d with queue } : Session).present (.ofEvent e true) =
          (present (.ofEvent e true) { t with queue }).dated d := rfl
      rw [hpresent, select_dated]
      rfl

theorem macroStep_dated : ∀ (fuel : Nat) {s : Session},
    (s.dated d).macroStep c fuel = (s.macroStep c fuel).map (dated d)
  | 0, _ => rfl
  | fuel + 1, s => by
    rw [macroStep, macroStep, running_dated, nextInternal_dated]
    split
    case isFalse => rfl
    rcases s.nextInternal c with ⟨event, ts, t⟩
    cases ts with
    | nil =>
      have hstart : (if t.running then (t.dated d).startPending c else t.dated d) =
          (if t.running then t.startPending c else t).dated d := by
        rw [startPending_dated]
        split <;> rfl
      dsimp only [Prod.map_apply, id_eq]
      rw [running_dated, hstart]
      generalize (if t.running then t.startPending c else t) = u
      rw [running_dated, queue_dated]
      split
      · exact macroStep_dated fuel
      · rfl
    | cons i ts =>
      dsimp only [Prod.map_apply, id_eq]
      rw [microStep_dated]
      cases t.microStep c event (i :: ts) with
      | none => rfl
      | some u => exact macroStep_dated fuel (s := u.publish c)

theorem takeAndSettle_dated (fuel : Nat) (event : Option Event) (ts : List TransitionId) :
    (s.dated d).takeAndSettle c fuel event ts = (s.takeAndSettle c fuel event ts).map (dated d) := by
  have hclear : ({ s.dated d with pending := [] } : Session) = dated d { s with pending := [] } := rfl
  unfold takeAndSettle
  rw [hclear, microStep_dated]
  cases microStep c event ts { s with pending := [] } with
  | none => rfl
  | some t =>
    have hmacro : ((t.dated d).publish c).macroStep c fuel =
        ((t.publish c).macroStep c fuel).map (dated d) := macroStep_dated fuel (s := t.publish c)
    simp only [Option.map_some, Option.bind_eq_bind, Option.bind_some, hmacro]
    cases (t.publish c).macroStep c fuel <;> rfl

theorem finalStep_dated : (s.dated d).finalStep c = (s.finalStep c).dated d := by
  have habandon (s : Session) (n : NodeId) : (s.dated d).abandon c n = (s.abandon c n).dated d := by
    have hexit : (c.node n).onExit.foldl (fun s b => s.run c (some n) b.actions) (s.dated d) =
        ((c.node n).onExit.foldl (fun s b => s.run c (some n) b.actions) s).dated d :=
      List.foldl_hom _ fun _ _ => run_dated _
    unfold abandon
    dsimp only
    rw [hexit, cancelProcesses_dated, notify_dated]
    split <;> rfl
  unfold finalStep
  rw [running_dated]
  split
  · rfl
  · have hall : (c.sortReverse (s.store.active c)).foldl (abandon c) (s.dated d) =
        ((c.sortReverse (s.store.active c)).foldl (abandon c) s).dated d := List.foldl_hom _ habandon
    exact congrArg (publish c) hall

theorem nextStep_dated (fuel : Nat) (e : Event) :
    (s.dated d).nextStep c fuel e = (s.nextStep c fuel e).map (dated d) := by
  have hrespond : (s.dated d).respond c fuel e = (s.respond c fuel e).map (dated d) := by
    have htold : ((s.dated d).present (.ofEvent e false)).tellProcesses c e =
        ((s.present (.ofEvent e false)).tellProcesses c e).dated d :=
      tellProcesses_dated (s := s.present (.ofEvent e false)) e
    unfold respond
    dsimp only
    rw [htold, select_dated]
    rcases ((s.present (.ofEvent e false)).tellProcesses c e).select c (some e.name) with ⟨ts, t⟩
    cases ts with
    | nil => rfl
    | cons i ts => exact takeAndSettle_dated ..
  rw [nextStep, nextStep, running_dated]
  split
  · split
    · exact congrArg some (finalStep_dated (s := { s with running := false }))
    · rw [hrespond, Option.map_map, Option.map_map]
      exact Option.map_congr fun _ _ => finalStep_dated
  · rfl

end Session

namespace Machine

variable {c : Chart} {d : Int}

/-- The machine with another date. -/
def dated (d : Int) (m : Machine) : Machine := { m with session := m.session.dated d }

theorem absorb_dated (m : Machine) : (m.dated d).absorb = m.absorb.dated d := rfl

theorem workOff_dated : ∀ (fuel : Nat) (m : Machine),
    (m.dated d).workOff c fuel = (m.workOff c fuel).map (dated d)
  | 0, _ => rfl
  | fuel + 1, ⟨s, inbox⟩ => by
    have hrun : (dated d ⟨s, inbox⟩).running = s.running := rfl
    have hrun' : (⟨s, inbox⟩ : Machine).running = s.running := rfl
    rw [workOff, workOff, hrun, hrun']
    split
    case isFalse => rfl
    cases inbox with
    | nil => rfl
    | cons e inbox =>
      have hnext : (dated d ⟨s, e :: inbox⟩).session.nextStep c fuel e =
          (s.nextStep c fuel e).map (Session.dated d) := Session.nextStep_dated fuel e
      dsimp only [dated, EventQueue.pop] at hnext ⊢
      rw [hnext]
      cases s.nextStep c fuel e with
      | none => rfl
      | some t => exact (congrArg (workOff c fuel) (absorb_dated ⟨t, inbox⟩)).trans (workOff_dated fuel _)

theorem triggerEvents_dated (fuel : Nat) (m : Machine) :
    ((m.dated d).triggerEvents fuel).map Prod.fst =
      ((m.triggerEvents fuel).map Prod.fst).map (dated d) := by
  have hchart : (m.dated d).session.chart = m.session.chart := rfl
  rw [triggerEvents, triggerEvents, hchart]
  cases m.session.chart with
  | none => rfl
  | some c =>
    simp only [workOff_dated, Option.map_map]
    rfl

/-- What a machine works off it works off in the same way under another date. -/
theorem feed_dated (fuel : Nat) (es : List Event) (m : Machine) :
    (m.dated d).feed fuel es = (m.feed fuel es).map (dated d) := by
  induction es generalizing m with
  | nil => rfl
  | cons e es ih =>
    have htrigger : ((m.dated d).trigger e fuel).map Prod.fst =
        ((m.trigger e fuel).map Prod.fst).map (dated d) := triggerEvents_dated fuel (m.enqueue e)
    rw [feed, feed, List.foldlM_cons, List.foldlM_cons, htrigger]
    cases (m.trigger e fuel).map Prod.fst with
    | none => rfl
    | some n => exact ih n

end Machine

end Statechart
