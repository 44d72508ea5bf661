import Statechart.Machine.Basic

/-! Two machines that do the same.

    What a machine does next depends on its past only through what it holds. What it has written into its
    journal, delivered to the outside and named before does not matter, as long as what its processes
    answer does not depend on the past. Two machines that hold the same and will give out the same names
    keep abreast: every operation takes them to two that do again, and adds the same to what each has
    written before. -/

namespace Statechart

/-- Whether two lists go on in the same way from where two others end. -/
def Alike {α : Type} (a b as bs : List α) : Prop := ∃ cs, as = a ++ cs ∧ bs = b ++ cs

theorem Alike.append {α : Type} {a b as bs : List α} (h : Alike a b as bs) (cs : List α) :
    Alike a b (as ++ cs) (bs ++ cs) := by
  obtain ⟨ds, rfl, rfl⟩ := h
  exact ⟨ds ++ cs, List.append_assoc .., List.append_assoc ..⟩

namespace Session

/-- Whether two sessions hold the same, have written the same since they were two others, and will give
    out the same names. -/
structure Abreast (s₀ t₀ s t : Session) : Prop where
  chart : t.chart = s.chart
  store : t.store = s.store
  queue : t.queue = s.queue
  running : t.running = s.running
  pending : t.pending = s.pending
  live : t.live = s.live
  invokers : t.invokers = s.invokers
  listeners : t.listeners = s.listeners
  evaluator : t.evaluator = s.evaluator
  sink : t.sink = s.sink
  journal : Alike s₀.journal.toList t₀.journal.toList s.journal.toList t.journal.toList
  outbox : Alike s₀.outbox t₀.outbox s.outbox t.outbox
  names : ∀ n, t.supply.processName (t.supply.processes + n) =
    s.supply.processName (s.supply.processes + n)
  makers : ∀ e ∈ s.invokers, e.2.Memoryless
  processes : ∀ e ∈ s.live, e.2.invoker.Memoryless

namespace Abreast

variable {c : Chart} {s₀ t₀ s t u v : Session} {owner : Option NodeId} {n : NodeId}

theorem ite {b : Prop} [Decidable b] {s' t' : Session} (h : Abreast s₀ t₀ s t)
    (h' : Abreast s₀ t₀ s' t') : Abreast s₀ t₀ (if b then s else s') (if b then t else t') := by
  split
  · exact h
  · exact h'

theorem bind {x y : Option Session} {f : Session → Option Session}
    (h : Option.Rel (Abreast s₀ t₀) x y)
    (hf : ∀ {s t}, Abreast s₀ t₀ s t → Option.Rel (Abreast s₀ t₀) (f s) (f t)) :
    Option.Rel (Abreast s₀ t₀) (x.bind f) (y.bind f) := by
  cases h with
  | none => exact .none
  | some h => exact hf h

/-! ### The parts of a session -/

theorem note (h : Abreast s₀ t₀ s t) (e : Entry) : Abreast s₀ t₀ (s.note e) (t.note e) :=
  { h with
    journal := by
      simp only [Session.note, Array.toList_push]
      exact h.journal.append [e] }

theorem raise (h : Abreast s₀ t₀ s t) (e : Event) : Abreast s₀ t₀ (s.raise e) (t.raise e) :=
  { h with queue := congrArg (EventQueue.push e) h.queue }

theorem fail (h : Abreast s₀ t₀ s t) (code : ErrorCode) (detail : String) (place : Option String) :
    Abreast s₀ t₀ (s.fail code detail place) (t.fail code detail place) :=
  (h.note _).raise _

theorem notify (h : Abreast s₀ t₀ s t) (observable : Nat) (notice : Notice) :
    Abreast s₀ t₀ (s.notify observable notice) (t.notify observable notice) :=
  { h with
    journal := by
      simp only [Session.notify, h.listeners, Array.toList_appendList]
      exact h.journal.append _ }

theorem mapStore (h : Abreast s₀ t₀ s t) (f : Store → Store) :
    Abreast s₀ t₀ (s.mapStore f) (t.mapStore f) :=
  { h with store := congrArg f h.store }

theorem present (h : Abreast s₀ t₀ s t) (e : EventVariable) :
    Abreast s₀ t₀ (s.present e) (t.present e) := h.mapStore _

theorem deliver (h : Abreast s₀ t₀ s t) (sink : Sink) (events : List Event) :
    Abreast s₀ t₀ (s.deliver sink events) (t.deliver sink events) :=
  { h with
    outbox := h.outbox.append _
    journal := by
      simp only [Session.deliver, Array.toList_appendList]
      exact h.journal.append _ }

theorem call (h : Abreast s₀ t₀ s t) {p : Process} (hp : p.invoker.Memoryless) (how : Call) :
    ∃ u v r, s.call p how = (u, r) ∧ t.call p how = (v, r) ∧ Abreast s₀ t₀ u v := by
  have hreply := hp (t.note (.called p.id how)).journal (s.note (.called p.id how)).journal p.id how
  refine ⟨_, _, _, rfl, ?_, (h.note (.called p.id how)).deliver p.sink
    (p.invoker.answer (s.note (.called p.id how)).journal p.id how).delivered⟩
  simp only [Session.call, hreply]

theorem scope (h : Abreast s₀ t₀ s t) : t.scope c owner = s.scope c owner := by
  rw [Session.scope, Session.scope, h.store]

/-! ### Content -/

theorem evaluate (h : Abreast s₀ t₀ s t) (expr : String) :
    t.evaluate c owner expr = s.evaluate c owner expr := by
  rw [Session.evaluate, Session.evaluate, h.evaluator, h.scope]

theorem arguments (h : Abreast s₀ t₀ s t) : ∀ (ps : List Param) (values : Object),
    t.arguments c owner ps values = s.arguments c owner ps values
  | [], _ => rfl
  | p :: ps, values => by
    have hp : t.argument c owner p = s.argument c owner p := by
      simp only [Session.argument, h.store, h.evaluate]
    simp only [Session.arguments, hp, h.arguments ps]

theorem perform (h : Abreast s₀ t₀ s t) (owner : Option NodeId) (a : Action) :
    ∃ u v r, s.perform c owner a = (u, r) ∧ t.perform c owner a = (v, r) ∧ Abreast s₀ t₀ u v := by
  cases a with
  | log label expr =>
    cases expr with
    | none => exact ⟨_, _, _, rfl, rfl, h.note _⟩
    | some expr =>
      rw [Session.perform, Session.perform, h.evaluate]
      cases s.evaluate c owner expr with
      | ok v => exact ⟨_, _, _, rfl, rfl, h.note _⟩
      | error e => exact ⟨_, _, _, rfl, rfl, h⟩
  | raise event => exact ⟨_, _, _, rfl, rfl, h.raise _⟩
  | assign location expr =>
    rw [Session.perform, Session.perform, h.evaluate, h.store]
    cases s.evaluate c owner expr with
    | ok v => exact ⟨_, _, _, rfl, rfl, { h with store := rfl }⟩
    | error e => exact ⟨_, _, _, rfl, rfl, h⟩
  | send id target kind event delay params =>
    rw [Session.perform, Session.perform, h.arguments]
    cases s.arguments c owner params [] with
    | ok values =>
      by_cases hself : target = some internalTarget
      · simp only [hself, if_true]
        exact ⟨_, _, _, rfl, rfl, h.raise _⟩
      · simp only [hself, if_false]
        exact ⟨_, _, _, rfl, rfl, h.note _⟩
    | error e => exact ⟨_, _, _, rfl, rfl, h⟩
  | cancel sendId => exact ⟨_, _, _, rfl, rfl, h.note _⟩

theorem act (h : Abreast s₀ t₀ s t) (owner : Option NodeId) (a : Action) :
    Abreast s₀ t₀ (s.act c owner a) (t.act c owner a) := by
  obtain ⟨u, v, r, hs, ht, h'⟩ := h.perform (c := c) owner a
  rw [Session.act, Session.act, hs, ht]
  cases r with
  | none => exact h'
  | some e => exact h'.fail _ _ _

theorem run (h : Abreast s₀ t₀ s t) (owner : Option NodeId) (as : List Action) :
    Abreast s₀ t₀ (s.run c owner as) (t.run c owner as) :=
  List.foldl_rel h fun a _ _ _ h => h.act owner a

theorem runBlocks (n : NodeId) (announcement : String) :
    ∀ (bs : List Block) (announced : Bool) {s t : Session}, Abreast s₀ t₀ s t →
      Abreast s₀ t₀ (s.runBlocks c n announcement bs announced)
        (t.runBlocks c n announcement bs announced)
  | [], _, _, _, h => h
  | b :: bs, announced, s, t, h => by
    rw [Session.runBlocks, Session.runBlocks]
    exact ite (runBlocks n announcement bs true ((h.run _ _).raise _))
      (runBlocks n announcement bs announced (h.run _ _))

/-! ### Processes -/

theorem forget (h : Abreast s₀ t₀ s t) (i : InvokeId) :
    Abreast s₀ t₀ { s with live := Dict.erase i s.live } { t with live := Dict.erase i t.live } :=
  { h with
    live := congrArg (Dict.erase i) h.live
    processes := fun e he => h.processes e (List.mem_filter.1 he).1 }

theorem cancelProcess (h : Abreast s₀ t₀ s t) (i : InvokeId) :
    Abreast s₀ t₀ (s.cancelProcess i) (t.cancelProcess i) := by
  rw [Session.cancelProcess, Session.cancelProcess, h.live]
  cases hp : Dict.get? i s.live with
  | none => exact h
  | some p =>
    obtain ⟨u, v, r, hs, ht, h'⟩ := (h.forget i).call (h.processes _ (Dict.mem_of_get? hp)) .stop
    rw [h.live] at ht
    simp only [hs, ht]
    cases r with
    | none => exact h'
    | some e => exact h'.raise _

theorem cancelProcesses (h : Abreast s₀ t₀ s t) (is : List InvokeId) :
    Abreast s₀ t₀ (s.cancelProcesses is) (t.cancelProcesses is) :=
  List.foldl_rel h fun i _ _ _ h => h.cancelProcess i

theorem sourceOf (h : Abreast s₀ t₀ s t) (i : Invoke) : t.sourceOf c i = s.sourceOf c i := by
  unfold Session.sourceOf
  rw [h.evaluator, h.scope]

theorem processArgument (h : Abreast s₀ t₀ s t) (n : NodeId) (p : Param) :
    ∃ u v a, s.processArgument c n p = (u, a) ∧ t.processArgument c n p = (v, a) ∧
      Abreast s₀ t₀ u v := by
  rw [Session.processArgument, Session.processArgument]
  cases p.expr with
  | some expr =>
    simp only [h.evaluator, h.scope]
    cases s.evaluator.value expr (s.scope c (some n)) with
    | ok v => exact ⟨_, _, _, rfl, rfl, h⟩
    | error e => exact ⟨_, _, _, rfl, rfl, h.fail _ _ _⟩
  | none =>
    simp only [h.store]
    cases s.store.lookup c (some n) p.name with
    | some v => exact ⟨_, _, _, rfl, rfl, h⟩
    | none => exact ⟨_, _, _, rfl, rfl, h.raise _⟩

theorem processArguments (n : NodeId) : ∀ (ps : List Param) {s t : Session} (values : Object),
    Abreast s₀ t₀ s t → ∃ u v a, Session.processArguments c n ps (s, values) = (u, a) ∧
      Session.processArguments c n ps (t, values) = (v, a) ∧ Abreast s₀ t₀ u v
  | [], _, _, _, h => ⟨_, _, _, rfl, rfl, h⟩
  | p :: ps, s, t, values, h => by
    obtain ⟨u, v, a, hs, ht, h'⟩ := h.processArgument (c := c) n p
    simp only [Session.processArguments, hs, ht]
    exact processArguments n ps _ h'

theorem processName (h : Abreast s₀ t₀ s t) (i : Invoke) :
    ∃ u v id, s.processName i = (id, u) ∧ t.processName i = (id, v) ∧ Abreast s₀ t₀ u v := by
  unfold Session.processName
  cases i.id with
  | some id => exact ⟨_, _, _, rfl, rfl, h⟩
  | none =>
    refine ⟨_, _, _, rfl, Prod.ext (h.names 0) rfl, { h with names := fun n => ?_ }⟩
    have := h.names (n + 1)
    simpa only [Supply.nextProcess, Nat.add_assoc, Nat.add_comm 1] using this

theorem start (h : Abreast s₀ t₀ s t) (index : InvokeId) :
    Abreast s₀ t₀ (s.start c index) (t.start c index) := by
  unfold Session.start
  dsimp only
  rw [h.sourceOf]
  cases s.sourceOf c (c.invoke index) with
  | error e => exact h.fail _ _ _
  | ok source =>
    dsimp only
    rw [h.invokers]
    cases hi : Dict.get? (c.invoke index).kind s.invokers with
    | none => exact h.raise _
    | some invoker =>
      have hmem : invoker.Memoryless := h.makers _ (Dict.mem_of_get? hi)
      obtain ⟨u, v, a, hs, ht, h₁⟩ :=
        processArguments (c := c) (c.invoke index).owner (c.invoke index).params [] h
      simp only [hs, ht]
      obtain ⟨u', v', id, hs, ht, h₂⟩ := h₁.processName (c.invoke index)
      simp only [hs, ht, h₂.sink]
      obtain ⟨w, x, r, hs, ht, h₃⟩ := h₂.call (p := ⟨id, invoker, u'.sink⟩) hmem (.start source a)
      simp only [hs, ht]
      cases r with
      | none =>
        refine { h₃ with live := congrArg (Dict.insert index _) h₃.live, processes := ?_ }
        intro e he
        rcases Dict.mem_of_mem_insert he with rfl | he
        · exact hmem
        · exact h₃.processes e he
      | some e => exact h₃.raise _

theorem startPending (h : Abreast s₀ t₀ s t) :
    Abreast s₀ t₀ (s.startPending c) (t.startPending c) := by
  have hall : Abreast s₀ t₀ (s.startAll c s.pending) (t.startAll c s.pending) :=
    List.foldl_rel h fun _ _ _ _ h => List.foldl_rel h fun i _ _ _ h => h.start i
  rw [Session.startPending, Session.startPending, h.pending]
  exact { hall with pending := rfl }

theorem tellProcess (h : Abreast s₀ t₀ s t) (e : Event) {entry : InvokeId × Process}
    (hp : entry.2.invoker.Memoryless) :
    Abreast s₀ t₀ (s.tellProcess c e entry) (t.tellProcess c e entry) := by
  unfold Session.tellProcess
  dsimp only
  refine ite ((h.run _ _).forget _) (ite ?_ h)
  obtain ⟨u, v, r, hs, ht, h'⟩ := h.call hp (.forward e)
  simp only [hs, ht]
  cases r with
  | none => exact h'
  | some failure => exact (h'.note _).raise _

theorem tellProcesses (h : Abreast s₀ t₀ s t) (e : Event) :
    Abreast s₀ t₀ (s.tellProcesses c e) (t.tellProcesses c e) := by
  rw [Session.tellProcesses, Session.tellProcesses, h.live]
  exact List.foldl_rel h fun entry hentry _ _ h' => h'.tellProcess e (h.processes entry hentry)

/-! ### Steps -/

theorem endProcesses (h : Abreast s₀ t₀ s t) (n : NodeId) :
    Abreast s₀ t₀ (s.endProcesses c n) (t.endProcesses c n) := by
  rw [Session.endProcesses, Session.endProcesses, h.pending]
  exact ite { h with pending := rfl } (h.cancelProcesses _)

theorem leave (h : Abreast s₀ t₀ s t) (n : NodeId) :
    Abreast s₀ t₀ (s.leave c n) (t.leave c n) :=
  ((runBlocks n _ _ _ (h.mapStore _)).notify _ _).endProcesses n

theorem leaveAll (h : Abreast s₀ t₀ s t) (exit : NodeSet) :
    Abreast s₀ t₀ (s.leaveAll c exit) (t.leaveAll c exit) :=
  mapStore (List.foldl_rel h fun n _ _ _ h => h.leave n) _

theorem take (h : Abreast s₀ t₀ s t) (event : Option String) (i : TransitionId) :
    Abreast s₀ t₀ (s.take c event i) (t.take c event i) := by
  have hrun := h.run (c := c) (c.transition i).source (c.transition i).actions
  unfold Session.take
  dsimp only
  split
  · exact List.foldl_rel hrun fun _ _ _ _ h => h.notify _ _
  · exact hrun

theorem finish (h : Abreast s₀ t₀ s t) (m : Node) :
    Abreast s₀ t₀ (s.finish c m) (t.finish c m) := by
  unfold Session.finish
  refine ite ?_ h
  cases m.parent with
  | none => exact { h with running := rfl }
  | some parent =>
    have hr := h.raise (.change ("done.state." ++ (c.node parent).id))
    simp only [Session.raiseDone, hr.store]
    cases (c.node parent).parent with
    | none => exact hr
    | some grand => exact ite (hr.raise _) hr

theorem runDefaults (h : Abreast s₀ t₀ s t) (plan : EntryPlan) (m : Node) :
    Abreast s₀ t₀ (s.runDefaults c plan m) (t.runDefaults c plan m) := by
  rw [Session.runDefaults_eq, Session.runDefaults_eq]
  exact List.foldl_rel h fun _ _ _ _ h => h.run _ _

theorem enterState (h : Abreast s₀ t₀ s t) (plan : EntryPlan) (n : NodeId) :
    Abreast s₀ t₀ (s.enterState c plan n) (t.enterState c plan n) := by
  have hlit := (ite (b := (c.node n).isAtomic) (h.mapStore (Store.activate n)) h).mapStore
    (Store.ensureContext c n)
  unfold Session.enterState
  dsimp only
  refine ((((runBlocks n _ _ _ (ite hlit ?_)).notify _ _).runDefaults _ _).finish _)
  exact { hlit with pending := congrArg (NodeSet.insert n) hlit.pending }

theorem microStep (h : Abreast s₀ t₀ s t) (event : Option Event) (ts : List TransitionId) :
    Option.Rel (Abreast s₀ t₀) (s.microStep c event ts) (t.microStep c event ts) := by
  rw [Session.microStep, Session.microStep, h.store]
  cases Step.build c s.store event ts with
  | none => exact .none
  | some step =>
    have hleft := h.leaveAll (c := c) step.exit
    have htaken : Abreast s₀ t₀
        (step.transitions.foldl (Session.take c step.eventName) (s.leaveAll c step.exit))
        (step.transitions.foldl (Session.take c step.eventName) (t.leaveAll c step.exit)) :=
      List.foldl_rel hleft fun i _ _ _ h => h.take _ i
    exact .some (List.foldl_rel htaken fun n _ _ _ h => h.enterState _ n)

/-! ### Selection -/

theorem enabled (h : Abreast s₀ t₀ s t) (event : Option String) (i : TransitionId) :
    ∃ b u v, s.enabled c event i = (b, u) ∧ t.enabled c event i = (b, v) ∧ Abreast s₀ t₀ u v := by
  simp only [Session.enabled, h.evaluator, h.scope]
  split
  · cases (c.transition i).cond with
    | none => exact ⟨_, _, _, rfl, rfl, h⟩
    | some cond =>
      dsimp only
      cases s.evaluator.condition cond (s.scope c (c.transition i).source) with
      | ok b => exact ⟨_, _, _, rfl, rfl, h⟩
      | error e => exact ⟨_, _, _, rfl, rfl, h.fail _ _ _⟩
  · exact ⟨_, _, _, rfl, rfl, h⟩

theorem firstEnabled (event : Option String) : ∀ (ts : List TransitionId) {s t : Session},
    Abreast s₀ t₀ s t → ∃ r u v, s.firstEnabled c event ts = (r, u) ∧
      t.firstEnabled c event ts = (r, v) ∧ Abreast s₀ t₀ u v
  | [], _, _, h => ⟨_, _, _, rfl, rfl, h⟩
  | i :: ts, s, t, h => by
    obtain ⟨b, u, v, hs, ht, h'⟩ := h.enabled (c := c) event i
    simp only [Session.firstEnabled, hs, ht]
    cases b with
    | true => exact ⟨_, _, _, rfl, rfl, h'⟩
    | false => exact firstEnabled event ts h'

/-- Whether two searches have found the same. -/
structure Searches (s₀ t₀ : Session) (r r' : Search) : Prop where
  found : r'.found = r.found
  seen : r'.seen = r.seen
  session : Abreast s₀ t₀ r.session r'.session

theorem climb (event : Option String) : ∀ (ns : List NodeId) {r r' : Search},
    Searches s₀ t₀ r r' → Searches s₀ t₀ (Session.climb c event ns r) (Session.climb c event ns r')
  | [], _, _, h => h
  | n :: ns, r, r', h => by
    rw [Session.climb, Session.climb, h.seen]
    by_cases hseen : r.seen.contains n = true
    · rw [if_pos hseen, if_pos hseen]
      exact h
    · rw [if_neg hseen, if_neg hseen]
      obtain ⟨i, u, v, hs, ht, h'⟩ := firstEnabled (c := c) event (c.node n).transitions h.session
      simp only [hs, ht]
      cases i with
      | some i => exact ⟨by rw [h.found], rfl, h'⟩
      | none => exact climb event ns ⟨h.found, rfl, h'⟩

theorem searchLeaf (event : Option String) {r r' : Search} (h : Searches s₀ t₀ r r') (l : NodeId) :
    Searches s₀ t₀ (Session.searchLeaf c event r l) (Session.searchLeaf c event r' l) := by
  unfold Session.searchLeaf
  cases Session.chainOf c l with
  | some chain => exact climb event chain h
  | none => exact ⟨h.found, h.seen, h.session.note _⟩

theorem select (h : Abreast s₀ t₀ s t) (event : Option String) :
    ∃ ts u v, s.select c event = (ts, u) ∧ t.select c event = (ts, v) ∧ Abreast s₀ t₀ u v := by
  have hsearch : Searches s₀ t₀ (s.search c event) (t.search c event) := by
    rw [Session.search, Session.search, h.store]
    exact List.foldl_rel ⟨rfl, rfl, h⟩ fun l _ _ _ h => searchLeaf event h l
  refine ⟨_, _, _, rfl, ?_, hsearch.session⟩
  simp only [Session.select, hsearch.found, hsearch.session.store]

/-! ### Going on -/

theorem nextInternal (h : Abreast s₀ t₀ s t) : ∃ e ts u v, s.nextInternal c = (e, ts, u) ∧
    t.nextInternal c = (e, ts, v) ∧ Abreast s₀ t₀ u v := by
  obtain ⟨ts, u, v, hs, ht, h₁⟩ := h.select (c := c) none
  simp only [Session.nextInternal, hs, ht]
  cases ts with
  | cons i ts => exact ⟨_, _, _, _, rfl, rfl, h₁⟩
  | nil =>
    dsimp only
    rw [h₁.queue]
    cases u.queue with
    | nil => exact ⟨_, _, _, _, rfl, rfl, h₁⟩
    | cons e queue =>
      have h₂ : Abreast s₀ t₀ { u with queue } { v with queue } := { h₁ with queue := rfl }
      simp only [EventQueue.pop]
      by_cases hcancel : e.isCancel = true
      · simp only [hcancel, if_true]
        exact ⟨_, _, _, _, rfl, rfl, { h₂ with running := rfl }⟩
      · simp only [hcancel]
        obtain ⟨ts, w, x, hs, ht, h₃⟩ := (h₂.present (.ofEvent e true)).select (c := c) (some e.name)
        simp only [hs, ht]
        exact ⟨_, _, _, _, rfl, rfl, h₃⟩

theorem macroStep : ∀ (fuel : Nat) {s t : Session}, Abreast s₀ t₀ s t →
    Option.Rel (Abreast s₀ t₀) (s.macroStep c fuel) (t.macroStep c fuel)
  | 0, _, _, _ => .none
  | fuel + 1, s, t, h => by
    rw [Session.macroStep, Session.macroStep, h.running]
    by_cases hr : s.running = true
    case neg =>
      rw [if_neg hr, if_neg hr]
      exact .some h
    rw [if_pos hr, if_pos hr]
    obtain ⟨e, ts, u, v, hs, ht, h₁⟩ := h.nextInternal (c := c)
    simp only [hs, ht]
    cases ts with
    | nil =>
      have h₂ : Abreast s₀ t₀ (if u.running then u.startPending c else u)
          (if v.running then v.startPending c else v) := by
        rw [h₁.running]
        exact ite h₁.startPending h₁
      dsimp only
      generalize (if u.running then u.startPending c else u) = w at h₂
      generalize (if v.running then v.startPending c else v) = x at h₂
      rw [h₂.running, h₂.queue]
      split
      · exact macroStep fuel h₂
      · exact .some h₂
    | cons i ts =>
      have hm := h₁.microStep (c := c) e (i :: ts)
      dsimp only
      generalize u.microStep c e (i :: ts) = w at hm
      generalize v.microStep c e (i :: ts) = x at hm
      cases hm with
      | none => exact .none
      | some h₂ => exact macroStep fuel (h₂.mapStore _)

theorem takeAndSettle (h : Abreast s₀ t₀ s t) (fuel : Nat) (event : Option Event)
    (ts : List TransitionId) :
    Option.Rel (Abreast s₀ t₀) (s.takeAndSettle c fuel event ts) (t.takeAndSettle c fuel event ts) := by
  have hclear : Abreast s₀ t₀ { s with pending := [] } { t with pending := [] } :=
    { h with pending := rfl }
  exact bind (hclear.microStep event ts) fun h =>
    bind (macroStep fuel (h.mapStore _)) fun h => .some { h with pending := rfl }

theorem finalStep (h : Abreast s₀ t₀ s t) :
    Abreast s₀ t₀ (s.finalStep c) (t.finalStep c) := by
  have habandon {s t : Session} (h : Abreast s₀ t₀ s t) (n : NodeId) :
      Abreast s₀ t₀ (s.abandon c n) (t.abandon c n) := by
    have hexit : Abreast s₀ t₀
        ((c.node n).onExit.foldl (fun s b => s.run c (some n) b.actions) s)
        ((c.node n).onExit.foldl (fun s b => s.run c (some n) b.actions) t) :=
      List.foldl_rel h fun b _ _ _ h => h.run _ b.actions
    have hleft := (hexit.cancelProcesses (c.node n).invokes).notify (c.node n).observable
      (.exited (c.node n))
    exact ite hleft (hleft.mapStore _)
  rw [Session.finalStep, Session.finalStep, h.running, h.store]
  exact ite h (mapStore (List.foldl_rel h fun n _ _ _ h => habandon h n) _)

theorem respond (h : Abreast s₀ t₀ s t) (fuel : Nat) (e : Event) :
    Option.Rel (Abreast s₀ t₀) (s.respond c fuel e) (t.respond c fuel e) := by
  obtain ⟨ts, u, v, hs, ht, h₁⟩ :=
    ((h.present (.ofEvent e false)).tellProcesses (c := c) e).select (c := c) (some e.name)
  simp only [Session.respond, hs, ht]
  cases ts with
  | nil => exact .some h₁
  | cons i ts => exact h₁.takeAndSettle fuel (some e) (i :: ts)

theorem nextStep (h : Abreast s₀ t₀ s t) (fuel : Nat) (e : Event) :
    Option.Rel (Abreast s₀ t₀) (s.nextStep c fuel e) (t.nextStep c fuel e) := by
  rw [Session.nextStep, Session.nextStep, h.running]
  split
  · split
    · exact .some (finalStep { h with running := rfl })
    · rw [Option.map_eq_bind, Option.map_eq_bind]
      exact bind (h.respond fuel e) fun h => .some h.finalStep
  · exact .some h

end Abreast
end Session

namespace Machine

variable {c : Chart} {s₀ t₀ : Session} {m n : Machine}

/-- Whether two machines hold the same and have written the same since their sessions were two others. -/
structure Abreast (s₀ t₀ : Session) (m n : Machine) : Prop where
  session : Session.Abreast s₀ t₀ m.session n.session
  inbox : n.inbox = m.inbox

/-- Works off events one after the other, each before the next one comes. -/
def feed (fuel : Nat) (es : List Event) (m : Machine) : Option Machine :=
  es.foldlM (fun m e => (m.trigger e fuel).map Prod.fst) m

/-- Whether nothing waits in the outbox for the machine itself. -/
def Delivered (s : Session) : Prop := ∀ d ∈ s.outbox, d.1 ≠ .own

theorem delivered_absorb (m : Machine) : Delivered m.absorb.session := by
  intro d hd
  rw [absorb_eq] at hd
  simpa using (List.mem_filter.1 hd).2

namespace Abreast

variable (hs : Delivered s₀) (ht : Delivered t₀)

include hs ht

theorem absorb (h : Abreast s₀ t₀ m n) : Abreast s₀ t₀ m.absorb n.absorb := by
  have own {s : Session} (hs : Delivered s) (ds : List (Sink × Event)) :
      (s.outbox ++ ds).filter (fun d => decide (d.1 = .own)) =
        ds.filter fun d => decide (d.1 = .own) := by
    rw [List.filter_append, List.filter_eq_nil_iff.2 fun d hd => by simpa using hs d hd,
      List.nil_append]
  have others {s : Session} (hs : Delivered s) (ds : List (Sink × Event)) :
      (s.outbox ++ ds).filter (fun d => !decide (d.1 = .own)) =
        s.outbox ++ ds.filter fun d => !decide (d.1 = .own) := by
    rw [List.filter_append, List.filter_eq_self.2 fun d hd => by simpa using hs d hd]
  obtain ⟨ds, hm, hn⟩ := h.session.outbox
  rw [absorb_eq, absorb_eq, hm, hn, own hs, own ht, others hs, others ht, h.inbox]
  exact ⟨{ h.session with outbox := ⟨_, rfl, rfl⟩ }, rfl⟩

theorem workOff : ∀ (fuel : Nat) {m n : Machine}, Abreast s₀ t₀ m n →
    Option.Rel (Abreast s₀ t₀) (m.workOff c fuel) (n.workOff c fuel)
  | 0, _, _, _ => .none
  | fuel + 1, m, n, h => by
    have hrun : n.running = m.running := h.session.running
    rw [Machine.workOff, Machine.workOff, hrun, h.inbox]
    split
    case isFalse => exact .some h
    cases m.inbox with
    | nil => exact .some h
    | cons e inbox =>
      have hnext := h.session.nextStep (c := c) fuel e
      simp only [EventQueue.pop]
      generalize m.session.nextStep c fuel e = u at hnext
      generalize n.session.nextStep c fuel e = v at hnext
      cases hnext with
      | none => exact .none
      | some h' => exact workOff fuel (absorb hs ht ⟨h', rfl⟩)

theorem triggerEvents (h : Abreast s₀ t₀ m n) (fuel : Nat) :
    Option.Rel (Abreast s₀ t₀) ((m.triggerEvents fuel).map Prod.fst)
      ((n.triggerEvents fuel).map Prod.fst) := by
  rw [Machine.triggerEvents, Machine.triggerEvents, h.session.chart]
  cases m.session.chart with
  | none => exact .some h
  | some c =>
    have hwork := workOff (c := c) hs ht fuel h
    simp only [Option.map_map, Function.comp_def, Option.map_id']
    exact hwork

theorem feed (fuel : Nat) : ∀ (es : List Event) {m n : Machine}, Abreast s₀ t₀ m n →
    Option.Rel (Abreast s₀ t₀) (m.feed fuel es) (n.feed fuel es)
  | [], _, _, h => .some h
  | e :: es, m, n, h => by
    have hm : Abreast s₀ t₀ (m.enqueue e) (n.enqueue e) :=
      ⟨h.session, congrArg (EventQueue.push e) h.inbox⟩
    have hwork := triggerEvents hs ht hm fuel
    rw [Machine.feed, Machine.feed, List.foldlM_cons, List.foldlM_cons]
    simp only [trigger]
    generalize ((m.enqueue e).triggerEvents fuel).map Prod.fst = u at hwork
    generalize ((n.enqueue e).triggerEvents fuel).map Prod.fst = v at hwork
    cases hwork with
    | none => exact .none
    | some h' => exact feed fuel es h'

end Abreast
end Machine
end Statechart
