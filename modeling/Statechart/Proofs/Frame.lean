import Mathlib.Logic.Relation
import Statechart.Session.Macrostep

/-! What content and processes leave alone.

    Running content, starting, telling and ending processes, and informing listeners assign variables,
    raise events and write into the journal. They never change the active leaves, the records of
    histories, the name of the session or whether the machine runs; queue and journal only grow, and
    never by the report that a configuration is wrong. What assignments keep they keep. -/

namespace Statechart

/-- Whether a list goes on where another ends, with elements of a kind. -/
def Continues {α : Type} (P : α → Prop) (as bs : List α) : Prop :=
  ∃ cs, bs = as ++ cs ∧ ∀ x ∈ cs, P x

namespace Continues

variable {α : Type} {P Q : α → Prop} {as bs cs : List α}

theorem refl (as : List α) : Continues P as as := ⟨[], by simp, by simp⟩

theorem trans (h : Continues P as bs) (h' : Continues P bs cs) : Continues P as cs := by
  obtain ⟨xs, rfl, hx⟩ := h
  obtain ⟨ys, rfl, hy⟩ := h'
  refine ⟨xs ++ ys, by simp, ?_⟩
  intro z hz
  exact (List.mem_append.1 hz).elim (hx z) (hy z)

theorem append (h : ∀ x ∈ bs, P x) : Continues P as (as ++ bs) := ⟨bs, rfl, h⟩

theorem imp (hPQ : ∀ x, P x → Q x) (h : Continues P as bs) : Continues Q as bs := by
  obtain ⟨xs, rfl, hx⟩ := h
  exact ⟨xs, rfl, fun x hxs => hPQ x (hx x hxs)⟩

end Continues

/-- Whether an entry is anything but the report that a configuration is wrong. -/
def Entry.Sound (e : Entry) : Prop := ∀ detail place, e ≠ .fault .illegalConfig detail place

namespace EventQueue

variable {q queue : EventQueue} {e : Event}

theorem eq_nil_of_pop (h : q.pop = (none, queue)) : q = [] := by
  cases q with
  | nil => rfl
  | cons => cases h

theorem eq_cons_of_pop (h : q.pop = (some e, queue)) : q = e :: queue := by
  cases q with
  | nil => cases h
  | cons =>
    cases h
    rfl

end EventQueue

namespace Store

variable {s t : Store}

/-- Whether a store comes from another by assignments. -/
def Revised : Store → Store → Prop :=
  Relation.ReflTransGen fun s t =>
    ∃ (c : Chart) (owner : Option NodeId) (location : String) (v : Value),
      t = (s.assign c owner location v).1

/-- What assignments keep is kept by content. -/
theorem Revised.keeps {P : Store → Prop}
    (hP : ∀ (c : Chart) s owner location v, P s → P (s.assign c owner location v).1)
    (h : s.Revised t) (hs : P s) : P t := by
  induction h with
  | refl => exact hs
  | tail _ hstep ih =>
    obtain ⟨c, owner, location, v, rfl⟩ := hstep
    exact hP c _ owner location v ih

/-- Variables are apart from leaves and histories. -/
theorem assign_leaves {c : Chart} (owner : Option NodeId) (location : String) (v : Value) (s : Store) :
    (s.assign c owner location v).1.leaves = s.leaves ∧
      (s.assign c owner location v).1.histories = s.histories := by
  unfold Store.assign
  split
  · exact ⟨rfl, rfl⟩
  · split
    · exact ⟨rfl, rfl⟩
    · rename_i scope _
      cases scope <;> exact ⟨rfl, rfl⟩

theorem assign_sessionId {c : Chart} (owner : Option NodeId) (location : String) (v : Value)
    (s : Store) : (s.assign c owner location v).1.sessionId = s.sessionId := by
  unfold Store.assign
  split
  · rfl
  · split
    · rfl
    · rename_i scope _
      cases scope <;> rfl

theorem Revised.leaves (h : s.Revised t) : t.leaves = s.leaves ∧ t.histories = s.histories := by
  refine h.keeps (P := fun t => t.leaves = s.leaves ∧ t.histories = s.histories) ?_ ⟨rfl, rfl⟩
  intro c t owner location v ⟨hl, hh⟩
  obtain ⟨hl', hh'⟩ := assign_leaves (c := c) owner location v t
  exact ⟨hl'.trans hl, hh'.trans hh⟩

end Store

namespace Session

variable {c : Chart} {s t u : Session}

/-- Whether a session comes from another by writing into the journal nothing but what is sound. -/
structure Follows (s t : Session) : Prop where
  journal : Continues Entry.Sound s.journal.toList t.journal.toList
  evaluator : t.evaluator = s.evaluator
  chart : t.chart = s.chart
  name : t.store.sessionId = s.store.sessionId

/-- Whether a session comes from another by what content and processes do. -/
structure Worked (s t : Session) : Prop extends Follows s t where
  store : s.store.Revised t.store
  running : t.running = s.running
  pending : t.pending = s.pending
  queue : Continues (fun _ => True) s.queue t.queue

/-- Whether a session comes from another with the same leaves and histories. -/
structure Quiet (s t : Session) : Prop extends Follows s t where
  leaves : t.store.leaves = s.store.leaves
  histories : t.store.histories = s.store.histories
  running : t.running = s.running
  queue : Continues (fun _ => True) s.queue t.queue

namespace Follows

theorem refl (s : Session) : Follows s s := ⟨.refl _, rfl, rfl, rfl⟩

theorem trans (h : Follows s t) (h' : Follows t u) : Follows s u where
  journal := h.journal.trans h'.journal
  evaluator := h'.evaluator.trans h.evaluator
  chart := h'.chart.trans h.chart
  name := h'.name.trans h.name

end Follows

namespace Worked

/-- Nothing but parts of a session that no one looks at here has changed. -/
theorem of_eq (hs : t.store = s.store) (hr : t.running = s.running) (hp : t.pending = s.pending)
    (hq : t.queue = s.queue) (hj : t.journal = s.journal) (he : t.evaluator = s.evaluator)
    (hc : t.chart = s.chart) : Worked s t where
  journal := hj ▸ .refl _
  evaluator := he
  chart := hc
  name := congrArg Store.sessionId hs
  store := hs ▸ Relation.ReflTransGen.refl
  running := hr
  pending := hp
  queue := hq ▸ .refl _

/-- Something sound was written into the journal. -/
theorem of_journal (es : List Entry) (hs : t.store = s.store) (hr : t.running = s.running)
    (hp : t.pending = s.pending) (hq : t.queue = s.queue) (hj : t.journal = s.journal ++ es)
    (he : t.evaluator = s.evaluator) (hc : t.chart = s.chart) (h : ∀ e ∈ es, e.Sound) :
    Worked s t where
  journal := ⟨es, by simp [hj], h⟩
  evaluator := he
  chart := hc
  name := congrArg Store.sessionId hs
  store := hs ▸ Relation.ReflTransGen.refl
  running := hr
  pending := hp
  queue := hq ▸ .refl _

theorem refl (s : Session) : Worked s s := .of_eq rfl rfl rfl rfl rfl rfl rfl

theorem trans (h : Worked s t) (h' : Worked t u) : Worked s u where
  toFollows := h.toFollows.trans h'.toFollows
  store := Relation.ReflTransGen.trans h.store h'.store
  running := h'.running.trans h.running
  pending := h'.pending.trans h.pending
  queue := h.queue.trans h'.queue

theorem foldl {α : Type} {f : Session → α → Session} (h : ∀ s a, Worked s (f s a)) (as : List α)
    (s : Session) : Worked s (as.foldl f s) :=
  List.foldlRecOn as f (.refl s) fun t ht a _ => ht.trans (h t a)

/-- Content and processes leave the leaves and the histories alone. -/
theorem quiet (h : Worked s t) : Quiet s t where
  toFollows := h.toFollows
  leaves := h.store.leaves.1
  histories := h.store.leaves.2
  running := h.running
  queue := h.queue

end Worked

namespace Quiet

theorem refl (s : Session) : Quiet s s := (Worked.refl s).quiet

theorem trans (h : Quiet s t) (h' : Quiet t u) : Quiet s u where
  toFollows := h.toFollows.trans h'.toFollows
  leaves := h'.leaves.trans h.leaves
  histories := h'.histories.trans h.histories
  running := h'.running.trans h.running
  queue := h.queue.trans h'.queue

/-- Nothing but parts of a session that no one looks at here has changed. -/
theorem of_eq (hs : t.store.leaves = s.store.leaves ∧ t.store.histories = s.store.histories ∧
      t.store.sessionId = s.store.sessionId)
    (hr : t.running = s.running) (hq : t.queue = s.queue) (hj : t.journal = s.journal)
    (he : t.evaluator = s.evaluator) (hc : t.chart = s.chart) : Quiet s t where
  journal := hj ▸ .refl _
  evaluator := he
  chart := hc
  name := hs.2.2
  leaves := hs.1
  histories := hs.2.1
  running := hr
  queue := hq ▸ .refl _

end Quiet

/-! ### The parts of a session -/

theorem worked_note {e : Entry} (h : e.Sound) : Worked s (s.note e) :=
  .of_journal [e] rfl rfl rfl rfl (by simp [note]) rfl rfl (by simpa using h)

theorem worked_raise (e : Event) : Worked s (s.raise e) where
  journal := .refl _
  evaluator := rfl
  chart := rfl
  name := rfl
  store := Relation.ReflTransGen.refl
  running := rfl
  pending := rfl
  queue := .append (fun _ _ => trivial)

theorem worked_report {code : ErrorCode} (h : code ≠ .illegalConfig) (detail : String)
    (place : Option String) : Worked s (s.report code detail place) :=
  worked_note fun _ _ e => by
    cases e
    exact h rfl

theorem worked_fail (code : ErrorCode) (h : code ≠ .illegalConfig) (detail : String)
    (place : Option String) : Worked s (s.fail code detail place) :=
  (worked_report h detail place).trans (worked_raise _)

theorem worked_notify (observable : Nat) (notice : Notice) :
    Worked s (s.notify observable notice) := by
  refine .of_journal _ rfl rfl rfl rfl rfl rfl rfl ?_
  intro e he
  rw [List.mem_append, Listeners.tell, Listeners.tell, List.mem_map, List.mem_map] at he
  rintro detail place rfl
  rcases he with ⟨l, -, h⟩ | ⟨l, -, h⟩ <;> cases h

theorem worked_deliver (sink : Sink) (events : List Event) : Worked s (s.deliver sink events) := by
  refine .of_journal _ rfl rfl rfl rfl rfl rfl rfl fun e he => ?_
  rintro detail place rfl
  obtain ⟨_, -, h⟩ := List.mem_map.1 he
  cases h

theorem worked_call (p : Process) (call : Call) : Worked s (s.call p call).1 :=
  (worked_note fun _ _ h => by cases h).trans (worked_deliver _ _)

theorem quiet_mapStore {f : Store → Store}
    (h : (f s.store).leaves = s.store.leaves ∧ (f s.store).histories = s.store.histories ∧
      (f s.store).sessionId = s.store.sessionId) :
    Quiet s (s.mapStore f) :=
  .of_eq h rfl rfl rfl rfl rfl

theorem quiet_present (e : EventVariable) : Quiet s (s.present e) := quiet_mapStore ⟨rfl, rfl, rfl⟩

theorem quiet_publish : Quiet s (s.publish c) := quiet_mapStore ⟨rfl, rfl, rfl⟩

/-! ### Content -/

theorem VariableError.code_ne : ∀ e : VariableError, e.code ≠ .illegalConfig
  | .undefined _ => nofun
  | .notAnObject _ => nofun

theorem ActionError.code_ne : ∀ e : ActionError, e.code ≠ .illegalConfig
  | .eval _ => nofun
  | .variable e => VariableError.code_ne e

theorem worked_perform (owner : Option NodeId) (a : Action) : Worked s (s.perform c owner a).1 := by
  cases a with
  | log label expr =>
    cases expr with
    | none => exact worked_note fun _ _ h => by cases h
    | some expr =>
      rw [perform]
      split
      · exact worked_note fun _ _ h => by cases h
      · exact .refl s
  | raise event => exact worked_raise _
  | assign location expr =>
    rw [perform]
    split
    · exact { Worked.refl s with
        name := Store.assign_sessionId ..
        store := Relation.ReflTransGen.single ⟨c, owner, location, _, rfl⟩ }
    · exact .refl s
  | send id target kind event delay params =>
    rw [perform]
    split
    · split
      · exact worked_raise _
      · exact worked_note fun _ _ h => by cases h
    · exact .refl s
  | cancel sendId => exact worked_note fun _ _ h => by cases h

theorem worked_act (owner : Option NodeId) (a : Action) : Worked s (s.act c owner a) := by
  have h : Worked s (s.perform c owner a).1 := worked_perform owner a
  unfold act
  split <;> rename_i e
  · rwa [e] at h
  · rw [e] at h
    exact h.trans (worked_fail _ (ActionError.code_ne _) _ _)

theorem worked_run (owner : Option NodeId) (as : List Action) : Worked s (s.run c owner as) :=
  Worked.foldl (fun _ a => worked_act owner a) as s

theorem worked_runBlocks (n : NodeId) (announcement : String) :
    ∀ (bs : List Block) (announced : Bool) {s : Session},
      Worked s (s.runBlocks c n announcement bs announced)
  | [], _, s => .refl s
  | b :: bs, announced, s => by
    rw [runBlocks]
    split
    · exact (worked_run _ _).trans ((worked_raise _).trans (worked_runBlocks n announcement bs _))
    · exact (worked_run _ _).trans (worked_runBlocks n announcement bs _)

/-! ### Processes -/

/-- What becomes of a session that stops a process. -/
inductive Dismissed (i : InvokeId) (s t : Session) : Prop where
  | absent (hp : Dict.get? i s.live = none) (ht : t = s)
  | stopped {p : Process} (hp : Dict.get? i s.live = some p)
      (hf : (call p .stop { s with live := Dict.erase i s.live }).2 = none)
      (ht : t = (call p .stop { s with live := Dict.erase i s.live }).1)
  | failed {p : Process} (hp : Dict.get? i s.live = some p)
      (hf : (call p .stop { s with live := Dict.erase i s.live }).2 ≠ none)
      (ht : t = (call p .stop { s with live := Dict.erase i s.live }).1.raise
        (.failure ("failed.invoke.cancel." ++ p.id)))

theorem dismissed_cancelProcess (i : InvokeId) : Dismissed i s (s.cancelProcess i) := by
  unfold cancelProcess
  split
  · rename_i hp
    exact .absent hp rfl
  · rename_i p hp
    split
    rename_i t failure e
    cases failure with
    | none => exact .stopped hp (by rw [e]) (by rw [e])
    | some _ => exact .failed hp (by simp [e]) (by rw [e])

/-- A session that has the arguments and the name of a process ready. -/
def readied (c : Chart) (i : InvokeId) (s : Session) : Session :=
  ((processArguments c (c.invoke i).owner (c.invoke i).params (s, [])).1.processName (c.invoke i)).2

/-- Getting a process ready only fails, raises failures and uses up names. -/
theorem readied_induction {P : Session → Prop} (i : InvokeId) (h : P s)
    (hfail : ∀ {t : Session} (detail : String) (place : Option String), P t →
      P (t.fail .expressionError detail place))
    (hraise : ∀ {t : Session} (name : String), P t → P (t.raise (.failure name)))
    (hsupply : ∀ {t : Session} (supply : Supply), P t → P { t with supply }) :
    P (s.readied c i) := by
  have hone (t : Session) (owner : NodeId) (p : Param) (ht : P t) :
      P (t.processArgument c owner p).1 := by
    unfold processArgument
    split
    · split
      · exact ht
      · exact hfail _ _ ht
    · split
      · exact ht
      · exact hraise _ ht
  have hall (owner : NodeId) (ps : List Param) : ∀ (t : Session) (values : Object), P t →
      P (processArguments c owner ps (t, values)).1 := by
    induction ps with
    | nil => exact fun _ _ ht => ht
    | cons p ps ih => exact fun t values ht => ih _ _ (hone t owner p ht)
  have hargs := hall (c.invoke i).owner (c.invoke i).params s [] h
  unfold readied processName
  split
  · exact hargs
  · exact hsupply _ hargs

/-- What becomes of a session that starts a process. -/
inductive Launched (c : Chart) (i : InvokeId) (s t : Session) : Prop where
  | unsourced {e : EvalError} (ht : t = s.fail .expressionError e.message (some (c.path (c.invoke i).owner)))
  | unmade (hm : Dict.get? (c.invoke i).kind s.invokers = none)
      (ht : t = s.raise (.failure ("failed.invoke." ++ (c.node (c.invoke i).owner).id)))
  | begun {p : Process} {source : String} {params : Object}
      (hm : Dict.get? (c.invoke i).kind s.invokers = some p.invoker)
      (hf : ((s.readied c i).call p (.start source params)).2 = none)
      (ht : t = { ((s.readied c i).call p (.start source params)).1 with
        live := Dict.insert i p (s.readied c i).live })
  | refused {p : Process} {source : String} {params : Object}
      (hm : Dict.get? (c.invoke i).kind s.invokers = some p.invoker)
      (hf : ((s.readied c i).call p (.start source params)).2 ≠ none)
      (ht : t = ((s.readied c i).call p (.start source params)).1.raise
        (.failure ("failed.invoke." ++ (c.node (c.invoke i).owner).id)))

theorem launched_start (i : InvokeId) : Launched c i s (s.start c i) := by
  unfold start
  dsimp only
  split
  · exact .unsourced rfl
  split
  · rename_i hm
    exact .unmade hm rfl
  rename_i source _ _ invoker hm
  split
  · rename_i u e
    obtain rfl : _ = u := congrArg Prod.fst e
    exact .begun hm (congrArg Prod.snd e) rfl
  · rename_i u failure e
    obtain rfl : _ = u := congrArg Prod.fst e
    have hf := congrArg Prod.snd e
    exact .refused (p := ⟨_, invoker, _⟩) hm (hf ▸ Option.some_ne_none failure) rfl

/-- What becomes of a session that tells a process of an event. -/
inductive Informed (c : Chart) (e : Event) (entry : InvokeId × Process) (s t : Session) : Prop where
  | completed (h : Trigger.reportsCompletion entry.2.id e.name = true)
      (ht : t = { s.run c (some (c.invoke entry.1).owner) (c.invoke entry.1).finalize with
        live := Dict.erase entry.1
          (s.run c (some (c.invoke entry.1).owner) (c.invoke entry.1).finalize).live })
  | forwarded (h : Trigger.reportsCompletion entry.2.id e.name = false)
      (hf : (s.call entry.2 (.forward e)).2 = none) (ht : t = (s.call entry.2 (.forward e)).1)
  | refused {failure : InvokerError} (h : Trigger.reportsCompletion entry.2.id e.name = false)
      (hf : (s.call entry.2 (.forward e)).2 = some failure)
      (ht : t = ((s.call entry.2 (.forward e)).1.report .expressionError
        (refusal e.name entry.2.id failure) (some (c.path (c.invoke entry.1).owner))).raise
          .communicationFailed)
  | spared (h : Trigger.reportsCompletion entry.2.id e.name = false)
      (ha : (c.invoke entry.1).autoforward = false) (ht : t = s)

theorem informed_tellProcess (e : Event) (entry : InvokeId × Process) :
    Informed c e entry s (s.tellProcess c e entry) := by
  unfold tellProcess
  dsimp only
  split
  · rename_i h
    exact .completed h rfl
  rename_i h
  have h : Trigger.reportsCompletion entry.2.id e.name = false := Bool.eq_false_iff.2 h
  split
  · split <;> rename_i hcall
    · exact .forwarded h (congrArg Prod.snd hcall) (congrArg Prod.fst hcall).symm
    · refine .refused h (congrArg Prod.snd hcall) ?_
      rw [hcall]
  · rename_i ha
    exact .spared h (Bool.eq_false_iff.2 ha) rfl

theorem worked_cancelProcess (i : InvokeId) : Worked s (s.cancelProcess i) := by
  have hcall (p : Process) :
      Worked s (call p .stop { s with live := Dict.erase i s.live }).1 := by
    have hlive : Worked s { s with live := Dict.erase i s.live } :=
      .of_eq rfl rfl rfl rfl rfl rfl rfl
    exact hlive.trans (worked_call p .stop)
  cases dismissed_cancelProcess (s := s) i with
  | absent _ ht => rw [ht]; exact .refl s
  | stopped _ _ ht => rw [ht]; exact hcall _
  | failed _ _ ht => rw [ht]; exact (hcall _).trans (worked_raise _)

theorem worked_cancelProcesses (is : List InvokeId) : Worked s (s.cancelProcesses is) :=
  Worked.foldl (fun _ i => worked_cancelProcess i) is s

/-- A process that was not yet started is given up; the others are told to end. -/
theorem endProcesses_spec (n : NodeId) :
    Quiet s (s.endProcesses c n) ∧ s.store.Revised (s.endProcesses c n).store := by
  unfold endProcesses
  split
  · exact ⟨.of_eq ⟨rfl, rfl, rfl⟩ rfl rfl rfl rfl rfl, Relation.ReflTransGen.refl⟩
  · exact ⟨(worked_cancelProcesses _).quiet, (worked_cancelProcesses _).store⟩

theorem worked_readied (i : InvokeId) : Worked s (s.readied c i) :=
  readied_induction (P := Worked s) i (.refl s)
    (fun _ _ h => h.trans (worked_fail _ (by decide) _ _)) (fun _ h => h.trans (worked_raise _))
    fun _ h => h.trans (.of_eq rfl rfl rfl rfl rfl rfl rfl)

theorem worked_start (i : InvokeId) : Worked s (s.start c i) := by
  have hready := worked_readied (c := c) (s := s) i
  cases launched_start (c := c) (s := s) i with
  | unsourced ht => rw [ht]; exact worked_fail _ (by decide) _ _
  | unmade _ ht => rw [ht]; exact worked_raise _
  | begun _ _ ht =>
    rw [ht]
    exact (hready.trans (worked_call _ _)).trans (.of_eq rfl rfl rfl rfl rfl rfl rfl)
  | refused _ _ ht => rw [ht]; exact (hready.trans (worked_call _ _)).trans (worked_raise _)

theorem worked_startAll (states : NodeSet) : Worked s (s.startAll c states) :=
  Worked.foldl (fun s n => Worked.foldl (fun _ i => worked_start i) (c.node n).invokes s) states s

theorem quiet_startPending : Quiet s (s.startPending c) :=
  (worked_startAll s.pending).quiet.trans (.of_eq ⟨rfl, rfl, rfl⟩ rfl rfl rfl rfl rfl)

theorem worked_tellProcess (e : Event) (entry : InvokeId × Process) :
    Worked s (s.tellProcess c e entry) := by
  cases informed_tellProcess (c := c) (s := s) e entry with
  | completed _ ht => rw [ht]; exact (worked_run _ _).trans (.of_eq rfl rfl rfl rfl rfl rfl rfl)
  | forwarded _ _ ht => rw [ht]; exact worked_call _ _
  | refused _ _ ht =>
    rw [ht]
    exact (worked_call _ _).trans ((worked_report (by decide) _ _).trans (worked_raise _))
  | spared _ _ ht => rw [ht]; exact .refl s

theorem worked_tellProcesses (e : Event) : Worked s (s.tellProcesses c e) :=
  Worked.foldl (fun _ entry => worked_tellProcess e entry) s.live s

/-! ### The parts of a step -/

theorem worked_take (event : Option String) (i : TransitionId) : Worked s (s.take c event i) := by
  unfold take
  dsimp only
  split
  · exact (worked_run _ _).trans (Worked.foldl (fun _ _ => worked_notify _ _) _ _)
  · exact worked_run _ _

theorem worked_raiseDone (parent : NodeId) : Worked s (s.raiseDone c parent) := by
  unfold raiseDone
  dsimp only
  split
  · exact worked_raise _
  split
  · exact (worked_raise _).trans (worked_raise _)
  · exact worked_raise _

theorem worked_runDefaults (plan : EntryPlan) (n : Node) : Worked s (s.runDefaults c plan n) := by
  rw [runDefaults_eq]
  exact .foldl (fun _ _ => worked_run _ _) _ _

/-- Up to the processes of a state, leaving it is content once its histories have recorded. -/
theorem leave_parts (n : NodeId) :
    ∃ t, Worked (s.recordHistories c n) t ∧ s.leave c n = t.endProcesses c n :=
  ⟨_, (worked_runBlocks ..).trans (worked_notify ..), rfl⟩

/-- Up to the leaf itself, leaving a state for good is content. -/
theorem abandon_parts (n : NodeId) : ∃ t, Worked s t ∧
    s.abandon c n = if (c.node n).isTopLevelFinal then t else t.mapStore (Store.deactivate [n]) :=
  ⟨_, (Worked.foldl (fun _ (b : Block) => worked_run (some n) b.actions) (c.node n).onExit s).trans
    ((worked_cancelProcesses _).trans (worked_notify ..)), rfl⟩

end Session
end Statechart
