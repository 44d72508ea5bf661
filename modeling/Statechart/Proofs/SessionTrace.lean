import Statechart.Proofs.Run

/-! What a session does, told as a list.

    A session runs content, enters and leaves states, takes transitions, and starts, tells and ends
    processes. Each of these deeds has its conditions, which can be told from the deeds before it: a
    state is entered while it is not present and left while it is; a process starts while its declaration
    has none and its state is present; and one that runs is stopped when its state has been left or when
    everything ends. In between a session does only what no one sees: it queues events of its own,
    reports faults, and keeps its books. `Does` puts deeds one after the other. -/

namespace Statechart

/-- Something that a session does. -/
inductive Deed where
  | ran (owner : Option NodeId) (actions : List Action)
  | exited (n : NodeId)
  | entered (n : NodeId)
  | took (i : TransitionId) (source target : NodeId) (event : Option String)
  | began (i : InvokeId) (p : Process) (source : String) (params : Object)
  | refused (i : InvokeId) (p : Process) (source : String) (params : Object)
  | forwarded (i : InvokeId) (p : Process) (e : Event)
  | stopped (i : InvokeId) (p : Process)
  | completed (i : InvokeId) (p : Process)
  | given (e : Event)
  | told
  | closed

/-- What is known between two deeds: the states that are present, the processes that run, the event from
    outside that they are being told of, and whether everything ends. -/
structure Scene where
  present : NodeSet
  live : Dict InvokeId Process
  hand : Option Event
  closing : Bool

/-- What is known of a session that has not done anything but that certain states are active. -/
def Scene.opening (A : NodeSet) : Scene := ⟨A, [], none, false⟩

/-- When a deed may be done, and what is known after it. -/
inductive Turn (c : Chart) (x : Scene) : Deed → Scene → Prop where
  | ran (owner : Option NodeId) (actions : List Action) : Turn c x (.ran owner actions) x
  | exited {n : NodeId} (hn : n < c.nodes.size) (hp : n ∈ x.present) :
      Turn c x (.exited n) { x with present := NodeSet.erase n x.present }
  | entered {n : NodeId} (hn : n < c.nodes.size) (hp : n ∉ x.present) (hopen : x.closing = false) :
      Turn c x (.entered n) { x with present := NodeSet.insert n x.present }
  | took (i : TransitionId) (source target : NodeId) (event : Option String)
      (hopen : x.closing = false) : Turn c x (.took i source target event) x
  | began {i : InvokeId} (p : Process) (source : String) (params : Object)
      (hidle : x.hand = none ∧ x.closing = false) (hfree : i ∉ Dict.keys x.live)
      (howner : (c.invoke i).owner ∈ x.present) :
      Turn c x (.began i p source params) { x with live := Dict.insert i p x.live }
  | refused {i : InvokeId} (p : Process) (source : String) (params : Object)
      (hidle : x.hand = none ∧ x.closing = false) (hfree : i ∉ Dict.keys x.live)
      (howner : (c.invoke i).owner ∈ x.present) :
      Turn c x (.refused i p source params) x
  | forwarded {i : InvokeId} {p : Process} {e : Event} (hlive : Dict.get? i x.live = some p)
      (hhand : x.hand = some e) : Turn c x (.forwarded i p e) x
  | stopped {i : InvokeId} {p : Process} (hlive : Dict.get? i x.live = some p)
      (hcause : (c.invoke i).owner ∉ x.present ∨ x.closing = true) :
      Turn c x (.stopped i p) { x with live := Dict.erase i x.live }
  | completed {i : InvokeId} {p : Process} {e : Event} (hlive : Dict.get? i x.live = some p)
      (hhand : x.hand = some e) (h : Trigger.reportsCompletion p.id e.name = true) :
      Turn c x (.completed i p) { x with live := Dict.erase i x.live }
  | given (e : Event) (hopen : x.closing = false) : Turn c x (.given e) { x with hand := some e }
  | told : Turn c x .told { x with hand := none }
  | closed : Turn c x .closed { x with closing := true }

/-- Whether an entry is a notice or a call. -/
def Entry.isMark : Entry → Bool
  | .noticed _ _ => true
  | .called _ _ => true
  | _ => false

/-- Whether an entry reports a fault. -/
def Entry.Report : Entry → Prop
  | .fault _ _ _ => True
  | _ => False

/-- Whether an event reports a failure or a change, as those do that a session raises by itself. -/
def Event.Reports (e : Event) : Prop := e.kind = .error ∨ e.kind = .change

/-- The notices and calls that a deed writes into the journal. -/
def Deed.marks (c : Chart) (ls : Listeners) : Deed → List Entry
  | .exited n => ls.tell (c.node n).observable (.exited (c.node n)) ++
      ls.tell Listeners.chart (.exited (c.node n))
  | .entered n => ls.tell (c.node n).observable (.entered (c.node n)) ++
      ls.tell Listeners.chart (.entered (c.node n))
  | .took i source target event =>
      let notice : Notice := .taken (c.node source) (c.node target) (c.transition i) event
      ls.tell (c.transition i).observable notice ++ ls.tell Listeners.chart notice
  | .began _ p source params => [.called p.id (.start source params)]
  | .refused _ p source params => [.called p.id (.start source params)]
  | .forwarded _ p e => [.called p.id (.forward e)]
  | .stopped _ p => [.called p.id .stop]
  | _ => []

namespace Session

variable {c : Chart} {s t u : Session} {x y z : Scene} {d : Deed} {ds es : List Deed} {e : Event}
  {n : NodeId} {i : InvokeId} {p : Process}

/-- The notices and calls so far. -/
def marks (s : Session) : List Entry := s.journal.toList.filter Entry.isMark

/-- What content and the keeping of books leave alone: processes and listeners. Journal and queue grow,
    but by no call and no notice, and by no event that stops the machine. -/
structure Aside (s t : Session) : Prop where
  journal : Continues (fun e => e.isMark = false) s.journal.toList t.journal.toList
  initialized : t.initialized = s.initialized
  live : t.live = s.live
  listeners : t.listeners = s.listeners
  queue : ∀ e ∈ t.queue, e ∈ s.queue ∨ e.isCancel = false

/-- What no one sees: faults and changes are reported, and no variable changes. -/
structure Silent (s t : Session) : Prop where
  journal : Continues Entry.Report s.journal.toList t.journal.toList
  initialized : t.initialized = s.initialized
  live : t.live = s.live
  listeners : t.listeners = s.listeners
  queue : ∀ e ∈ t.queue, e ∈ s.queue ∨ e.Reports
  globals : t.store.globals = s.store.globals
  contexts : ∀ n vars, Dict.get? n s.store.contexts = some vars →
    Dict.get? n t.store.contexts = some vars

/-- What a deed does to a session. -/
def Makes (c : Chart) (s : Session) : Deed → Session → Prop
  | .ran owner actions, t => t = s.run c owner actions
  | .exited n, t => t = s.notify (c.node n).observable (.exited (c.node n))
  | .entered n, t => t = s.notify (c.node n).observable (.entered (c.node n))
  | .took i source target event, t => t = s.notify (c.transition i).observable
      (.taken (c.node source) (c.node target) (c.transition i) event)
  | .began i p source params, t => (s.call p (.start source params)).2 = none ∧
      t = { (s.call p (.start source params)).1 with live := Dict.insert i p s.live }
  | .refused _ p source params, t => (s.call p (.start source params)).2 ≠ none ∧
      t = (s.call p (.start source params)).1
  | .forwarded _ p e, t => t = (s.call p (.forward e)).1
  | .stopped i p, t => t = ({ s with live := Dict.erase i s.live }.call p .stop).1
  | .completed i _, t => t = { s with live := Dict.erase i s.live }
  | .given e, t => t = s.present (.ofEvent e false)
  | .told, t => t = s
  | .closed, t => t = s

/-- Deeds one after the other, and in between what no one sees. -/
inductive Does (c : Chart) (x : Scene) (s : Session) : List Deed → Scene → Session → Prop where
  | refl (h : x.live = s.live) : Does c x s [] x s
  | silent {y : Scene} {t u : Session} {ds : List Deed} (h : Does c x s ds y t) (hs : Silent t u) :
      Does c x s ds y u
  | act {y z : Scene} {t u : Session} {ds : List Deed} {d : Deed} (h : Does c x s ds y t)
      (ht : Turn c y d z) (hm : Makes c t d u) : Does c x s (ds ++ [d]) z u

/-! ### What no one sees -/

namespace Silent

theorem refl (s : Session) : Silent s s :=
  ⟨.refl _, rfl, rfl, rfl, fun _ he => .inl he, rfl, fun _ _ h => h⟩

theorem trans (h : Silent s t) (h' : Silent t u) : Silent s u where
  journal := h.journal.trans h'.journal
  initialized := h'.initialized.trans h.initialized
  live := h'.live.trans h.live
  listeners := h'.listeners.trans h.listeners
  queue e he := (h'.queue e he).elim (h.queue e) .inr
  globals := h'.globals.trans h.globals
  contexts n vars hv := h'.contexts n vars (h.contexts n vars hv)

/-- Nothing but parts of a session that no one looks at here has changed. -/
theorem of_eq (hj : t.journal = s.journal) (hi : t.initialized = s.initialized)
    (hl : t.live = s.live) (hls : t.listeners = s.listeners) (hq : t.queue = s.queue)
    (hg : t.store.globals = s.store.globals) (hx : t.store.contexts = s.store.contexts) :
    Silent s t where
  journal := hj ▸ .refl _
  initialized := hi
  live := hl
  listeners := hls
  queue e he := .inl (hq ▸ he)
  globals := hg
  contexts n vars hv := by rwa [hx]

theorem aside (h : Silent s t) : Aside s t where
  journal := h.journal.imp fun e he => by
    cases e with
    | fault code detail place => rfl
    | _ => exact he.elim
  initialized := h.initialized
  live := h.live
  listeners := h.listeners
  queue e he := (h.queue e he).imp_right fun h => by rcases h with h | h <;> simp [Event.isCancel, h]

end Silent

theorem silent_raise (he : e.Reports) : Silent s (s.raise e) where
  journal := .refl _
  initialized := rfl
  live := rfl
  listeners := rfl
  queue d hd := by
    rcases List.mem_append.1 hd with hd | hd
    · exact .inl hd
    · exact .inr (List.mem_singleton.1 hd ▸ he)
  globals := rfl
  contexts _ _ h := h

theorem silent_report (code : ErrorCode) (detail : String) (place : Option String) :
    Silent s (s.report code detail place) where
  journal := ⟨[_], Array.toList_push .., by simp [Entry.Report]⟩
  initialized := rfl
  live := rfl
  listeners := rfl
  queue _ he := .inl he
  globals := rfl
  contexts _ _ h := h

theorem silent_fail (code : ErrorCode) (detail : String) (place : Option String) :
    Silent s (s.fail code detail place) :=
  (silent_report ..).trans (silent_raise (.inl rfl))

theorem silent_mapStore {f : Store → Store} (hg : (f s.store).globals = s.store.globals)
    (hx : (f s.store).contexts = s.store.contexts) : Silent s (s.mapStore f) :=
  .of_eq rfl rfl rfl rfl rfl hg hx

theorem silent_ensureContext (n : NodeId) : Silent s (s.mapStore (Store.ensureContext c n)) where
  journal := .refl _
  initialized := rfl
  live := rfl
  listeners := rfl
  queue _ he := .inl he
  globals := by
    simp only [mapStore, Store.ensureContext]
    split <;> rfl
  contexts m vars h := by
    simp only [mapStore, Store.ensureContext]
    split
    · exact h
    · rename_i hnew
      rw [Dict.get?_insert_of_ne ?_]
      · exact h
      · rintro rfl
        simp [Dict.has, h] at hnew

theorem silent_recordHistories (n : NodeId) : Silent s (s.recordHistories c n) := by
  have h (hs : List NodeId) (store : Store) :
      (hs.foldl (recordHistory c n) store).globals = store.globals ∧
        (hs.foldl (recordHistory c n) store).contexts = store.contexts := by
    refine List.foldlRecOn (motive := fun r => r.globals = store.globals ∧ r.contexts = store.contexts)
      hs (recordHistory c n) ⟨rfl, rfl⟩ fun r hr k _ => ?_
    unfold recordHistory
    split <;> exact hr
  exact silent_mapStore (h _ _).1 (h _ _).2

theorem silent_publish : Silent s (s.publish c) := silent_mapStore rfl rfl

theorem silent_raiseDone (parent : NodeId) : Silent s (s.raiseDone c parent) := by
  unfold raiseDone
  dsimp only
  split
  · exact silent_raise (.inr rfl)
  split
  · exact (silent_raise (.inr rfl)).trans (silent_raise (.inr rfl))
  · exact silent_raise (.inr rfl)

theorem silent_finish (n : Node) : Silent s (s.finish c n) := by
  unfold finish
  split
  · split
    · exact .of_eq rfl rfl rfl rfl rfl rfl rfl
    · exact silent_raiseDone _
  · exact .refl s

theorem silent_readied (i : InvokeId) : Silent s (s.readied c i) :=
  readied_induction (P := Silent s) i (.refl s) (fun _ _ h => h.trans (silent_fail _ _ _))
    (fun _ h => h.trans (silent_raise (.inl rfl)))
    fun _ h => h.trans (.of_eq rfl rfl rfl rfl rfl rfl rfl)

/-! ### Selecting transitions -/

theorem silent_enabled (event : Option String) (i : TransitionId) :
    Silent s (s.enabled c event i).2 := by
  unfold enabled
  dsimp only
  split
  · split
    · exact .refl s
    · split
      · exact .refl s
      · exact silent_fail _ _ _
  · exact .refl s

theorem silent_firstEnabled (event : Option String) : ∀ (ts : List TransitionId) (s : Session),
    Silent s (firstEnabled c event ts s).2
  | [], s => .refl s
  | i :: ts, s => by
    have h : Silent s (s.enabled c event i).2 := silent_enabled event i
    rw [firstEnabled]
    split <;> rename_i e <;> rw [e] at h
    · exact h
    · exact h.trans (silent_firstEnabled event ts _)

theorem silent_climb (event : Option String) : ∀ (ns : List NodeId) (r : Search),
    Silent r.session (climb c event ns r).session
  | [], r => .refl _
  | n :: ns, r => by
    have h := silent_firstEnabled (c := c) event (c.node n).transitions r.session
    rw [climb]
    split
    · exact .refl _
    dsimp only
    split <;> rename_i e <;> rw [e] at h
    · exact h
    · exact h.trans (silent_climb event ns ⟨r.found, _, _⟩)

theorem silent_searchLeaf (event : Option String) (r : Search) (leaf : NodeId) :
    Silent r.session (searchLeaf c event r leaf).session := by
  unfold searchLeaf
  split
  · exact silent_climb event _ r
  · exact silent_report ..

theorem silent_select (event : Option String) : Silent s (s.select c event).2 := by
  have h (ls : List NodeId) (r : Search) :
      Silent r.session (ls.foldl (searchLeaf c event) r).session :=
    List.foldlRecOn (motive := fun q => Silent r.session q.session) ls (searchLeaf c event) (.refl _)
      fun q hq l _ => hq.trans (silent_searchLeaf event q l)
  exact h (c.sortDocument s.store.leaves) ⟨[], [], s⟩

theorem silent_of_select {name : Option String} {ts : List TransitionId}
    (h : s.select c name = (ts, t)) : Silent s t := by
  have := silent_select (c := c) (s := s) name
  rwa [h] at this

theorem silent_nextInternal {event : Option Event} {ts : List TransitionId}
    (h : s.nextInternal c = (event, ts, t)) : Silent s t := by
  have popped {e : Event} {queue : EventQueue} {u : Session} (h : u.queue = e :: queue) :
      Silent u { u with queue } :=
    ⟨.refl _, rfl, rfl, rfl, fun d hd => .inl (h ▸ List.mem_cons_of_mem _ hd), rfl, fun _ _ h => h⟩
  cases choice_of_nextInternal h with
  | eventless hs => exact silent_of_select hs
  | idle hs => exact silent_of_select hs
  | stop hs hq =>
    exact (silent_of_select hs).trans ((popped hq).trans (.of_eq rfl rfl rfl rfl rfl rfl rfl))
  | next hs hq _ ht =>
    exact (silent_of_select hs).trans
      ((popped hq).trans ((silent_mapStore rfl rfl).trans (silent_of_select ht)))

/-! ### Content -/

namespace Aside

theorem refl (s : Session) : Aside s s := (Silent.refl s).aside

theorem trans (h : Aside s t) (h' : Aside t u) : Aside s u where
  journal := h.journal.trans h'.journal
  initialized := h'.initialized.trans h.initialized
  live := h'.live.trans h.live
  listeners := h'.listeners.trans h.listeners
  queue e he := (h'.queue e he).elim (h.queue e) .inr

theorem of_note {e : Entry} (h : e.isMark = false) : Aside s (s.note e) where
  journal := ⟨[e], Array.toList_push .., by simpa using h⟩
  initialized := rfl
  live := rfl
  listeners := rfl
  queue _ he := .inl he

end Aside

theorem aside_raise (he : e.isCancel = false) : Aside s (s.raise e) where
  journal := .refl _
  initialized := rfl
  live := rfl
  listeners := rfl
  queue d hd := by
    rcases List.mem_append.1 hd with hd | hd
    · exact .inl hd
    · exact .inr (List.mem_singleton.1 hd ▸ he)

theorem aside_perform (owner : Option NodeId) (a : Action) : Aside s (s.perform c owner a).1 := by
  cases a with
  | log label expr =>
    cases expr with
    | none => exact .of_note rfl
    | some expr =>
      rw [perform]
      split
      · exact .of_note rfl
      · exact .refl s
  | raise event => exact aside_raise rfl
  | assign location expr =>
    rw [perform]
    split
    · exact ⟨.refl _, rfl, rfl, rfl, fun _ he => .inl he⟩
    · exact .refl s
  | send id target kind event delay params =>
    rw [perform]
    split
    · split
      · exact aside_raise rfl
      · exact .of_note rfl
    · exact .refl s
  | cancel sendId => exact .of_note rfl

theorem aside_run (owner : Option NodeId) (as : List Action) : Aside s (s.run c owner as) := by
  refine List.foldlRecOn as (act c owner) (.refl s) fun t ht a _ => ht.trans ?_
  have h : Aside t (t.perform c owner a).1 := aside_perform owner a
  unfold act
  split <;> rename_i e <;> rw [e] at h
  · exact h
  · exact h.trans (silent_fail _ _ _).aside

/-! ### What deeds leave behind -/

theorem marks_of_continues {P : Entry → Prop} (hP : ∀ e, P e → e.isMark = false)
    (h : Continues P s.journal.toList t.journal.toList) : t.marks = s.marks := by
  obtain ⟨es, he, hes⟩ := h
  have hnil : es.filter Entry.isMark = [] := List.filter_eq_nil_iff.2 fun e h => by simp [hP e (hes e h)]
  rw [marks, he, List.filter_append, hnil, List.append_nil, marks]

theorem Aside.marks (h : Aside s t) : t.marks = s.marks := marks_of_continues (fun _ => id) h.journal

theorem marks_append {t : Session} (es : List Entry) (h : t.journal = s.journal ++ es) :
    t.marks = s.marks ++ es.filter Entry.isMark := by
  rw [marks, h, Array.toList_appendList, List.filter_append, marks]

theorem marks_notify (observable : Nat) (notice : Notice) : (s.notify observable notice).marks =
    s.marks ++ (s.listeners.tell observable notice ++ s.listeners.tell Listeners.chart notice) := by
  rw [marks_append _ rfl, List.filter_eq_self.2]
  intro e he
  rw [List.mem_append, Listeners.tell, Listeners.tell, List.mem_map, List.mem_map] at he
  rcases he with ⟨l, -, rfl⟩ | ⟨l, -, rfl⟩ <;> rfl

theorem marks_call (p : Process) (call : Call) :
    (s.call p call).1.marks = s.marks ++ [.called p.id call] := by
  have hdelivered (sink : Sink) (es : List Event) :
      (es.map (Entry.delivered sink)).filter Entry.isMark = [] := by
    rw [List.filter_eq_nil_iff]
    intro e he
    obtain ⟨_, -, rfl⟩ := List.mem_map.1 he
    simp [Entry.isMark]
  rw [Session.call, marks_append (s := s.note (.called p.id call)) _ rfl, hdelivered, List.append_nil,
    marks_append (s := s) [.called p.id call] (by simp [note])]
  rfl

/-- What a deed leaves behind: its marks, the listeners as they were, and no event that stops the
    machine. -/
theorem Makes.spec (h : Makes c s d t) : t.marks = s.marks ++ d.marks c s.listeners ∧
    t.listeners = s.listeners ∧ ∀ e ∈ t.queue, e ∈ s.queue ∨ e.isCancel = false := by
  have same {r : Session} (hq : r.queue = s.queue) : ∀ e ∈ r.queue, e ∈ s.queue ∨ e.isCancel = false :=
    fun _ he => .inl (hq ▸ he)
  cases d with
  | ran owner actions =>
    cases h
    have ha := aside_run (c := c) (s := s) owner actions
    exact ⟨by simp [ha.marks, Deed.marks], ha.listeners, ha.queue⟩
  | exited n => cases h; exact ⟨marks_notify .., rfl, same rfl⟩
  | entered n => cases h; exact ⟨marks_notify .., rfl, same rfl⟩
  | took i source target event => cases h; exact ⟨marks_notify .., rfl, same rfl⟩
  | began i p source params => obtain ⟨-, rfl⟩ := h; exact ⟨marks_call .., rfl, same rfl⟩
  | refused i p source params => obtain ⟨-, rfl⟩ := h; exact ⟨marks_call .., rfl, same rfl⟩
  | forwarded i p e => cases h; exact ⟨marks_call .., rfl, same rfl⟩
  | stopped i p => cases h; exact ⟨marks_call .., rfl, same rfl⟩
  | completed i p => cases h; exact ⟨(List.append_nil _).symm, rfl, same rfl⟩
  | given e => cases h; exact ⟨(List.append_nil _).symm, rfl, same rfl⟩
  | told => cases h; exact ⟨(List.append_nil _).symm, rfl, same rfl⟩
  | closed => cases h; exact ⟨(List.append_nil _).symm, rfl, same rfl⟩

theorem Makes.initialized (h : Makes c s d t) : t.initialized = s.initialized := by
  cases d with
  | ran owner actions => cases h; exact (aside_run owner actions).initialized
  | began => obtain ⟨-, rfl⟩ := h; rfl
  | refused => obtain ⟨-, rfl⟩ := h; rfl
  | _ => cases h; rfl

/-- The processes that are known to run are those that run. -/
theorem Makes.live (h : Makes c s d t) (ht : Turn c x d y) (hx : x.live = s.live) :
    y.live = t.live := by
  cases ht with
  | ran owner actions => cases h; exact hx.trans (aside_run owner actions).live.symm
  | exited => cases h; exact hx
  | entered => cases h; exact hx
  | took => cases h; exact hx
  | began => obtain ⟨-, rfl⟩ := h; exact congrArg _ hx
  | refused => obtain ⟨-, rfl⟩ := h; exact hx
  | forwarded => cases h; exact hx
  | stopped => cases h; exact congrArg _ hx
  | completed => cases h; exact congrArg _ hx
  | given => cases h; exact hx
  | told => cases h; exact hx
  | closed => cases h; exact hx

/-- Deeds one after the other, as far as they can be told from one another. -/
def Turns (c : Chart) : Scene → List Deed → Scene → Prop
  | x, [], z => z = x
  | x, d :: ds, z => ∃ y, Turn c x d y ∧ Turns c y ds z

theorem turns_append : ∀ (ds : List Deed) {x : Scene},
    Turns c x (ds ++ es) z ↔ ∃ y, Turns c x ds y ∧ Turns c y es z
  | [], x => by simp [Turns]
  | d :: ds, x => by
    simp only [List.cons_append, Turns, turns_append ds]
    constructor
    · rintro ⟨y, hd, w, hds, hes⟩
      exact ⟨w, ⟨y, hd, hds⟩, hes⟩
    · rintro ⟨w, ⟨y, hd, hds⟩, hes⟩
      exact ⟨y, hd, w, hds, hes⟩

namespace Does

theorem trans (h : Does c x s ds y t) (h' : Does c y t es z u) : Does c x s (ds ++ es) z u := by
  induction h' with
  | refl => simpa using h
  | silent _ hs ih => exact ih.silent hs
  | act _ ht hm ih =>
    rw [← List.append_assoc]
    exact ih.act ht hm

theorem live (h : Does c x s ds y t) : y.live = t.live := by
  induction h with
  | refl h => exact h
  | silent _ hs ih => exact ih.trans hs.live.symm
  | act _ ht hm ih => exact hm.live ht ih

theorem turns (h : Does c x s ds y t) : Turns c x ds y := by
  induction h with
  | refl => rfl
  | silent _ _ ih => exact ih
  | act _ ht _ ih => exact (turns_append _).2 ⟨_, ih, _, ht, rfl⟩

theorem initialized (h : Does c x s ds y t) : t.initialized = s.initialized := by
  induction h with
  | refl => rfl
  | silent _ hs ih => exact hs.initialized.trans ih
  | act _ _ hm ih => exact hm.initialized.trans ih

theorem listeners (h : Does c x s ds y t) : t.listeners = s.listeners := by
  induction h with
  | refl => rfl
  | silent _ hs ih => exact hs.listeners.trans ih
  | act _ _ hm ih => exact hm.spec.2.1.trans ih

/-- The journal tells of every notice and every call. -/
theorem marks (h : Does c x s ds y t) :
    t.marks = s.marks ++ ds.flatMap (Deed.marks c s.listeners) := by
  induction h with
  | refl => simp
  | silent _ hs ih => rw [hs.aside.marks, ih]
  | act h _ hm ih => simp [hm.spec.1, ih, h.listeners]

/-- Whatever is read off notices and calls is read off the deeds. -/
theorem read {α : Type} {f : Entry → Option α} (hf : ∀ e, e.isMark = false → f e = none)
    (h : Does c x s ds y t) : t.journal.toList.filterMap f =
      s.journal.toList.filterMap f ++ ds.flatMap fun d => (d.marks c s.listeners).filterMap f := by
  have hmarks (u : Session) : u.journal.toList.filterMap f = u.marks.filterMap f := by
    rw [Session.marks, List.filterMap_filter]
    congr
    funext e
    cases he : e.isMark with
    | true => rfl
    | false => exact hf e he
  rw [hmarks, hmarks, h.marks, List.filterMap_append, List.filterMap_flatMap]

/-- A session does not queue an event that stops it. -/
theorem queue (h : Does c x s ds y t) : ∀ e ∈ t.queue, e ∈ s.queue ∨ e.isCancel = false := by
  induction h with
  | refl => exact fun _ => .inl
  | silent _ hs ih => exact fun e he => (hs.aside.queue e he).elim (ih e) .inr
  | act _ _ hm ih => exact fun e he => (hm.spec.2.2 e he).elim (ih e) .inr

end Does

end Session
end Statechart
