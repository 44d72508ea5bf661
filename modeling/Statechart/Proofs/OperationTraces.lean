import Statechart.Proofs.Numbering
import Statechart.Proofs.SessionTrace

/-! What the operations of a session do.

    Each operation is a list of deeds. Content, exits, entries and transitions are shown one by one; what
    is done with processes in between depends on what they answer and is left open, but for this: as long
    as processes belong to present states, and none to a state that still waits for its own to be
    started, every operation keeps it so. -/

namespace Statechart

open Chart

namespace Dict

variable {κ α : Type} {k : κ} {d : Dict κ α}

/-- The map without keys. -/
def eraseAll [DecidableEq κ] (ks : List κ) (d : Dict κ α) : Dict κ α :=
  d.filter fun p => !ks.contains p.1

section eraseAll

variable [DecidableEq κ] {ks ls : List κ}

@[simp] theorem eraseAll_nil : eraseAll [] d = d := List.filter_eq_self.2 fun _ _ => rfl

@[simp] theorem eraseAll_singleton : eraseAll [k] d = erase k d :=
  List.filter_congr fun p _ => by simp

theorem eraseAll_append : eraseAll (ks ++ ls) d = eraseAll ls (eraseAll ks d) := by
  rw [eraseAll, eraseAll, eraseAll, List.filter_filter]
  exact List.filter_congr fun p _ => by simp [Bool.and_comm]

@[simp] theorem mem_keys_eraseAll : k ∈ keys (eraseAll ks d) ↔ k ∈ keys d ∧ k ∉ ks := by
  simp only [keys, eraseAll, List.mem_map, List.mem_filter]
  constructor
  · rintro ⟨p, ⟨hp, hk⟩, rfl⟩
    exact ⟨⟨p, hp, rfl⟩, by simpa using hk⟩
  · rintro ⟨⟨p, hp, rfl⟩, hk⟩
    exact ⟨p, ⟨hp, by simpa using hk⟩, rfl⟩

theorem nodup_keys_eraseAll (h : (keys d).Nodup) : (keys (eraseAll ks d)).Nodup :=
  h.sublist (List.filter_sublist.map _)

theorem get?_eraseAll (h : k ∉ ks) : get? k (eraseAll ks d) = get? k d := by
  induction ks generalizing d with
  | nil => rw [eraseAll_nil]
  | cons l ks ih =>
    rw [List.mem_cons, not_or] at h
    rw [← List.singleton_append, eraseAll_append, eraseAll_singleton, ih h.2,
      get?_erase_of_ne h.1]

end eraseAll

end Dict

namespace Deed

/-- Whether a deed is shown: content, exits, entries and transitions are. -/
def shows : Deed → Bool
  | .ran _ _ => true
  | .exited _ => true
  | .entered _ => true
  | .took _ _ _ _ => true
  | _ => false

/-- Running the blocks of a state. -/
def runs (n : NodeId) (bs : List Block) : List Deed := bs.map fun b => .ran (some n) b.actions

/-- Leaving a state. -/
def exits (c : Chart) (n : NodeId) : List Deed := runs n (c.node n).onExit ++ [.exited n]

/-- The transitions through which a state was entered: its initial one, and the default of its
    history. -/
def defaults (c : Chart) (plan : EntryPlan) (n : NodeId) : List TransitionId :=
  (if plan.defaultEntry.contains n && (c.node n).isCompound then (c.node n).initial.toList else []) ++
    (Dict.get? n plan.defaultHistory).toList

/-- Entering a state. -/
def enters (c : Chart) (plan : EntryPlan) (n : NodeId) : List Deed :=
  runs n (c.node n).onEntry ++ [.entered n] ++
    (defaults c plan n).map fun t => .ran (some n) (c.transition t).actions

/-- Taking a transition. -/
def takes (c : Chart) (event : Option String) (i : TransitionId) : List Deed :=
  let t := c.transition i
  .ran t.source t.actions ::
    match t.origin, t.source with
    | .event, some source =>
      (Session.destinations t source).map fun target => .took i source target event
    | _, _ => []

/-- Carrying out a step: exits from the inside out, transitions, entries from the outside in. -/
def ofStep (c : Chart) (step : Step) : List Deed :=
  (c.sortReverse step.exit).flatMap (exits c) ++ step.transitions.flatMap (takes c step.eventName) ++
    (c.sortDocument step.plan.entry).flatMap (enters c step.plan)

end Deed

namespace Session

/-- Whether a session does deeds of which certain ones are shown. -/
def Shows (c : Chart) (x : Scene) (s : Session) (shown : List Deed) (y : Scene) (t : Session) : Prop :=
  ∃ ds, ds.filter Deed.shows = shown ∧ Does c x s ds y t

/-- Whether processes belong to present states, and none to one that waits for its own to be started. -/
structure Staffed (c : Chart) (x : Scene) (pending : NodeSet) : Prop where
  distinct : (Dict.keys x.live).Nodup
  owner : ∀ i ∈ Dict.keys x.live, (c.invoke i).owner ∈ x.present
  started : ∀ i ∈ Dict.keys x.live, (c.invoke i).owner ∉ pending
  declared : ∀ i ∈ Dict.keys x.live, i ∈ (c.node (c.invoke i).owner).invokes
  waiting : ∀ n ∈ pending, n ∈ x.present
  sorted : pending.Pairwise (· < ·)

variable {c : Chart} {s t u : Session} {x y z : Scene} {d : Deed} {ds es : List Deed} {e : Event}
  {n : NodeId} {i : InvokeId} {p : Process} {event : Option String}

namespace Shows

theorem refl (hx : x.live = s.live) : Shows c x s [] x s := ⟨[], rfl, .refl hx⟩

theorem trans (h : Shows c x s ds y t) (h' : Shows c y t es z u) : Shows c x s (ds ++ es) z u := by
  obtain ⟨as, rfl, h⟩ := h
  obtain ⟨bs, rfl, h'⟩ := h'
  exact ⟨as ++ bs, List.filter_append .., h.trans h'⟩

theorem silent (h : Shows c x s ds y t) (hs : Silent t u) : Shows c x s ds y u := by
  obtain ⟨as, rfl, h⟩ := h
  exact ⟨as, rfl, h.silent hs⟩

/-- Nothing more is shown. -/
theorem more (h : Shows c x s ds y t) (h' : Shows c y t [] z u) : Shows c x s ds z u := by
  simpa using h.trans h'

/-- A deed that is shown. -/
theorem act (h : Shows c x s ds y t) (hd : d.shows = true) (ht : Turn c y d z) (hm : Makes c t d u) :
    Shows c x s (ds ++ [d]) z u := by
  obtain ⟨as, rfl, h⟩ := h
  exact ⟨as ++ [d], by simp [List.filter_append, hd], h.act ht hm⟩

/-- A deed that is not shown. -/
theorem aside (h : Shows c x s ds y t) (hd : d.shows = false) (ht : Turn c y d z) (hm : Makes c t d u) :
    Shows c x s ds z u := by
  obtain ⟨as, rfl, h⟩ := h
  exact ⟨as ++ [d], by simp [List.filter_append, hd], h.act ht hm⟩

theorem live (h : Shows c x s ds y t) : y.live = t.live := h.elim fun _ h => h.2.live

end Shows

/-! ### Content -/

theorem shows_run (hx : x.live = s.live) (owner : Option NodeId) (as : List Action) :
    Shows c x s [.ran owner as] x (s.run c owner as) :=
  (Shows.refl hx).act rfl (.ran owner as) rfl

theorem shows_runBlocks (n : NodeId) (announcement : String) : ∀ (bs : List Block) (announced : Bool)
    {s : Session}, x.live = s.live →
      Shows c x s (Deed.runs n bs) x (s.runBlocks c n announcement bs announced)
  | [], _, _, hx => .refl hx
  | b :: bs, announced, s, hx => by
    have hrun := shows_run (c := c) hx (some n) b.actions
    rw [runBlocks]
    split
    · have hraise := hrun.silent (silent_raise (e := .change announcement) (.inr rfl))
      exact hraise.trans (shows_runBlocks n announcement bs true hraise.live)
    · exact hrun.trans (shows_runBlocks n announcement bs announced hrun.live)

theorem shows_runEach {α : Type} (content : α → List Action) (n : NodeId) (as : List α)
    (hx : x.live = s.live) : Shows c x s (as.map fun a => .ran (some n) (content a)) x
      (as.foldl (fun s a => s.run c (some n) (content a)) s) := by
  induction as generalizing s with
  | nil => exact .refl hx
  | cons a as ih =>
    have hrun := shows_run (c := c) hx (some n) (content a)
    exact hrun.trans (ih hrun.live)

theorem shows_take (hx : x.live = s.live) (hopen : x.closing = false) (event : Option String)
    (i : TransitionId) :
    Shows c x s (Deed.takes c event i) x (s.take c event i) := by
  have told (source : NodeId) : ∀ (targets : List NodeId) {s : Session}, x.live = s.live →
      Shows c x s (targets.map fun target => .took i source target event) x
        (targets.foldl (fun s target => s.notify (c.transition i).observable
          (.taken (c.node source) (c.node target) (c.transition i) event)) s) := by
    intro targets
    induction targets with
    | nil => exact fun hx => .refl hx
    | cons m targets ih =>
      intro s hx
      have h : Shows c x s [.took i source m event] x _ :=
        (Shows.refl hx).act rfl (.took i source m event hopen) rfl
      exact h.trans (ih h.live)
  have hrun := shows_run (c := c) hx (c.transition i).source (c.transition i).actions
  unfold take Deed.takes
  dsimp only
  generalize (c.transition i).origin = origin
  generalize (c.transition i).source = source at hrun ⊢
  cases source with
  | none => cases origin <;> exact hrun
  | some source =>
    cases origin with
    | event => exact hrun.trans (told source _ hrun.live)
    | _ => exact hrun

theorem shows_takeAll (event : Option String) (ts : List TransitionId) : ∀ {s : Session},
    x.live = s.live → x.closing = false →
    Shows c x s (ts.flatMap (Deed.takes c event)) x (ts.foldl (take c event) s) := by
  induction ts with
  | nil => exact fun hx _ => .refl hx
  | cons i ts ih =>
    intro s hx hopen
    have h := shows_take (c := c) hx hopen event i
    exact h.trans (ih h.live hopen)

theorem shows_runDefaults (hx : x.live = s.live) (plan : EntryPlan) (hi : (c.node n).index = n) :
    Shows c x s ((Deed.defaults c plan n).map fun t => .ran (some n) (c.transition t).actions) x
      (s.runDefaults c plan (c.node n)) := by
  rw [runDefaults_eq, hi]
  exact shows_runEach (fun t => (c.transition t).actions) n _ hx

/-! ### Stopping processes -/

theorem shows_cancelProcess (hx : x.live = s.live)
    (h : (c.invoke i).owner ∉ x.present ∨ x.closing = true) :
    Shows c x s [] { x with live := Dict.erase i x.live } (s.cancelProcess i) := by
  have hstop {p : Process} (hp : Dict.get? i s.live = some p) :
      Shows c x s [] { x with live := Dict.erase i x.live }
        ({ s with live := Dict.erase i s.live }.call p .stop).1 :=
    (Shows.refl hx).aside rfl (.stopped (hx ▸ hp) h) rfl
  cases dismissed_cancelProcess (s := s) i with
  | absent hp ht =>
    rw [← hx, Dict.get?_eq_none_iff] at hp
    rw [ht, Dict.erase_of_not_mem hp]
    exact .refl hx
  | stopped hp _ ht => rw [ht]; exact hstop hp
  | failed hp _ ht => rw [ht]; exact (hstop hp).silent (silent_raise (.inl rfl))

theorem shows_cancelProcesses : ∀ (is : List InvokeId) {x : Scene} {s : Session}, x.live = s.live →
    (∀ i ∈ is, (c.invoke i).owner ∉ x.present ∨ x.closing = true) →
    Shows c x s [] { x with live := Dict.eraseAll is x.live } (s.cancelProcesses is)
  | [], x, s, hx, _ => by
    rw [Dict.eraseAll_nil]
    exact .refl hx
  | i :: is, x, s, hx, h => by
    have hone := shows_cancelProcess hx (h i (by simp))
    have hall := shows_cancelProcesses is hone.live fun j hj => h j (List.mem_cons_of_mem _ hj)
    rw [← List.singleton_append, Dict.eraseAll_append, Dict.eraseAll_singleton]
    exact hone.trans hall

/-! ### Starting processes -/

theorem shows_start (hx : x.live = s.live) (hidle : x.hand = none ∧ x.closing = false)
    (hfree : i ∉ Dict.keys x.live) (howner : (c.invoke i).owner ∈ x.present) :
    ∃ live, (live = x.live ∨ ∃ p, live = Dict.insert i p x.live) ∧
      Shows c x s [] { x with live } (s.start c i) := by
  have none {t : Session} (hs : Silent s t) :
      ∃ live, (live = x.live ∨ ∃ p, live = Dict.insert i p x.live) ∧
        Shows c x s [] { x with live } t := ⟨x.live, .inl rfl, (Shows.refl hx).silent hs⟩
  have hready := (Shows.refl (c := c) hx).silent (silent_readied (c := c) i)
  cases launched_start (c := c) (s := s) i with
  | unsourced ht => rw [ht]; exact none (silent_fail _ _ _)
  | unmade _ ht => rw [ht]; exact none (silent_raise (.inl rfl))
  | begun _ hf ht =>
    rw [ht, ← hready.live]
    refine ⟨_, .inr ⟨_, rfl⟩, hready.aside rfl (.began _ _ _ hidle hfree howner) ⟨hf, ?_⟩⟩
    rw [hready.live]
  | refused _ hf ht =>
    rw [ht]
    exact ⟨x.live, .inl rfl, Shows.silent
      (hready.aside rfl (.refused _ _ _ hidle hfree howner) ⟨hf, rfl⟩) (silent_raise (.inl rfl))⟩

theorem mem_keys_of_started {live live' : Dict InvokeId Process}
    (h : live' = live ∨ ∃ p, live' = Dict.insert i p live) {j : InvokeId} (hj : j ∈ Dict.keys live') :
    j ∈ Dict.keys live ∨ j = i := by
  rcases h with rfl | ⟨p, rfl⟩
  · exact .inl hj
  · exact (Dict.mem_keys_insert.1 hj).symm

/-- Starting processes of a state none of which runs. -/
theorem shows_startEach : ∀ (is : List InvokeId) {x : Scene} {s : Session}, x.live = s.live →
    x.hand = none ∧ x.closing = false → is.Nodup →
    (∀ i ∈ is, i ∉ Dict.keys x.live ∧ (c.invoke i).owner ∈ x.present) →
    (Dict.keys x.live).Nodup → ∃ live, (Dict.keys live).Nodup ∧
      (∀ j ∈ Dict.keys live, j ∈ Dict.keys x.live ∨ j ∈ is) ∧
      Shows c x s [] { x with live } (is.foldl (start c) s)
  | [], x, _, hx, _, _, _, hd => ⟨x.live, hd, fun _ => .inl, .refl hx⟩
  | i :: is, x, s, hx, hidle, hnodup, h, hd => by
    obtain ⟨hi, hnodup⟩ := List.nodup_cons.1 hnodup
    obtain ⟨live, hlive, hone⟩ := shows_start hx hidle (h i (by simp)).1 (h i (by simp)).2
    have hfree : ∀ j ∈ is, j ∉ Dict.keys live ∧ (c.invoke j).owner ∈ x.present := by
      intro j hj
      obtain ⟨hjl, hjo⟩ := h j (List.mem_cons_of_mem _ hj)
      refine ⟨fun hm => ?_, hjo⟩
      rcases mem_keys_of_started hlive hm with hm | rfl
      · exact hjl hm
      · exact hi hj
    have hd' : (Dict.keys live).Nodup := by
      rcases hlive with rfl | ⟨p, rfl⟩
      · exact hd
      · exact ((Dict.insert_perm (h i (by simp)).1).map Prod.fst).nodup_iff.2
          (List.nodup_cons.2 ⟨(h i (by simp)).1, hd⟩)
    obtain ⟨live', hd'', hmem, hall⟩ :=
      shows_startEach is (x := { x with live }) hone.live hidle hnodup hfree hd'
    refine ⟨live', hd'', fun j hj => ?_, hone.trans hall⟩
    rcases hmem j hj with hj | hj
    · rcases mem_keys_of_started hlive hj with hj | rfl
      · exact .inl hj
      · exact .inr (by simp)
    · exact .inr (List.mem_cons_of_mem _ hj)

/-! ### Telling processes -/

/-- The processes that an event completes. -/
def completed (e : Event) (d : Dict InvokeId Process) : List InvokeId :=
  Dict.keys (d.filter fun p => Trigger.reportsCompletion p.2.id e.name)

/-- What a process does that an event completes: its final content. -/
def finals (c : Chart) (e : Event) (d : Dict InvokeId Process) : List Deed :=
  (completed e d).map fun i => .ran (some (c.invoke i).owner) (c.invoke i).finalize

theorem shows_tellProcess (hx : x.live = s.live) (hp : Dict.get? i x.live = some p)
    (he : x.hand = some e) : Shows c x s (finals c e [(i, p)])
      { x with live := Dict.eraseAll (completed e [(i, p)]) x.live } (s.tellProcess c e (i, p)) := by
  have hnone (h : Trigger.reportsCompletion p.id e.name = false) :
      finals c e [(i, p)] = [] ∧ Dict.eraseAll (completed e [(i, p)]) x.live = x.live := by
    simp [finals, completed, h, Dict.eraseAll_nil, Dict.keys]
  cases informed_tellProcess (c := c) (s := s) e (i, p) with
  | completed h ht =>
    have hrun := shows_run (c := c) hx (some (c.invoke i).owner) (c.invoke i).finalize
    rw [ht]
    unfold finals completed
    simp only [List.filter_cons, h, if_true, List.filter_nil, Dict.keys, List.map_cons, List.map_nil,
      Dict.eraseAll_singleton]
    exact hrun.aside rfl (.completed hp he h) rfl
  | forwarded h _ ht =>
    rw [ht, (hnone h).1, (hnone h).2]
    exact (Shows.refl hx).aside rfl (.forwarded hp he) rfl
  | refused h _ ht =>
    rw [ht, (hnone h).1, (hnone h).2]
    exact ((Shows.refl hx).aside rfl (.forwarded hp he) rfl).silent
      ((silent_report ..).trans (silent_raise (.inl rfl)))
  | spared h _ ht =>
    rw [ht, (hnone h).1, (hnone h).2]
    exact .refl hx

theorem shows_tellEach : ∀ (ps : Dict InvokeId Process) {x : Scene} {s : Session}, x.live = s.live →
    (Dict.keys ps).Nodup → (∀ i p, (i, p) ∈ ps → Dict.get? i x.live = some p) → x.hand = some e →
    Shows c x s (finals c e ps) { x with live := Dict.eraseAll (completed e ps) x.live }
      (ps.foldl (tellProcess c e) s)
  | [], x, s, hx, _, _, _ => by
    have hnone : completed e [] = [] := rfl
    rw [finals, hnone, Dict.eraseAll_nil]
    exact .refl hx
  | (i, p) :: ps, x, s, hx, hd, hp, he => by
    obtain ⟨hi, hd⟩ := List.nodup_cons.1 hd
    have hone := shows_tellProcess (c := c) hx (hp i p (by simp)) he
    have hsplit : completed e ((i, p) :: ps) = completed e [(i, p)] ++ completed e ps := by
      rw [← List.singleton_append, completed, List.filter_append, Dict.keys, List.map_append]
      rfl
    have hrest := shows_tellEach ps hone.live hd (fun j q hq => ?_) he
    · rw [finals, hsplit, List.map_append, Dict.eraseAll_append]
      exact hone.trans hrest
    · -- the others still run: only the one that was told can have ended
      have hne : j ≠ i := fun h => hi (List.mem_map.2 ⟨(j, q), hq, h⟩)
      refine (Dict.get?_eraseAll fun hj => hne ?_).trans (hp j q (List.mem_cons_of_mem _ hq))
      obtain ⟨r, hr, rfl⟩ := List.mem_map.1 hj
      rw [List.mem_singleton.1 (List.mem_filter.1 hr).1]

/-- Telling processes of an event: those that it completes end, and no other. -/
theorem shows_tellProcesses (hx : x.live = s.live) (hd : (Dict.keys x.live).Nodup)
    (he : x.hand = some e) : Shows c x s (finals c e x.live)
      { x with live := Dict.eraseAll (completed e x.live) x.live } (s.tellProcesses c e) := by
  have h := shows_tellEach (c := c) x.live hx hd (fun i p hp => Dict.get?_of_mem hd hp) he
  rw [tellProcesses, ← hx]
  exact h

/-! ### Leaving and entering states -/

theorem pending_endProcesses : (s.endProcesses c n).pending = NodeSet.erase n s.pending := by
  unfold endProcesses
  split
  · rfl
  · rename_i h
    rw [(worked_cancelProcesses _).pending, NodeSet.erase, List.filter_eq_self.2]
    intro m hm
    simp only [ne_eq, decide_eq_true_eq]
    rintro rfl
    exact h (by simpa using hm)

theorem pending_leave : (s.leave c n).pending = NodeSet.erase n s.pending := by
  have hw : Worked (s.recordHistories c n)
      (((s.recordHistories c n).runBlocks c n ("exit.state." ++ (c.node n).id) (c.node n).onExit
        false).notify (c.node n).observable (.exited (c.node n))) :=
    (worked_runBlocks ..).trans (worked_notify ..)
  exact pending_endProcesses.trans (congrArg (NodeSet.erase n) hw.pending)

/-- Once a state has been left, so have its processes. -/
theorem Staffed.exit {pending live} (h : Staffed c x pending)
    (hsub : ∀ i ∈ Dict.keys live, i ∈ Dict.keys x.live) (hd : (Dict.keys live).Nodup)
    (hgone : n ∈ pending ∨ ∀ i ∈ (c.node n).invokes, i ∉ Dict.keys live) :
    Staffed c { x with present := NodeSet.erase n x.present, live } (NodeSet.erase n pending) where
  distinct := hd
  owner i hi := by
    refine NodeSet.mem_erase.2 ⟨h.owner i (hsub i hi), ?_⟩
    rintro rfl
    exact hgone.elim (h.started i (hsub i hi)) fun hnot => hnot i (h.declared i (hsub i hi)) hi
  started i hi hm := h.started i (hsub i hi) (NodeSet.mem_erase.1 hm).1
  declared i hi := h.declared i (hsub i hi)
  waiting m hm := by
    obtain ⟨hm, hne⟩ := NodeSet.mem_erase.1 hm
    exact NodeSet.mem_erase.2 ⟨h.waiting m hm, hne⟩
  sorted := h.sorted.filter _

theorem shows_leave (hn : c.Numbered) (hx : x.live = s.live) (h : Staffed c x s.pending)
    (hlt : n < c.nodes.size) (hp : n ∈ x.present) :
    ∃ live, Shows c x s (Deed.exits c n)
        { x with present := NodeSet.erase n x.present, live } (s.leave c n) ∧
      Staffed c { x with present := NodeSet.erase n x.present, live } (s.leave c n).pending := by
  have hblocks := ((Shows.refl (c := c) hx).silent (silent_recordHistories n)).trans
    (shows_runBlocks n ("exit.state." ++ (c.node n).id) (c.node n).onExit false
      (s := s.recordHistories c n) hx)
  have hexit := hblocks.act rfl (.exited hlt hp) rfl
  rw [pending_leave]
  unfold leave
  dsimp only
  have hw : Worked (s.recordHistories c n)
      (((s.recordHistories c n).runBlocks c n ("exit.state." ++ (c.node n).id) (c.node n).onExit
        false).notify (c.node n).observable (.exited (c.node n))) :=
    (worked_runBlocks ..).trans (worked_notify ..)
  have hpending : _ = s.pending := hw.pending
  generalize ((s.recordHistories c n).runBlocks c n ("exit.state." ++ (c.node n).id) (c.node n).onExit
    false).notify (c.node n).observable (.exited (c.node n)) = t at hexit hpending
  unfold endProcesses
  split
  · rename_i hm
    have hm : n ∈ s.pending := by simpa [hpending] using hm
    refine ⟨x.live, hexit.silent (.of_eq rfl rfl rfl rfl rfl rfl rfl), ?_⟩
    exact h.exit (fun _ => id) h.distinct (.inl hm)
  · have hcancel := shows_cancelProcesses (c.node n).invokes hexit.live fun i hi =>
      .inl (by rw [hn.owner hi]; simp)
    refine ⟨_, hexit.more hcancel, ?_⟩
    exact h.exit (fun i hi => (Dict.mem_keys_eraseAll.1 hi).1) (Dict.nodup_keys_eraseAll h.distinct)
      (.inr fun i hi hm => (Dict.mem_keys_eraseAll.1 hm).2 hi)

theorem shows_leaveEach (hn : c.Numbered) : ∀ (ns : List NodeId) {x : Scene} {s : Session},
    x.live = s.live → Staffed c x s.pending → ns.Nodup → (∀ n ∈ ns, n < c.nodes.size ∧ n ∈ x.present) →
    ∃ live, Shows c x s (ns.flatMap (Deed.exits c))
        { x with present := NodeSet.eraseAll x.present ns, live } (ns.foldl (leave c) s) ∧
      Staffed c { x with present := NodeSet.eraseAll x.present ns, live } (ns.foldl (leave c) s).pending
  | [], x, s, hx, h, _, _ => by
    have he : NodeSet.eraseAll x.present [] = x.present := List.filter_eq_self.2 fun _ _ => rfl
    rw [he]
    exact ⟨x.live, .refl hx, h⟩
  | n :: ns, x, s, hx, h, hd, hp => by
    obtain ⟨hni, hd⟩ := List.nodup_cons.1 hd
    obtain ⟨hlt, hpn⟩ := hp n (by simp)
    obtain ⟨live, hone, hs⟩ := shows_leave hn hx h hlt hpn
    obtain ⟨live', hall, hs'⟩ := shows_leaveEach hn ns hone.live hs hd fun m hm => by
      obtain ⟨hlt, hp⟩ := hp m (List.mem_cons_of_mem _ hm)
      exact ⟨hlt, NodeSet.mem_erase.2 ⟨hp, fun e => hni (e ▸ hm)⟩⟩
    rw [NodeSet.eraseAll_cons]
    exact ⟨live', hone.trans hall, hs'⟩

/-- A state that is entered may wait for its processes to be started. -/
theorem Staffed.enter {pending} (h : Staffed c x pending) (hp : n ∉ x.present) :
    Staffed c { x with present := NodeSet.insert n x.present }
      (if (c.node n).invokes.isEmpty then pending else NodeSet.insert n pending) := by
  have howner : ∀ i ∈ Dict.keys x.live, (c.invoke i).owner ∈ NodeSet.insert n x.present :=
    fun i hi => NodeSet.mem_insert.2 (.inr (h.owner i hi))
  have hwaiting : ∀ m ∈ NodeSet.insert n pending, m ∈ NodeSet.insert n x.present := fun m hm =>
    NodeSet.mem_insert.2 ((NodeSet.mem_insert.1 hm).imp_right (h.waiting m))
  split
  · exact ⟨h.distinct, howner, h.started, h.declared,
      fun m hm => hwaiting m (NodeSet.mem_insert.2 (.inr hm)), h.sorted⟩
  · refine ⟨h.distinct, howner, fun i hi hm => ?_, h.declared, hwaiting,
      NodeSet.pairwise_insert h.sorted⟩
    rcases NodeSet.mem_insert.1 hm with e | hm
    · exact hp (e ▸ h.owner i hi)
    · exact h.started i hi hm

theorem silent_light (n : NodeId) : Silent s (s.light c n) := by
  unfold light
  split
  · exact silent_mapStore rfl rfl
  · exact .refl s

theorem shows_enterState (hc : c.WellFormed) (plan : EntryPlan) (hx : x.live = s.live)
    (hopen : x.closing = false) (h : Staffed c x s.pending) (hlt : n < c.nodes.size)
    (hp : n ∉ x.present) :
    Shows c x s (Deed.enters c plan n) { x with present := NodeSet.insert n x.present }
        (s.enterState c plan n) ∧
      Staffed c { x with present := NodeSet.insert n x.present } (s.enterState c plan n).pending := by
  obtain ⟨t, hready, hpending, e⟩ : ∃ t, Silent s t ∧
      t.pending = (if (c.node n).invokes.isEmpty then s.pending else NodeSet.insert n s.pending) ∧
      s.enterState c plan n =
        (((t.runBlocks c n ("entry.state." ++ (c.node n).id) (c.node n).onEntry false).notify
          (c.node n).observable (.entered (c.node n))).runDefaults c plan (c.node n)).finish c
            (c.node n) := by
    refine ⟨_, ?_, ?_, rfl⟩
    · refine ((silent_light (c := c) n).trans (silent_ensureContext (c := c) n)).trans ?_
      split
      · exact .refl _
      · exact .of_eq rfl rfl rfl rfl rfl rfl rfl
    · split
      · split <;> rfl
      · split <;> rfl
  rw [e]
  have hblocks := ((Shows.refl (c := c) hx).silent hready).trans
    (shows_runBlocks n ("entry.state." ++ (c.node n).id) (c.node n).onEntry false
      (hx.trans hready.live.symm))
  have hentered := hblocks.act rfl (.entered hlt hp hopen) rfl
  have hdefaults := hentered.trans (shows_runDefaults hentered.live plan (hc.index_eq hlt))
  refine ⟨hdefaults.silent (silent_finish _), ?_⟩
  have hw : Worked t (((t.runBlocks c n ("entry.state." ++ (c.node n).id) (c.node n).onEntry
      false).notify (c.node n).observable (.entered (c.node n))).runDefaults c plan (c.node n)) :=
    (worked_runBlocks ..).trans ((worked_notify ..).trans (worked_runDefaults ..))
  have hfinish (u : Session) : (u.finish c (c.node n)).pending = u.pending := by
    unfold finish
    split
    · split
      · rfl
      · exact (worked_raiseDone _).pending
    · rfl
  rw [hfinish, hw.pending, hpending]
  exact h.enter hp

theorem shows_enterEach (hc : c.WellFormed) (plan : EntryPlan) : ∀ (ns : List NodeId) {x : Scene}
    {s : Session}, x.live = s.live → x.closing = false → Staffed c x s.pending → ns.Nodup →
    (∀ n ∈ ns, n < c.nodes.size ∧ n ∉ x.present) →
    Shows c x s (ns.flatMap (Deed.enters c plan)) { x with present := NodeSet.insertAll x.present ns }
        (ns.foldl (enterState c plan) s) ∧
      Staffed c { x with present := NodeSet.insertAll x.present ns }
        (ns.foldl (enterState c plan) s).pending
  | [], x, s, hx, _, h, _, _ => ⟨.refl hx, h⟩
  | n :: ns, x, s, hx, hopen, h, hd, hp => by
    obtain ⟨hni, hd⟩ := List.nodup_cons.1 hd
    obtain ⟨hlt, hpn⟩ := hp n (by simp)
    obtain ⟨hone, hs⟩ := shows_enterState hc plan hx hopen h hlt hpn
    obtain ⟨hall, hs'⟩ := shows_enterEach hc plan ns hone.live hopen hs hd fun m hm => by
      obtain ⟨hlt, hp⟩ := hp m (List.mem_cons_of_mem _ hm)
      refine ⟨hlt, fun hm' => ?_⟩
      rcases NodeSet.mem_insert.1 hm' with rfl | hm'
      · exact hni hm
      · exact hp hm'
    exact ⟨hone.trans hall, hs'⟩

/-! ### Whole steps -/

/-- A step that leaves states that are present and enters others: it is done as it is written. -/
theorem shows_carryOut (hc : c.WellFormed) (hn : c.Numbered) (step : Step) (hx : x.live = s.live)
    (hopen : x.closing = false) (h : Staffed c x s.pending) (hexit : step.exit.Nodup)
    (hleft : ∀ n ∈ step.exit, n < c.nodes.size ∧ n ∈ x.present) (hentry : step.plan.entry.Nodup)
    (hfresh : ∀ n ∈ step.plan.entry, n < c.nodes.size ∧ (n ∈ x.present → n ∈ step.exit)) :
    ∃ present live, (∀ n, n ∈ present ↔ n ∈ x.present ∧ n ∉ step.exit ∨ n ∈ step.plan.entry) ∧
      Shows c x s (Deed.ofStep c step) { x with present, live } (s.carryOut c step) ∧
      Staffed c { x with present, live } (s.carryOut c step).pending := by
  have hexits {n : NodeId} : n ∈ c.sortReverse step.exit ↔ n ∈ step.exit := mem_stableSort
  have hentries {n : NodeId} : n ∈ c.sortDocument step.plan.entry ↔ n ∈ step.plan.entry := mem_stableSort
  obtain ⟨live, hleave, hs⟩ := shows_leaveEach hn (c.sortReverse step.exit) hx h
    ((stableSort_perm _ _).nodup_iff.2 hexit) fun n hn => hleft n (hexits.1 hn)
  have hforget := hleave.silent (u := s.leaveAll c step.exit) (silent_mapStore rfl rfl)
  have htake := hforget.trans (shows_takeAll step.eventName step.transitions hforget.live hopen)
  have hw : Worked (s.leaveAll c step.exit)
      (step.transitions.foldl (take c step.eventName) (s.leaveAll c step.exit)) :=
    Worked.foldl (fun _ i => worked_take _ i) _ _
  obtain ⟨henter, hs'⟩ := shows_enterEach hc step.plan (c.sortDocument step.plan.entry) htake.live hopen
    (hw.pending ▸ hs) ((stableSort_perm _ _).nodup_iff.2 hentry) fun n hn => by
      obtain ⟨hlt, hout⟩ := hfresh n (hentries.1 hn)
      refine ⟨hlt, fun hm => ?_⟩
      obtain ⟨hm, hne⟩ := NodeSet.mem_eraseAll.1 hm
      exact hne (hexits.2 (hout hm))
  refine ⟨_, live, fun n => ?_, htake.trans henter, hs'⟩
  rw [NodeSet.mem_insertAll, NodeSet.mem_eraseAll, hexits, hentries]

/-! ### Starting what waits -/

theorem shows_startAll (hn : c.Numbered) : ∀ (ns : NodeSet) {x : Scene} {s : Session},
    x.live = s.live → x.hand = none ∧ x.closing = false → Staffed c x ns →
    ∃ live, Shows c x s [] { x with live } (s.startAll c ns) ∧ Staffed c { x with live } []
  | [], x, _, hx, _, h => ⟨x.live, .refl hx, h⟩
  | n :: ns, x, s, hx, hidle, h => by
    have hfree : ∀ i ∈ (c.node n).invokes,
        i ∉ Dict.keys x.live ∧ (c.invoke i).owner ∈ x.present := by
      intro i hi
      rw [hn.owner hi]
      refine ⟨fun hm => h.started i hm ?_, h.waiting n (by simp)⟩
      rw [hn.owner hi]
      exact List.mem_cons_self
    obtain ⟨live, hd, hmem, hstart⟩ := shows_startEach _ hx hidle (hn.once n) hfree h.distinct
    obtain ⟨hlt, hsorted⟩ := List.pairwise_cons.1 h.sorted
    have hs : Staffed c { x with live } ns := by
      refine ⟨hd, fun i hi => ?_, fun i hi hm => ?_, fun i hi => ?_,
        fun m hm => h.waiting m (List.mem_cons_of_mem _ hm), hsorted⟩ <;>
      rcases hmem i hi with hi | hi
      · exact h.owner i hi
      · exact (hfree i hi).2
      · exact h.started i hi (List.mem_cons_of_mem _ hm)
      · rw [hn.owner hi] at hm
        exact Nat.lt_irrefl n (hlt n hm)
      · exact h.declared i hi
      · rwa [hn.owner hi]
    obtain ⟨live', hall, hs'⟩ := shows_startAll hn ns hstart.live hidle hs
    exact ⟨live', hstart.more hall, hs'⟩

/-- Starting the processes of the pending states. -/
theorem shows_startPending (hn : c.Numbered) (hx : x.live = s.live)
    (hidle : x.hand = none ∧ x.closing = false) (h : Staffed c x s.pending) :
    ∃ live, Shows c x s [] { x with live } (s.startPending c) ∧
      Staffed c { x with live } (s.startPending c).pending := by
  obtain ⟨live, hall, hs⟩ := shows_startAll hn s.pending hx hidle h
  exact ⟨live, hall.silent (.of_eq rfl rfl rfl rfl rfl rfl rfl), hs⟩

/-! ### Events from outside -/

/-- An event that is given from outside ends the processes that it completes, and no other. -/
theorem shows_told (hx : x.live = s.live) (hopen : x.closing = false) (hd : (Dict.keys x.live).Nodup)
    (e : Event) : Shows c x s (finals c e x.live)
      { x with live := Dict.eraseAll (completed e x.live) x.live, hand := none } (s.answer c e) := by
  have hgiven : Shows c x s [] { x with hand := some e } (s.present (.ofEvent e false)) :=
    (Shows.refl hx).aside rfl (.given e hopen) rfl
  exact (hgiven.trans (shows_tellProcesses hgiven.live hd rfl)).aside rfl .told rfl

/-- Telling processes of an event that is given from outside. -/
theorem shows_answer (hx : x.live = s.live) (hopen : x.closing = false) (h : Staffed c x s.pending)
    (e : Event) :
    ∃ live, Shows c x s (finals c e x.live) { x with live, hand := none } (s.answer c e) ∧
      Staffed c { x with live, hand := none } (s.answer c e).pending := by
  have hw : Worked (s.present (.ofEvent e false)) (s.answer c e) := worked_tellProcesses e
  have hsub {i : InvokeId} (hi : i ∈ Dict.keys (Dict.eraseAll (completed e x.live) x.live)) :
      i ∈ Dict.keys x.live := (Dict.mem_keys_eraseAll.1 hi).1
  refine ⟨_, shows_told hx hopen h.distinct e, ?_⟩
  rw [hw.pending]
  exact ⟨Dict.nodup_keys_eraseAll h.distinct, fun i hi => h.owner i (hsub hi),
    fun i hi => h.started i (hsub hi), fun i hi => h.declared i (hsub hi), h.waiting, h.sorted⟩

/-! ### The end -/

/-- Everything ends, and every process with it. -/
theorem shows_cancelAll (hx : x.live = s.live) :
    Shows c x s [] { x with live := [], closing := true } s.cancelAll := by
  have hclosed : Shows c x s [] { x with closing := true } s :=
    (Shows.refl hx).aside rfl .closed rfl
  have hall := hclosed.more (shows_cancelProcesses (Dict.keys s.live) hclosed.live
    fun _ _ => .inr rfl)
  have hnil : Dict.eraseAll (Dict.keys s.live) x.live = [] := by
    refine List.filter_eq_nil_iff.2 fun p hp => ?_
    rw [hx] at hp
    have hi : p.1 ∈ Dict.keys s.live := List.mem_map_of_mem hp
    simpa using hi
  rw [← hnil]
  exact hall

theorem shows_abandon (hx : x.live = s.live) (hclosing : x.closing = true) (hlt : n < c.nodes.size)
    (hp : n ∈ x.present) : Shows c x s (Deed.exits c n)
      { x with present := NodeSet.erase n x.present, live := Dict.eraseAll (c.node n).invokes x.live }
      (s.abandon c n) := by
  have hblocks := shows_runEach (c := c) Block.actions n (c.node n).onExit hx
  have hcancel := hblocks.more (shows_cancelProcesses (c.node n).invokes hblocks.live
    fun _ _ => .inr hclosing)
  have hexit := hcancel.act rfl (.exited hlt hp) rfl
  unfold abandon
  dsimp only
  split
  · exact hexit
  · exact hexit.silent (silent_mapStore rfl rfl)

theorem shows_abandonEach : ∀ (ns : List NodeId) {x : Scene} {s : Session}, x.live = s.live →
    x.closing = true → ns.Nodup → (∀ n ∈ ns, n < c.nodes.size ∧ n ∈ x.present) →
    Shows c x s (ns.flatMap (Deed.exits c))
      { x with
        present := NodeSet.eraseAll x.present ns
        live := Dict.eraseAll (ns.flatMap fun n => (c.node n).invokes) x.live }
      (ns.foldl (abandon c) s)
  | [], x, s, hx, _, _, _ => by
    have he : NodeSet.eraseAll x.present [] = x.present := List.filter_eq_self.2 fun _ _ => rfl
    rw [he, List.flatMap_nil, List.flatMap_nil, Dict.eraseAll_nil]
    exact .refl hx
  | n :: ns, x, s, hx, hclosing, hd, hp => by
    obtain ⟨hni, hd⟩ := List.nodup_cons.1 hd
    obtain ⟨hlt, hpn⟩ := hp n (by simp)
    have hone := shows_abandon hx hclosing hlt hpn
    have hall := shows_abandonEach ns hone.live hclosing hd fun m hm => by
      obtain ⟨hlt, hp⟩ := hp m (List.mem_cons_of_mem _ hm)
      exact ⟨hlt, NodeSet.mem_erase.2 ⟨hp, fun e => hni (e ▸ hm)⟩⟩
    rw [NodeSet.eraseAll_cons, List.flatMap_cons, List.flatMap_cons, Dict.eraseAll_append]
    exact hone.trans hall

/-- A session that has stopped leaves every active state, and no process is left. -/
theorem shows_finalStep {pending} (hx : x.live = s.live) (h : Staffed c x pending)
    (hr : s.running = false) (hpresent : ∀ n, n ∈ x.present ↔ n ∈ s.store.active c)
    (hlt : ∀ n ∈ s.store.active c, n < c.nodes.size) :
    Shows c x s ((c.sortReverse (s.store.active c)).flatMap (Deed.exits c)) ⟨[], [], x.hand, true⟩
      (s.finalStep c) := by
  have hmem {n : NodeId} : n ∈ c.sortReverse (s.store.active c) ↔ n ∈ x.present := by
    rw [hpresent, Chart.sortReverse, mem_stableSort]
  have hclosed : Shows c x s [] { x with closing := true } s :=
    (Shows.refl hx).aside rfl .closed rfl
  have hall := hclosed.trans (shows_abandonEach (c.sortReverse (s.store.active c)) hclosed.live rfl
    ((stableSort_perm _ _).nodup_iff.2 (NodeSet.nodup_of_pairwise (c.pairwise_closure _)))
    fun n hn => ⟨hlt n ((hpresent n).1 (hmem.1 hn)), hmem.1 hn⟩)
  have hgone : NodeSet.eraseAll x.present (c.sortReverse (s.store.active c)) = [] := by
    refine List.filter_eq_nil_iff.2 fun n hn => ?_
    simpa using hmem.2 hn
  have hfree : Dict.eraseAll ((c.sortReverse (s.store.active c)).flatMap fun n => (c.node n).invokes)
      x.live = [] := by
    refine List.filter_eq_nil_iff.2 fun p hp => ?_
    have hi : p.1 ∈ Dict.keys x.live := List.mem_map_of_mem hp
    simpa using ⟨_, hmem.2 (h.owner _ hi), h.declared _ hi⟩
  rw [finalStep, if_neg (by simp [hr]), ← hgone, ← hfree]
  exact hall.silent silent_publish

/-- At the end nothing more is to be started than before. -/
theorem pending_finalStep : (s.finalStep c).pending = s.pending := by
  have hall (ns : List NodeId) : (ns.foldl (abandon c) s).pending = s.pending := by
    refine List.foldlRecOn (motive := fun t => t.pending = s.pending) ns (abandon c) rfl
      fun t ht n _ => ?_
    obtain ⟨u, hu, e⟩ := abandon_parts (c := c) (s := t) n
    rw [e]
    split <;> exact hu.pending.trans ht
  unfold finalStep
  split
  · rfl
  · exact hall _

end Session
end Statechart
