import Statechart.Proofs.Stopped

/-! What a listener of the chart can tell from what it is told.

    Whoever listens to the chart from before its start is told of every entry and every exit. Keeping a
    list of the states, adding those that are entered and striking out those that are left, it always
    knows which states are active. Told of each entry and each exit once, it is told of those of one
    state by turns. -/

namespace Statechart

open Chart

namespace NodeSet

variable {n : Nat}

theorem insert_insert : ∀ {s : NodeSet}, insert n (insert n s) = insert n s
  | [] => by simp [insert]
  | m :: s => by
    simp only [insert]
    split
    · simp [insert, *]
    · split
      · simp [insert]
      · simp [insert, *, insert_insert]

theorem erase_erase {s : NodeSet} : erase n (erase n s) = erase n s := by simp [erase]

end NodeSet

/-- The states that are present after a notice. -/
def Notice.replay (present : NodeSet) : Notice → NodeSet
  | .entered state => NodeSet.insert state.index present
  | .exited state => NodeSet.erase state.index present
  | .taken _ _ _ _ => present

/-- Whether a notice tells of the entry of a state, or of its exit. -/
def Notice.turn? (n : NodeId) : Notice → Option Bool
  | .entered state => if state.index = n then some true else none
  | .exited state => if state.index = n then some false else none
  | .taken _ _ _ _ => none

/-- The entries and exits of a state that notices tell of. -/
def Notice.turns (n : NodeId) (ns : List Notice) : List Bool := ns.filterMap (Notice.turn? n)

/-- Whether entries and exits follow each other by turns, an entry first. -/
def Alternate (bs : List Bool) : Prop := ∀ k (h : k < bs.length), bs[k] = decide (k % 2 = 0)

/-- What a listener is told of a deed. -/
def Deed.heard (c : Chart) (ls : Listeners) (l : Listener) (d : Deed) : List Notice :=
  (d.marks c ls).filterMap (Entry.heard? l)

/-- How often a listener is told what is told at an observable. -/
def Listeners.times (l : Listener) (observable : Nat) (ls : Listeners) : Nat :=
  (ls.of observable).count l + (ls.of Listeners.chart).count l

/-- Whether someone listens to the chart, and to nothing else. -/
structure Listeners.Sole (l : Listener) (ls : Listeners) : Prop where
  once : (ls.of Listeners.chart).count l = 1
  elsewhere : ∀ observable, observable ≠ Listeners.chart → l ∉ ls.of observable

namespace Listeners

variable {l : Listener} {ls : Listeners} {observable : Nat}

/-- Whoever listened to nothing and is registered with the chart listens to the chart only. -/
theorem sole_add (h : ∀ observable, l ∉ ls.of observable) : (ls.add chart l).Sole l where
  once := by
    have hnew : ¬(ls.of chart).contains l = true := by simpa using h chart
    rw [add, if_neg hnew, of_insert_self, List.count_append, List.count_eq_zero.2 (h chart)]
    simp
  elsewhere o ho := by
    have hnew : ¬(ls.of chart).contains l = true := by simpa using h chart
    rw [add, if_neg hnew, of, Dict.get?_insert_of_ne ho]
    exact h o

theorem times_pos (h : l ∈ ls.of chart) : 0 < ls.times l observable :=
  Nat.add_pos_right _ (List.count_pos_iff.2 h)

theorem Sole.mem (h : ls.Sole l) : l ∈ ls.of chart :=
  List.count_pos_iff.1 (by rw [h.once]; exact Nat.one_pos)

theorem Sole.times (h : ls.Sole l) (ho : observable ≠ chart) : ls.times l observable = 1 := by
  rw [Listeners.times, h.once, List.count_eq_zero.2 (h.elsewhere _ ho)]

end Listeners

/-! ### Notices of a deed -/

theorem heard_notify (l : Listener) (observable : Nat) (notice : Notice) (ls : Listeners) :
    (ls.tell observable notice ++ ls.tell Listeners.chart notice).filterMap (Entry.heard? l) =
      List.replicate (ls.times l observable) notice := by
  rw [List.filterMap_append, Listeners.heard_tell, Listeners.heard_tell, Listeners.times,
    List.replicate_append_replicate]

theorem Alternate.append {bs : List Bool} (h : Alternate bs) :
    Alternate (bs ++ [decide (bs.length % 2 = 0)]) := by
  intro k hk
  by_cases hlt : k < bs.length
  · rw [List.getElem_append_left hlt]
    exact h k hlt
  · have hk : k = bs.length := by simp at hk; omega
    subst hk
    simp

namespace Session

variable {c : Chart} {s₀ s t : Session} {x y : Scene} {d : Deed} {ds : List Deed} {l : Listener}
  {ls : Listeners} {ns : List Notice} {R R' : Listeners → Prop} {K : List Notice → NodeSet → Prop}

/-- What a listener has been told. -/
def heard (l : Listener) (s : Session) : List Notice := s.journal.toList.filterMap (Entry.heard? l)

/-- A listener is told of the deeds, and of nothing else. -/
theorem heard_of_does (h : Does c x s ds y t) :
    t.heard l = s.heard l ++ ds.flatMap (Deed.heard c s.listeners l) := by
  refine h.read fun e he => ?_
  cases e with
  | noticed k notice => cases he
  | _ => rfl

/-- Whether what a listener is told keeps up with the states that are present. -/
def Tracks (c : Chart) (l : Listener) (K : List Notice → NodeSet → Prop) (ls : Listeners) : Prop :=
  ∀ {x y : Scene} {d : Deed} {ns : List Notice}, Turn c x d y → K ns x.present →
    K (ns ++ d.heard c ls l) y.present

/-- Whoever keeps up with every deed keeps up with them all. -/
theorem Tracks.turns (hK : Tracks c l K ls) : ∀ (ds : List Deed) {x : Scene} {ns : List Notice},
    Turns c x ds y → K ns x.present → K (ns ++ ds.flatMap (Deed.heard c ls l)) y.present
  | [], x, ns, h, hk => by
    cases h
    simpa using hk
  | d :: ds, x, ns, ⟨z, hd, hds⟩, hk => by
    rw [List.flatMap_cons, ← List.append_assoc]
    exact hK.turns ds hds (hK hd hk)

theorem Tracks.does (hK : Tracks c l K s.listeners) (h : Does c x s ds y t) (hk : K ns x.present) :
    ∃ ms, t.heard l = s.heard l ++ ms ∧ K (ns ++ ms) y.present :=
  ⟨_, heard_of_does h, hK.turns ds h.turns hk⟩

/-- Processes are called without notice. -/
theorem heard_restart : (s.restart c).listeners = s.listeners ∧ (s.restart c).heard l = s.heard l := by
  obtain ⟨ds, hshown, hd⟩ := shows_cancelAll (c := c) (x := ⟨[], s.live, none, false⟩)
    (s := { s with running := false }) rfl
  have hquiet : ds.flatMap (Deed.heard c s.listeners l) = [] := by
    refine List.flatMap_eq_nil_iff.2 fun d hd => ?_
    have hnot : d.shows = false := by
      have := List.filter_eq_nil_iff.1 hshown d hd
      simpa using this
    cases d <;> first | rfl | cases hnot
  have h := heard_of_does (l := l) hd
  rw [show ({ s with running := false } : Session).listeners = s.listeners from rfl, hquiet,
    List.append_nil] at h
  exact ⟨hd.listeners, h⟩

/-! ### Two ways to keep up -/

theorem foldl_entered (state : Node) (present : NodeSet) : ∀ k,
    (List.replicate (k + 1) (Notice.entered state)).foldl Notice.replay present =
      NodeSet.insert state.index present
  | 0 => rfl
  | k + 1 => by
    rw [List.replicate_succ, List.foldl_cons, foldl_entered state _ k]
    exact NodeSet.insert_insert

theorem foldl_exited (state : Node) (present : NodeSet) : ∀ k,
    (List.replicate (k + 1) (Notice.exited state)).foldl Notice.replay present =
      NodeSet.erase state.index present
  | 0 => rfl
  | k + 1 => by
    rw [List.replicate_succ, List.foldl_cons, foldl_exited state _ k]
    exact NodeSet.erase_erase

theorem foldl_taken (source target : Node) (t : Transition) (event : Option String)
    (present : NodeSet) : ∀ k,
    (List.replicate k (Notice.taken source target t event)).foldl Notice.replay present = present
  | 0 => rfl
  | k + 1 => foldl_taken source target t event present k

/-- Whoever listens to the chart can keep a list of the states that are present, however often it is told
    of each. -/
theorem tracks_replay (hc : c.WellFormed) (hl : l ∈ ls.of Listeners.chart) :
    Tracks c l (fun ns present => ns.foldl Notice.replay [] = present) ls := by
  intro x y d ns h hk
  rw [List.foldl_append, hk]
  have times (observable : Nat) : ∃ k, ls.times l observable = k + 1 :=
    Nat.exists_eq_succ_of_ne_zero (Nat.ne_of_gt (Listeners.times_pos hl))
  cases h with
  | @entered n hn =>
    obtain ⟨k, hk⟩ := times (c.node n).observable
    rw [Deed.heard, Deed.marks, heard_notify, hk, foldl_entered, hc.index_eq hn]
  | @exited n hn =>
    obtain ⟨k, hk⟩ := times (c.node n).observable
    rw [Deed.heard, Deed.marks, heard_notify, hk, foldl_exited, hc.index_eq hn]
  | took =>
    rw [Deed.heard, Deed.marks, heard_notify, foldl_taken]
  | _ => rfl

/-- Whether a list of notices tells of the entries and exits of each state by turns, and last of an entry
    if it is present. -/
def Alternating (ns : List Notice) (present : NodeSet) : Prop :=
  ∀ n, Alternate (Notice.turns n ns) ∧ (n ∈ present ↔ (Notice.turns n ns).length % 2 = 1)

theorem turns_append_of_ne {n : NodeId} {notice : Notice} (h : notice.turn? n = none) :
    Notice.turns n (ns ++ [notice]) = Notice.turns n ns := by
  simp [Notice.turns, List.filterMap_append, h]

theorem turns_append_of_eq {n : NodeId} {notice : Notice} {b : Bool} (h : notice.turn? n = some b) :
    Notice.turns n (ns ++ [notice]) = Notice.turns n ns ++ [b] := by
  simp [Notice.turns, List.filterMap_append, h]

theorem Alternating.enter {present : NodeSet} (state : Node) (h : Alternating ns present)
    (hp : state.index ∉ present) :
    Alternating (ns ++ [.entered state]) (NodeSet.insert state.index present) := by
  intro n
  obtain ⟨halt, hlast⟩ := h n
  by_cases hn : state.index = n
  · subst hn
    have heven : (Notice.turns state.index ns).length % 2 = 0 := by
      have := mt hlast.2 hp
      omega
    have happend := halt.append
    rw [heven] at happend
    rw [turns_append_of_eq (b := true) (by simp [Notice.turn?])]
    refine ⟨happend, iff_of_true (NodeSet.mem_insert.2 (.inl rfl)) ?_⟩
    simp only [List.length_append, List.length_singleton]
    omega
  · rw [turns_append_of_ne (by simp [Notice.turn?, hn])]
    refine ⟨halt, ?_⟩
    rw [NodeSet.mem_insert, or_iff_right (Ne.symm hn)]
    exact hlast

theorem Alternating.exit {present : NodeSet} (state : Node) (h : Alternating ns present)
    (hp : state.index ∈ present) :
    Alternating (ns ++ [.exited state]) (NodeSet.erase state.index present) := by
  intro n
  obtain ⟨halt, hlast⟩ := h n
  by_cases hn : state.index = n
  · subst hn
    have hodd := hlast.1 hp
    have happend := halt.append
    rw [hodd] at happend
    rw [turns_append_of_eq (b := false) (by simp [Notice.turn?])]
    refine ⟨happend, iff_of_false (fun hm => (NodeSet.mem_erase.1 hm).2 rfl) ?_⟩
    simp only [List.length_append, List.length_singleton]
    omega
  · rw [turns_append_of_ne (by simp [Notice.turn?, hn])]
    refine ⟨halt, ?_⟩
    rw [NodeSet.mem_erase, and_iff_left (Ne.symm hn)]
    exact hlast

theorem Alternating.take {present : NodeSet} {source target : Node} {t : Transition}
    {event : Option String} (h : Alternating ns present) : ∀ k,
    Alternating (ns ++ List.replicate k (.taken source target t event)) present := by
  intro k n
  have hnone : (List.replicate k (Notice.taken source target t event)).filterMap (Notice.turn? n) =
      [] := List.filterMap_eq_nil_iff.2 fun m hm => by rw [List.eq_of_mem_replicate hm]; rfl
  rw [Notice.turns, List.filterMap_append, hnone, List.append_nil]
  exact h n

/-- Whoever listens to the chart only is told of entries and exits by turns. -/
theorem tracks_alternating (hc : c.WellFormed) (hn : c.Numbered) (hl : ls.Sole l) :
    Tracks c l Alternating ls := by
  intro x y d ns h hk
  cases h with
  | @entered n hlt hp =>
    rw [Deed.heard, Deed.marks, heard_notify, hl.times (hn.observable hlt)]
    have hindex := hc.index_eq hlt
    have := Alternating.enter (c.node n) hk (by rwa [hindex])
    rwa [hindex] at this
  | @exited n hlt hp =>
    rw [Deed.heard, Deed.marks, heard_notify, hl.times (hn.observable hlt)]
    have hindex := hc.index_eq hlt
    have := Alternating.exit (c.node n) hk (by rwa [hindex])
    rwa [hindex] at this
  | took =>
    rw [Deed.heard, Deed.marks, heard_notify]
    exact hk.take _
  | _ => exact (List.append_nil ns).symm ▸ hk

/-! ### Runs with listeners -/

/-- What a session comes to when it is started and then given events, one after the other, and something
    is the case of its listeners all along. -/
inductive Attended (c : Chart) (R : Listeners → Prop) (s₀ : Session) : Session → Prop where
  | go {fuel : Nat} {s : Session} (hl : R s₀.listeners) (h : s₀.firstStep c fuel = some s) :
      Attended c R s₀ s
  | next {fuel : Nat} {e : Event} {s t : Session} (hr : Attended c R s₀ s)
      (h : s.nextStep c fuel e = some t) : Attended c R s₀ t
  | equip {s : Session} (hr : Attended c R s₀ s) (chart : Option Chart)
      (invokers : Dict String Invoker) (listeners : Listeners) (hl : R listeners) (sink : Sink)
      (outbox : List (Sink × Event)) :
      Attended c R s₀ (s.equip chart invokers listeners sink outbox)

theorem Attended.imp (h : ∀ ls, R ls → R' ls) (hr : Attended c R s₀ s) : Attended c R' s₀ s := by
  induction hr with
  | go hl hs => exact .go (h _ hl) hs
  | next _ hs ih => exact ih.next hs
  | equip _ chart invokers listeners hl sink outbox ih =>
    exact ih.equip chart invokers listeners (h _ hl) sink outbox

/-- What a listener has been told when a session is at rest. -/
structure Told (c : Chart) (l : Listener) (K : List Notice → NodeSet → Prop) (s₀ : Session)
    (ns : List Notice) (s : Session) : Prop where
  heard : s.heard l = s₀.heard l ++ ns
  running : s.running = true → s.pending = [] ∧ ∃ x : Scene, x.live = s.live ∧ Poised c x s ∧
    K ns x.present
  stopped : s.running = false → K ns []

/-- Whoever keeps up with deeds keeps up until the session is at rest again. -/
theorem Tracks.rested {cause : Session → Prop} (hc : c.WellFormed) (hK : Tracks c l K s.listeners)
    (h : Rested c x s cause t) (hk : K ns x.present) (hheard : s.heard l = s₀.heard l ++ ns) :
    t.listeners = s.listeners ∧ ∃ ms, Told c l K s₀ ms t := by
  cases h with
  | running hd hp hr hq =>
    obtain ⟨ms, hms, hk⟩ := hK.does hd hk
    refine ⟨hd.listeners, ns ++ ms, by rw [hms, hheard, List.append_assoc],
      fun _ => ⟨hq, _, hd.live, hp, hk⟩, fun hstop => ?_⟩
    rw [hr] at hstop
    cases hstop
  | ended hd hp hr _ hcause ht =>
    subst ht
    obtain ⟨es, -, hend⟩ := shows_finalStep hd.live hp.toStaffed hr hp.present (hp.active_lt hc)
    have hall := hd.trans hend
    obtain ⟨ms, hms, hk⟩ := hK.does hall hk
    refine ⟨hall.listeners, ns ++ ms, by rw [hms, hheard, List.append_assoc], fun hrun => ?_,
      fun _ => hk⟩
    rw [finalStep_spec.2, hr] at hrun
    cases hrun

/-- Whoever keeps up with deeds keeps up with a run. -/
theorem told_of_attended (hc : c.WellFormed) (hn : c.Numbered) (h₀ : K [] [])
    (h : Attended c (Tracks c l K) s₀ s) :
    Tracks c l K s.listeners ∧ ∃ ns, Told c l K s₀ ns s := by
  induction h with
  | go hl h =>
    have hr := rested_of_firstStep hc hn h
    obtain ⟨hls, hheard⟩ := heard_restart (c := c) (s := s₀) (l := l)
    have hK : Tracks c l K ({ s₀.restart c with pending := [] } : Session).listeners := hls ▸ hl
    obtain ⟨hls', ns, htold⟩ := hK.rested hc hr h₀ (hheard.trans (List.append_nil _).symm)
    exact ⟨hls' ▸ hK, ns, htold⟩
  | @next fuel e s t _ h ih =>
    obtain ⟨hK, ns, htold⟩ := ih
    cases hr : s.running with
    | false =>
      rw [nextStep, if_neg (by simp [hr])] at h
      cases h
      exact ⟨hK, ns, htold⟩
    | true =>
      obtain ⟨hq, x, hx, hp, hk⟩ := htold.running hr
      obtain ⟨hls, htold⟩ :=
        hK.rested hc (rested_of_nextStep hc hn hx hp hr hq h) hk htold.heard
      exact ⟨hls ▸ hK, htold⟩
  | equip _ chart invokers listeners hl sink outbox ih =>
    obtain ⟨-, ns, htold⟩ := ih
    refine ⟨hl, ns, htold.heard, fun hr => ?_, htold.stopped⟩
    obtain ⟨hq, x, hx, hp, hk⟩ := htold.running hr
    exact ⟨hq, x, hx, hp.equip chart invokers listeners sink outbox, hk⟩

/-- Whoever listens to the chart from before its start knows at every rest which states are active, and
    that there are none when the session has stopped; and if it listens to nothing else it is told of the
    entries and exits of each state by turns, an entry first. -/
theorem heard_of_run {name : String} {version : Nat} {v : Value}
    (hload : Chart.load name version v = .ok c)
    (h : Attended c (fun ls => l ∈ ls.of Listeners.chart) s₀ s) :
    ∃ ns, s.heard l = s₀.heard l ++ ns ∧
      (s.running = true → ∀ n, n ∈ ns.foldl Notice.replay [] ↔ n ∈ s.store.active c) ∧
      (s.running = false → ns.foldl Notice.replay [] = []) ∧
      (Attended c (Listeners.Sole l) s₀ s → ∀ n, Alternate (Notice.turns n ns)) := by
  have hc := wellFormed_of_load hload
  have hn := numbered_of_load hload
  obtain ⟨-, ns, htold⟩ := told_of_attended (K := fun ns present => ns.foldl Notice.replay [] = present)
    hc hn rfl (h.imp fun ls hl => tracks_replay hc hl)
  refine ⟨ns, htold.heard, fun hr n => ?_, htold.stopped, fun hsole n => ?_⟩
  · obtain ⟨-, x, -, hp, hk⟩ := htold.running hr
    rw [hk]
    exact hp.present n
  · obtain ⟨-, ms, hms⟩ := told_of_attended (K := Alternating) hc hn
      (fun n => ⟨fun k h => absurd h (Nat.not_lt_zero k), by simp [Notice.turns]⟩)
      (hsole.imp fun ls hl => tracks_alternating hc hn hl)
    have e : ms = ns := List.append_cancel_left (hms.heard.symm.trans htold.heard)
    subst e
    cases hr : s.running with
    | true =>
      obtain ⟨-, x, -, -, hk⟩ := hms.running hr
      exact (hk n).1
    | false => exact (hms.stopped hr n).1

/-- Someone who watches. -/
def watcher : Listener := .named "watcher"

/-- The booth before it is opened, with someone who watches it. -/
def watchedBooth : Session :=
  { Machine.newBooth with listeners := Listeners.add Listeners.chart watcher [] }

/-- The watched booth when it has been opened. -/
def openWatchedBooth : Session :=
  (watchedBooth.firstStep Machine.boothChart 10).get (by decide +kernel)

/-- The watched booth when it has been shut. -/
def shutWatchedBooth : Session :=
  (openWatchedBooth.nextStep Machine.boothChart 10 (.signal "shut")).get (by decide +kernel)

/-- Whoever watches the booth knows that it is open and quiet, and in the end that it is nothing any
    more: each of its three states was entered once and left once. -/
theorem heard_booth :
    ((∀ n, n ∈ (openWatchedBooth.heard watcher).foldl Notice.replay [] ↔
      n ∈ openWatchedBooth.store.active Machine.boothChart) ∧
      openWatchedBooth.store.active Machine.boothChart = [0, 1]) ∧
    (shutWatchedBooth.heard watcher).foldl Notice.replay [] = [] ∧
    (∀ n, Alternate (Notice.turns n (shutWatchedBooth.heard watcher))) ∧
    (List.range 3).map (fun n => Notice.turns n (shutWatchedBooth.heard watcher)) =
      [[true, false], [true, false], [true, false]] := by
  have hnowhere : ∀ observable, watcher ∉ Listeners.of observable [] := fun _ => List.not_mem_nil
  have hsole : watchedBooth.listeners.Sole watcher := Listeners.sole_add hnowhere
  have hopen : watchedBooth.firstStep Machine.boothChart 10 = some openWatchedBooth :=
    (Option.some_get _).symm
  have hshut : openWatchedBooth.nextStep Machine.boothChart 10 (.signal "shut") =
      some shutWatchedBooth := (Option.some_get _).symm
  obtain ⟨ns, hns, hactive, -⟩ := heard_of_run Machine.load_booth (.go hsole.mem hopen)
  obtain ⟨ms, hms, -, hnone, hturns⟩ :=
    heard_of_run Machine.load_booth (.next (.go hsole.mem hopen) hshut)
  have hnew : watchedBooth.heard watcher = [] := rfl
  rw [hnew, List.nil_append] at hns hms
  rw [hns, hms]
  refine ⟨⟨hactive (by decide +kernel), by decide +kernel⟩, hnone (by decide +kernel),
    hturns (.next (.go hsole hopen) hshut), ?_⟩
  rw [← hms]
  decide +kernel

end Session
end Statechart
