import Statechart.Host.Worker
import Statechart.Proofs.FuelMonotonicity
import Statechart.Proofs.Lockstep
import Statechart.Proofs.WithoutProcesses

/-! What becomes of a worker.

    A worker takes its time: what it is told waits until the worker gets to it. But the order stays, so
    its machine comes to what it would have come to if it had been told at once, and that is what every
    question finds. What becomes of a worker is its machine after everything that waits; working some of
    it off changes nothing about it. -/

namespace Statechart

namespace Machine

variable {fixed : (Nat → String) × Int} {m m' : Machine} {fuel fuel' : Nat} {e : Event}
  {es ds : List Event}

@[simp] theorem feed_nil : m.feed fuel [] = some m := rfl

theorem feed_cons : m.feed fuel (e :: es) =
    ((m.trigger e fuel).map Prod.fst).bind fun m => m.feed fuel es := List.foldlM_cons ..

theorem feed_append : m.feed fuel (es ++ ds) = (m.feed fuel es).bind fun m => m.feed fuel ds :=
  List.foldlM_append ..

theorem feed_of_le (hle : fuel ≤ fuel') : ∀ {es : List Event} {m : Machine},
    m.feed fuel es = some m' → m.feed fuel' es = some m'
  | [], _, h => h
  | e :: es, m, h => by
    rw [feed_cons] at h ⊢
    obtain ⟨u, hu, h⟩ := Option.bind_eq_some_iff.1 h
    obtain ⟨⟨v, error⟩, hv, rfl⟩ := Option.map_eq_some_iff.1 hu
    rw [trigger_of_le hle hv]
    exact feed_of_le hle h

theorem Alone.feed : ∀ {es : List Event} {m : Machine}, m.Alone fixed →
    m.feed fuel es = some m' → m'.Alone fixed
  | [], _, hm, h => by
    cases h
    exact hm
  | e :: es, m, hm, h => by
    rw [feed_cons] at h
    obtain ⟨u, hu, h⟩ := Option.bind_eq_some_iff.1 h
    obtain ⟨⟨v, error⟩, hv, rfl⟩ := Option.map_eq_some_iff.1 hu
    exact (hm.trigger hv).feed h

/-- What a machine looks like from outside under a name. -/
def statusAs (id : String) (m : Machine) : Status :=
  { instanceId := id
    sessionId := m.session.store.sessionId
    running := m.running
    active := m.leafNames
    configuration := m.activeNames }

/-- The machine when it has been told to stop, if it was running. -/
def halted (fuel : Nat) (m : Machine) : Option Machine :=
  if m.running then (m.trigger .stop fuel).map Prod.fst else some m

theorem halted_of_le (hle : fuel ≤ fuel') (h : m.halted fuel = some m') :
    m.halted fuel' = some m' := by
  unfold halted at h ⊢
  split at h
  · rename_i hr
    obtain ⟨⟨v, error⟩, hv, rfl⟩ := Option.map_eq_some_iff.1 h
    rw [if_pos hr, trigger_of_le hle hv]
    rfl
  · rename_i hr
    rw [if_neg hr, h]

end Machine

namespace Worker

variable {α : Type} {fixed : (Nat → String) × Int} {w w' u : Worker} {id : String} {e : Event}
  {reserved n k : Nat} {m m' : Machine}

/-- Whether a worker works under a name, and its machine has no processes. -/
structure Sound (fixed : (Nat → String) × Int) (id : String) (w : Worker) : Prop where
  name : w.id = id
  open_ : w.stopped = false
  alone : w.machine.Alone fixed

/-- What becomes of a worker: its machine after everything that waits. None if it never comes back. -/
def future (fuel : Nat) (w : Worker) : Option Machine := w.machine.feed fuel w.waiting

/-- The worker with a machine in place of its own, and nothing that waits. -/
def settled (m : Machine) (w : Worker) : Worker := { w with machine := m, waiting := [] }

/-- The worker with one more event that waits. -/
def told (e : Event) (w : Worker) : Worker := { w with waiting := w.waiting.push e }

theorem future_told : (w.told e).future k =
    (w.future k).bind fun m => (m.trigger e k).map Prod.fst := by
  rw [future, told, EventQueue.push, Machine.feed_append]
  simp only [Machine.feed_cons, Machine.feed_nil, Option.bind_fun_some]
  rfl

/-- What becomes of a worker does not depend on how long one waits for it, if it is long enough. -/
theorem future_eq (h : w.future n = some m) (hk : n ≤ k ∨ (w.future k).isSome = true) :
    w.future k = some m := lasting (fun hle => Machine.feed_of_le hle) h hk

/-- Whether a worker is another one that has only worked since. -/
structure Later (k : Nat) (w w' : Worker) : Prop where
  future : w'.future k = w.future k
  name : w'.id = w.id
  stopped : w'.stopped = w.stopped
  alone : ∀ fixed, w.machine.Alone fixed → w'.machine.Alone fixed
  waiting : w'.waiting.length ≤ w.waiting.length

namespace Later

theorem refl (w : Worker) : Later k w w := ⟨rfl, rfl, rfl, fun _ h => h, Nat.le_refl _⟩

theorem trans (h : Later k w w') (h' : Later k w' u) : Later k w u where
  future := h'.future.trans h.future
  name := h'.name.trans h.name
  stopped := h'.stopped.trans h.stopped
  alone fixed hw := h'.alone fixed (h.alone fixed hw)
  waiting := Nat.le_trans h'.waiting h.waiting

theorem sound (h : Later k w w') (hw : w.Sound fixed id) : w'.Sound fixed id :=
  ⟨h.name.trans hw.name, h.stopped.trans hw.open_, h.alone fixed hw.alone⟩

end Later

theorem later_settled (h : w.future k = some m) : w.Later k (w.settled m) where
  future := h.symm
  name := rfl
  stopped := rfl
  alone _ hw := hw.feed h
  waiting := Nat.zero_le _

/-! ### Working -/

theorem takeEmitted_of_alone (h : m.Alone fixed) : m.takeEmitted = ([], m) := by
  have hsame : ({ m.session with outbox := [] } : Session) = m.session := by rw [← h.lone.outbox]
  simp only [Machine.takeEmitted, h.lone.outbox, List.map_nil, hsame]

/-- Nothing is delivered to a worker whose machine has no processes. -/
theorem collect_of_alone (h : w.machine.Alone fixed) : w.collect reserved = w := by
  simp only [collect, takeEmitted_of_alone h, List.take_nil, List.append_nil]

/-- A worker that is spawned has nothing to do. -/
theorem spawn_eq {capacity : Nat} (h : (m.setSink .outside).Alone fixed) :
    spawn id m capacity n = ((m.setSink .outside).go n).map fun r =>
      match r.2 with
      | some e => .error e
      | none => .ok ⟨id, r.1, max 1 capacity, [], false⟩ := by
  rw [spawn]
  cases hgo : (m.setSink .outside).go n with
  | none => rfl
  | some r =>
    obtain ⟨m', error⟩ := r
    cases error with
    | some e => rfl
    | none =>
      dsimp only
      rw [collect_of_alone (w := ⟨id, m', _, [], false⟩) (h.reset hgo)]
      rfl

theorem workOff_eq : ∀ (count : Nat) {w : Worker}, w.machine.Alone fixed →
    w.workOff reserved n count = (w.machine.feed n (w.waiting.take count)).map fun m =>
      { w with machine := m, waiting := w.waiting.drop count }
  | 0, w, _ => rfl
  | count + 1, w, h => by
    rw [workOff]
    split
    · rename_i hw
      rw [hw, List.take_nil, List.drop_nil, Machine.feed_nil, ← hw]
      rfl
    · rename_i e waiting hw
      rw [hw, List.take_succ_cons, List.drop_succ_cons, Machine.feed_cons]
      cases ht : w.machine.trigger e n with
      | none => rfl
      | some r =>
        obtain ⟨m, error⟩ := r
        have hm : m.Alone fixed := h.trigger ht
        dsimp only
        rw [collect_of_alone (w := { w with machine := m, waiting }) hm,
          workOff_eq count (w := { w with machine := m, waiting }) hm]
        rfl

/-- Working off everything comes to what becomes of the worker. -/
theorem drain_spec : ∀ (n : Nat) {w : Worker}, w.machine.Alone fixed → w.drain reserved n = some w' →
    ∃ m, w.future n = some m ∧ w' = w.settled m
  | 0, _, _, h => by cases h
  | n + 1, w, hw, h => by
    rw [drain] at h
    split at h
    · rename_i he
      obtain rfl := Option.some.inj h
      have he : w.waiting = [] := List.isEmpty_iff.1 he
      refine ⟨w.machine, ?_, ?_⟩
      · rw [future, he, Machine.feed_nil]
      · rw [settled, ← he]
    rw [workOff_eq 1 hw] at h
    cases hm : w.machine.feed n (w.waiting.take 1) with
    | none => rw [hm] at h; cases h
    | some m₁ =>
      rw [hm] at h
      obtain ⟨m, hfuture, rfl⟩ := drain_spec n (hw.feed hm) h
      refine ⟨m, Machine.feed_of_le (Nat.le_succ n) ?_, rfl⟩
      rw [← List.take_append_drop 1 w.waiting, Machine.feed_append, hm]
      exact hfuture

theorem drain_of_future : ∀ (n : Nat) {w : Worker}, w.machine.Alone fixed → w.future k = some m →
    k + w.waiting.length < n → w.drain reserved n = some (w.settled m)
  | 0, _, _, _, hlt => absurd hlt (Nat.not_lt_zero _)
  | n + 1, w, hw, h, hlt => by
    rw [drain]
    split
    · rename_i he
      have he : w.waiting = [] := List.isEmpty_iff.1 he
      rw [future, he] at h
      cases h
      rw [settled, ← he]
    · rename_i he
      have hpos : 0 < w.waiting.length := List.length_pos_iff.2 fun e => he (List.isEmpty_iff.2 e)
      rw [future, ← List.take_append_drop 1 w.waiting, Machine.feed_append] at h
      obtain ⟨m₁, hm, h⟩ := Option.bind_eq_some_iff.1 h
      rw [workOff_eq 1 hw, Machine.feed_of_le (by omega) hm]
      refine drain_of_future n (hw.feed hm) h ?_
      rw [List.length_drop]
      omega

theorem later_drain (hw : w.machine.Alone fixed) (h : w.drain reserved n = some w')
    (hk : n ≤ k ∨ (w.future k).isSome = true) : w.Later k w' := by
  obtain ⟨m, hm, rfl⟩ := drain_spec n hw h
  exact later_settled (future_eq hm hk)

theorem later_workOff {count : Nat} (hw : w.machine.Alone fixed)
    (h : w.workOff reserved n count = some w') (hk : n ≤ k ∨ (w.future k).isSome = true) :
    w.Later k w' := by
  rw [workOff_eq count hw] at h
  obtain ⟨m, hm, rfl⟩ := Option.map_eq_some_iff.1 h
  have hsplit (fuel : Nat) : w.future fuel = (w.machine.feed fuel (w.waiting.take count)).bind fun m =>
      m.feed fuel (w.waiting.drop count) := by
    rw [← Machine.feed_append, List.take_append_drop]
    rfl
  have hm' : w.machine.feed k (w.waiting.take count) = some m := by
    refine lasting (fun hle => Machine.feed_of_le hle) hm (hk.imp_right fun h => ?_)
    rw [hsplit] at h
    exact Option.isSome_of_isSome_bind h
  refine ⟨?_, rfl, rfl, fun _ hw => hw.feed hm', ?_⟩
  · rw [hsplit, hm']
    rfl
  · rw [List.length_drop]
    exact Nat.sub_le _ _

/-! ### Being told and being asked -/

theorem send_spec (hw : w.Sound fixed id) {r : Except HostError Unit} (h : w.send e n = some (r, w'))
    (hk : n ≤ k ∨ (w.future k).isSome = true) : r = .ok () ∧ ∃ u, w.Later k u ∧ w' = u.told e := by
  rw [send, hw.open_] at h
  obtain ⟨u, hu, heq⟩ := Option.map_eq_some_iff.1 h
  cases heq
  refine ⟨rfl, u, ?_, rfl⟩
  split at hu
  · exact later_drain hw.alone hu hk
  · cases hu
    exact .refl _

theorem isSome_send (hw : w.Sound fixed id) (h : w.future k = some m)
    (hlt : k + w.waiting.length < n) : (w.send e n).isSome = true := by
  rw [send, hw.open_, drain_of_future n hw.alone h hlt, if_neg Bool.false_ne_true]
  split <;> rfl

theorem ask_eq (hw : w.Sound fixed id) (answer : Worker → Option (Except HostError α × Worker)) :
    w.ask answer n = (if w.full then w.drain 1 n else w.workOff 1 n w.waiting.length).bind fun w =>
      (answer w).bind fun r => (r.2.drain 0 n).map (r.1, ·) := by
  have hmap {r : Except HostError α × Worker} : (r.2.drain 0 n).map (r.1, ·) =
      (r.2.drain 0 n).bind fun w => some (r.1, w) := Option.map_eq_bind
  simp only [hmap]
  rw [ask, hw.open_, if_neg Bool.false_ne_true]
  split <;> rfl

/-- A question is asked after everything that waits. -/
theorem ask_spec (hw : w.Sound fixed id) {answer : Worker → Option (Except HostError α × Worker)}
    {r : Except HostError α} (h : w.ask answer n = some (r, w')) :
    ∃ m u, w.future n = some m ∧ answer (w.settled m) = some (r, u) ∧ u.drain 0 n = some w' := by
  rw [ask_eq hw] at h
  obtain ⟨v, hv, h⟩ := Option.bind_eq_some_iff.1 h
  obtain ⟨⟨r, u⟩, hu, h⟩ := Option.bind_eq_some_iff.1 h
  obtain ⟨x, hx, heq⟩ := Option.map_eq_some_iff.1 h
  cases heq
  have hsettled : ∃ m, w.future n = some m ∧ v = w.settled m := by
    split at hv
    · exact drain_spec n hw.alone hv
    · rw [workOff_eq _ hw.alone, List.take_length, List.drop_length] at hv
      obtain ⟨m, hm, rfl⟩ := Option.map_eq_some_iff.1 hv
      exact ⟨m, hm, rfl⟩
  obtain ⟨m, hm, rfl⟩ := hsettled
  exact ⟨m, u, hm, hu, hx⟩

theorem ask_of_future (hw : w.Sound fixed id) (answer : Worker → Option (Except HostError α × Worker))
    (h : w.future k = some m) (hlt : k + w.waiting.length < n) :
    w.ask answer n = (answer (w.settled m)).bind fun r => (r.2.drain 0 n).map (r.1, ·) := by
  have hoff : w.workOff 1 n w.waiting.length = some (w.settled m) := by
    rw [workOff_eq _ hw.alone, List.take_length, List.drop_length]
    rw [future] at h
    rw [Machine.feed_of_le (by omega) h]
    rfl
  rw [ask_eq hw, drain_of_future n hw.alone h hlt, hoff, ite_self]
  rfl

/-- Looking at a machine leaves the worker to itself. -/
theorem look_spec (hw : w.Sound fixed id) {answer : Worker → Except HostError α} {r : Except HostError α}
    (h : w.ask (fun w => some (answer w, w)) n = some (r, w')) :
    ∃ m, w.future n = some m ∧ r = answer (w.settled m) ∧ w' = w.settled m := by
  obtain ⟨m, u, hm, hu, hdrain⟩ := ask_spec hw h
  cases hu
  obtain ⟨m', hm', rfl⟩ := drain_spec n (w := w.settled m) (hw.alone.feed hm) hdrain
  cases hm'
  exact ⟨m, hm, rfl, rfl⟩

theorem look_of_future (hw : w.Sound fixed id) (answer : Worker → Except HostError α)
    (h : w.future k = some m) (hlt : k + w.waiting.length < n) :
    w.ask (fun w => some (answer w, w)) n = some (answer (w.settled m), w.settled m) := by
  have hdrain : (w.settled m).drain 0 n = some (w.settled m) := by
    refine drain_of_future n (w := w.settled m) (m := m) (k := 0) (hw.alone.feed h) rfl ?_
    simp only [settled, List.length_nil]
    omega
  rw [ask_of_future hw _ h hlt, Option.bind_some, hdrain]
  rfl

theorem status_settled (hw : w.Sound fixed id) : (w.settled m).status = m.statusAs id := by
  rw [← hw.name]
  rfl

theorem halt_eq (h : w.machine.Alone fixed) : w.halt n = (w.machine.halted n).map fun m =>
    { w with machine := m, waiting := [], stopped := true } := by
  rw [halt, Machine.halted]
  split
  · cases ht : w.machine.trigger .stop n with
    | none => rfl
    | some r =>
      have hr : r.1.Alone fixed := h.trigger ht
      simp only [Option.map_some, takeEmitted_of_alone hr]
  · rfl

/-- A worker that is to stop stops its machine after everything that waits. -/
theorem shutdown_spec (hw : w.Sound fixed id) {r : Except HostError Status}
    (h : w.shutdown n = some (r, w')) :
    ∃ m m', w.future n = some m ∧ m.halted n = some m' ∧ r = .ok (m'.statusAs id) := by
  obtain ⟨m, u, hm, hu, -⟩ := ask_spec hw h
  rw [halt_eq (w := w.settled m) (hw.alone.feed hm), Option.map_map] at hu
  obtain ⟨m', hm', heq⟩ := Option.map_eq_some_iff.1 hu
  cases heq
  refine ⟨m, m', hm, hm', ?_⟩
  rw [← hw.name]
  rfl

theorem isSome_shutdown (hw : w.Sound fixed id) (h : w.future k = some m)
    (hh : (m.halted n).isSome = true) (hlt : k + w.waiting.length < n) :
    (w.shutdown n).isSome = true := by
  have hdrain (u : Worker) (hu : u.waiting = []) : (u.drain 0 n).isSome = true := by
    cases n with
    | zero => omega
    | succ n => simp [drain, hu]
  obtain ⟨m', hm'⟩ := Option.isSome_iff_exists.1 hh
  rw [shutdown, ask_of_future hw _ h hlt, halt_eq (w := w.settled m) (hw.alone.feed h),
    show (w.settled m).machine = m from rfl, hm']
  simp only [Option.map_some, Option.bind_some, Option.isSome_map]
  exact hdrain _ rfl

end Worker
end Statechart
