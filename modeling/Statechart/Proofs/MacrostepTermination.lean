import Statechart.Proofs.FailedSearches
import Statechart.Proofs.Legal

/-! When a machine in which nothing is enabled comes to rest.

    Such a machine only works off its queue, but every search may queue failures again: one for each
    condition that fails, while a round takes one event away. So what decides is the backlog, that is
    how many failures have been queued when the events that were there at first are worked off, and
    then whether working off a failure queues others. -/

namespace Statechart.Session

variable {c : Chart} {s r : Session} {q : EventQueue} {v : Option EventVariable} {j : Journal}
  {e : Event}

/-- The session with another event in hand. -/
def seeing (v : Option EventVariable) (s : Session) : Session :=
  s.mapStore fun store => { store with event := v }

/-- A session somewhere in a macrostep in which nothing is enabled: only its queue, the event in hand
    and the journal have changed. -/
def working (q : EventQueue) (v : Option EventVariable) (j : Journal) (s : Session) : Session :=
  { s.seeing v with queue := q, pending := [], journal := j }

/-- What content sees of an event of the session's own. -/
def hand (e : Event) : Option EventVariable := some (.ofEvent e true)

/-- How many failures an event adds to the queue: those of the search before it is taken, and those of
    the search for it. -/
def cost (c : Chart) (s : Session) (v : Option EventVariable) (e : Event) : Nat :=
  (s.seeing v).faults c none + (s.seeing (hand e)).faults c (some e.name)

/-- How many failures are queued while events are worked off. -/
def backlog (c : Chart) (s : Session) : Option EventVariable → EventQueue → Nat
  | _, [] => 0
  | v, e :: q => s.cost c v e + s.backlog c (hand e) q

/-- The event in hand when events have been worked off. -/
def lastHand : Option EventVariable → EventQueue → Option EventVariable
  | v, [] => v
  | _, e :: q => lastHand (hand e) q

/-- Failures in a queue. -/
abbrev failures (n : Nat) : EventQueue := List.replicate n .executionFailed

/-- Whether nothing is enabled for no event, for a failure, or for an event of a queue, whatever event
    is in hand. -/
def Idle (c : Chart) (s : Session) (q : EventQueue) : Prop :=
  ∀ name, name = none ∨ name = some Event.executionFailed.name ∨ (∃ e ∈ q, name = some e.name) →
    ∀ v, Quiescent c name (s.seeing v)

/-- Whether working off a queue has an end if nothing is enabled: an event in it stops the machine, or a
    failure causes no other, or the backlog is used up before or by the search that comes next. -/
def Settles (c : Chart) (s : Session) (v : Option EventVariable) (q : EventQueue) (n : Nat) : Prop :=
  (∃ e ∈ q, e.isCancel = true) ∨ s.cost c (hand .executionFailed) .executionFailed = 0 ∨
    (q ≠ [] ∧ n + s.backlog c v q = 0) ∨
    n + s.backlog c v q + (s.seeing (lastHand v q)).faults c none = 0 ∨
    n + s.backlog c v q + s.cost c (lastHand v q) .executionFailed = 1

instance (n : Nat) : Decidable (Settles c s v q n) := by
  unfold Settles
  infer_instance

/-! ### Conditions that cannot be read -/

/-- Whether the standard evaluator can judge a condition is a matter of its text alone. -/
theorem fails_of_standard (he : s.evaluator = .standard) {name : Option String} {t : TransitionId}
    (h : s.fails c name t = true) : (s.seeing v).enables c name t = false := by
  have heval : (s.seeing v).evaluator = .standard := he
  unfold fails at h
  rw [he] at h
  unfold enables enabled
  rw [heval]
  dsimp only
  split
  · split <;> rename_i hcond <;> rw [hcond] at h
    · simp at h
    · rename_i cond
      rw [Bool.and_eq_true] at h
      have h := h.2
      dsimp only [Evaluator.standard] at h ⊢
      cases hp : Evaluator.compile cond with
      | ok e => simp [hp, Except.map] at h
      | error e => simp [Except.map]
  · rfl

/-- Nothing is enabled if every condition that is asked cannot be read. -/
theorem idle_of_standard (he : s.evaluator = .standard)
    (h : ∀ name ∈ none :: some Event.executionFailed.name :: q.map fun e => some e.name,
      ∀ n ∈ s.store.active c, ∀ t ∈ (c.node n).transitions,
        (c.transition t).trigger.answers name = true → s.fails c name t = true) : Idle c s q := by
  intro name hname w n hn t ht
  have hmem : name ∈ none :: some Event.executionFailed.name :: q.map fun e => some e.name := by
    rcases hname with rfl | rfl | ⟨e, hq, rfl⟩
    · simp
    · simp
    · exact List.mem_cons_of_mem _ (List.mem_cons_of_mem _ (List.mem_map_of_mem hq))
  cases ha : (c.transition t).trigger.answers name with
  | true => exact fails_of_standard he (h name hmem n hn t ht ha)
  | false =>
    unfold enables enabled
    dsimp only
    rw [ha]
    rfl

variable (hc : c.WellFormed)

include hc

/-- A search of such a machine adds the failures to its queue. -/
theorem select_working {name : Option String} (h : Quiescent c name (s.seeing v)) : ∃ j',
    (s.working q v j).select c name =
      ([], s.working (q ++ failures ((s.seeing v).faults c name)) v j') := by
  have hq : Quiescent c name (s.working q v j) :=
    quiescent_congr (s := s.seeing v) rfl rfl h
  have hf : (s.working q v j).faults c name = (s.seeing v).faults c name :=
    faults_congr (s := s.seeing v) rfl rfl
  obtain ⟨s', hs', hsearch⟩ := select_of_quiescent hc hq
  refine ⟨s'.journal, hs'.trans ?_⟩
  rw [hsearch.same, hf]
  rfl

/-- With something in the queue after the search for no event, it is that event's turn. -/
theorem nextInternal_working (hi : Idle c s [e]) {rest : EventQueue}
    (hq : q ++ failures ((s.seeing v).faults c none) = e :: rest) :
    (e.isCancel = true → ∃ j', (s.working q v j).nextInternal c =
      (none, [], { s.working rest v j' with running := false })) ∧
    (e.isCancel = false → ∃ j', (s.working q v j).nextInternal c = (some e, [],
      s.working (rest ++ failures ((s.seeing (hand e)).faults c (some e.name))) (hand e) j')) := by
  obtain ⟨j₁, h₁⟩ := select_working (q := q) (j := j) hc (hi none (.inl rfl) v)
  rw [hq] at h₁
  have hpop : (s.working (e :: rest) v j₁).queue.pop = (some e, rest) := rfl
  constructor
  · intro he
    refine ⟨j₁, ?_⟩
    rw [nextInternal, h₁]
    dsimp only
    rw [hpop]
    dsimp only
    rw [if_pos he]
    rfl
  · intro he
    obtain ⟨j₂, h₂⟩ := select_working (q := rest) (j := j₁) hc
      (hi (some e.name) (.inr (.inr ⟨e, by simp, rfl⟩)) (hand e))
    refine ⟨j₂, ?_⟩
    rw [nextInternal, h₁]
    dsimp only
    rw [hpop]
    dsimp only
    rw [if_neg (by simp [he])]
    rw [show (({ s.working (e :: rest) v j₁ with queue := rest } : Session).present
      (.ofEvent e true)) = s.working rest (hand e) j₁ from rfl, h₂]

omit hc in
/-- A round that takes no transition, with no process pending that would be started. -/
theorem macroStep_of_nextInternal (hr : s.running = true) {event : Option Event} {q' : EventQueue}
    {v' : Option EventVariable} {j' : Journal}
    (hn : (s.working q v j).nextInternal c = (event, [], s.working q' v' j')) (fuel : Nat) :
    (s.working q v j).macroStep c (fuel + 1) =
      if q' = [] then some (s.working q' v' j') else (s.working q' v' j').macroStep c fuel := by
  have hrun : (s.working q v j).running = true := hr
  have hrun' : (s.working q' v' j').running = true := hr
  have hstart : (s.working q' v' j').startPending c = s.working q' v' j' := rfl
  rw [macroStep, if_pos hrun, hn]
  dsimp only
  rw [if_pos hrun', hstart, hrun', Bool.true_and]
  cases q' with
  | nil => rfl
  | cons d q' => rfl

/-- One round with something in the queue after the search for no event. -/
theorem macroStep_working (hr : s.running = true) (hi : Idle c s [e]) {rest : EventQueue}
    (hq : q ++ failures ((s.seeing v).faults c none) = e :: rest) :
    (e.isCancel = true → ∃ j', ∀ fuel, (s.working q v j).macroStep c (fuel + 1) =
      some { s.working rest v j' with running := false }) ∧
    (e.isCancel = false → ∃ j', ∀ fuel, (s.working q v j).macroStep c (fuel + 1) =
      let t := s.working (rest ++ failures ((s.seeing (hand e)).faults c (some e.name))) (hand e) j'
      if t.queue = [] then some t else t.macroStep c fuel) := by
  obtain ⟨hstop, hgo⟩ := nextInternal_working (j := j) hc hi hq
  constructor
  · intro he
    obtain ⟨j', hn⟩ := hstop he
    refine ⟨j', fun fuel => ?_⟩
    have hrun : (s.working q v j).running = true := hr
    rw [macroStep, if_pos hrun, hn]
    rfl
  · intro he
    obtain ⟨j', hn⟩ := hgo he
    exact ⟨j', macroStep_of_nextInternal hr hn⟩

/-- Whether a macrostep ends, and in this session. -/
def EndsIn (c : Chart) (s r : Session) : Prop := ∃ fuel, s.macroStep c fuel = some r

omit hc in
theorem endsIn_of_last {t : Session} (h : ∀ fuel, s.macroStep c (fuel + 1) = some t) :
    EndsIn c s r ↔ r = t := by
  constructor
  · rintro ⟨_ | fuel, hr⟩
    · cases hr
    · exact (Option.some.inj ((h fuel).symm.trans hr)).symm
  · rintro rfl
    exact ⟨1, h 0⟩

omit hc in
theorem endsIn_of_round {t : Session} (h : ∀ fuel, s.macroStep c (fuel + 1) = t.macroStep c fuel) :
    EndsIn c s r ↔ EndsIn c t r := by
  constructor
  · rintro ⟨_ | fuel, hr⟩
    · cases hr
    · exact ⟨fuel, (h fuel).symm.trans hr⟩
  · rintro ⟨fuel, hr⟩
    exact ⟨fuel + 1, (h fuel).trans hr⟩

/-! ### Failures only -/

omit hc in
theorem failures_add (n m : Nat) : failures n ++ failures m = failures (n + m) :=
  List.replicate_append_replicate

omit hc in
theorem Idle.mono {q' : EventQueue} (h : Idle c s q) (hsub : ∀ e ∈ q', e ∈ q) : Idle c s q' := by
  intro name hname
  refine h name (hname.imp_right (Or.imp_right ?_))
  rintro ⟨e, he, hname⟩
  exact ⟨e, hsub e he, hname⟩

omit hc in
theorem Idle.single (h : Idle c s q) (he : e ∈ q ∨ e = .executionFailed) : Idle c s [e] := by
  intro name hname
  refine h name ?_
  rcases hname with hname | hname | ⟨d, hd, hname⟩
  · exact .inl hname
  · exact .inr (.inl hname)
  · rw [List.mem_singleton.1 hd] at hname
    rcases he with he | rfl
    · exact .inr (.inr ⟨e, he, hname⟩)
    · exact .inr (.inl hname)

/-- One round with nothing in the queue even after the search for no event. -/
theorem macroStep_nothing (hr : s.running = true) (hi : Idle c s q) {n : Nat}
    (h : n + (s.seeing v).faults c none = 0) : ∃ j', ∀ fuel,
    (s.working (failures n) v j).macroStep c (fuel + 1) = some (s.working [] v j') := by
  obtain ⟨j', hj'⟩ := select_working (q := failures n) (j := j) hc (hi none (.inl rfl) v)
  rw [failures_add, h] at hj'
  have hn : (s.working (failures n) v j).nextInternal c = (none, [], s.working [] v j') := by
    rw [nextInternal, hj']
    rfl
  exact ⟨j', macroStep_of_nextInternal hr hn⟩

/-- One round that takes a failure away. -/
theorem macroStep_failures (hr : s.running = true) (hi : Idle c s q) {n m : Nat}
    (h : n + (s.seeing v).faults c none = m + 1) : ∃ j', ∀ fuel,
    (s.working (failures n) v j).macroStep c (fuel + 1) =
      let k := m + (s.seeing (hand .executionFailed)).faults c (some Event.executionFailed.name)
      let t := s.working (failures k) (hand .executionFailed) j'
      if k = 0 then some t else t.macroStep c fuel := by
  have hq : failures n ++ failures ((s.seeing v).faults c none) = .executionFailed :: failures m := by
    rw [failures_add, h]
    rfl
  obtain ⟨j', hj'⟩ := (macroStep_working (j := j) hc hr (hi.single (.inr rfl)) hq).2 rfl
  refine ⟨j', fun fuel => (hj' fuel).trans ?_⟩
  rw [failures_add]
  cases m + (s.seeing (hand .executionFailed)).faults c (some Event.executionFailed.name) <;> rfl

/-- A failure that causes no other goes; so working off failures ends. -/
theorem ends_of_failures (hr : s.running = true) (hi : Idle c s q)
    (h : s.cost c (hand .executionFailed) .executionFailed = 0) : ∀ (n : Nat) (j : Journal),
    ∃ j', EndsIn c (s.working (failures (n + 1)) (hand .executionFailed) j)
      (s.working [] (hand .executionFailed) j')
  | n, j => by
    obtain ⟨hz, hw⟩ := Nat.add_eq_zero_iff.1 h
    obtain ⟨j', hj'⟩ := macroStep_failures (j := j) (n := n + 1) (m := n) hc hr hi (by rw [hz])
    rw [hw] at hj'
    cases n with
    | zero => exact ⟨j', (endsIn_of_last hj').2 rfl⟩
    | succ n => exact (ends_of_failures hr hi h n j').imp fun _ => (endsIn_of_round hj').2

/-- A failure that causes another never goes; so working off failures has no end. -/
theorem diverges_of_failures (hr : s.running = true) (hi : Idle c s q)
    (h : s.cost c (hand .executionFailed) .executionFailed ≠ 0) : ∀ (fuel n : Nat) (j : Journal),
    (s.working (failures (n + 1)) (hand .executionFailed) j).macroStep c fuel = none
  | 0, _, _ => rfl
  | fuel + 1, n, j => by
    obtain ⟨j', hj'⟩ := macroStep_failures (j := j) (v := hand .executionFailed) (n := n + 1)
      (m := n + (s.seeing (hand .executionFailed)).faults c none) hc hr hi (by omega)
    obtain ⟨k, hk⟩ : ∃ k, n + (s.seeing (hand .executionFailed)).faults c none +
        (s.seeing (hand .executionFailed)).faults c (some Event.executionFailed.name) = k + 1 :=
      Nat.exists_eq_succ_of_ne_zero (by unfold cost at h; omega)
    rw [hj', hk]
    exact diverges_of_failures hr hi h fuel k j'

/-! ### Any queue -/

/-- How a macrostep ends in which nothing is enabled: with an empty queue, or with an event that stops
    the machine and leaves what stood behind it and the failures until then. -/
def Outcome (c : Chart) (s : Session) (v : Option EventVariable) (q : EventQueue) (n : Nat)
    (r : Session) : Prop :=
  ((∀ e ∈ q, e.isCancel = false) → ∃ v' j, r = s.working [] v' j) ∧
  ∀ before e after, q = before ++ e :: after → (∀ d ∈ before, d.isCancel = false) →
    e.isCancel = true → ∃ v' j, r = { s.working (after ++ failures (n + s.backlog c v before +
      (s.seeing (lastHand v before)).faults c none)) v' j with running := false }

/-- Working off failures changes nothing but the queue, the event in hand and the journal. -/
theorem working_of_failures (hr : s.running = true) (hi : Idle c s q) : ∀ (fuel n : Nat)
    (v : Option EventVariable) (j : Journal),
    (s.working (failures n) v j).macroStep c fuel = some r → ∃ v' j', r = s.working [] v' j'
  | fuel + 1, n, v, j, h => by
    cases hm : n + (s.seeing v).faults c none with
    | zero =>
      obtain ⟨j', hj'⟩ := macroStep_nothing (j := j) hc hr hi hm
      rw [hj'] at h
      cases h
      exact ⟨v, j', rfl⟩
    | succ m =>
      obtain ⟨j', hj'⟩ := macroStep_failures (j := j) hc hr hi hm
      rw [hj'] at h
      dsimp only at h
      split at h
      · rename_i hk
        cases h
        exact ⟨hand .executionFailed, j', by rw [hk]; rfl⟩
      · exact working_of_failures hr hi fuel _ _ j' h

/-- Whether working off failures ends. -/
theorem macroStep_failures_iff (hr : s.running = true) (hi : Idle c s q) (n : Nat) (j : Journal) :
    (∃ r, EndsIn c (s.working (failures n) v j) r) ↔ Settles c s v [] n := by
  have hset : Settles c s v [] n ↔ s.cost c (hand .executionFailed) .executionFailed = 0 ∨
      n + (s.seeing v).faults c none = 0 ∨ n + s.cost c v .executionFailed = 1 := by
    simp [Settles, backlog, lastHand]
  rw [hset]
  cases hm : n + (s.seeing v).faults c none with
  | zero =>
    obtain ⟨j', hj'⟩ := macroStep_nothing (j := j) hc hr hi hm
    exact ⟨fun _ => .inr (.inl rfl), fun _ => ⟨_, (endsIn_of_last hj').2 rfl⟩⟩
  | succ m =>
    obtain ⟨j', hj'⟩ := macroStep_failures (j := j) hc hr hi hm
    -- after the round there are as many failures as the backlog says, less one
    have hcost : n + s.cost c v .executionFailed = m + 1 +
        (s.seeing (hand .executionFailed)).faults c (some Event.executionFailed.name) := by
      rw [cost, ← Nat.add_assoc, hm]
    cases hk : m + (s.seeing (hand .executionFailed)).faults c
        (some Event.executionFailed.name) with
    | zero =>
      rw [hk] at hj'
      exact ⟨fun _ => .inr (.inr (by omega)), fun _ => ⟨_, (endsIn_of_last hj').2 rfl⟩⟩
    | succ k =>
      rw [hk] at hj'
      refine (exists_congr fun r => endsIn_of_round hj').trans ⟨?_, ?_⟩
      · rintro ⟨r, fuel, h⟩
        refine .inl (Decidable.byContradiction fun hcost => ?_)
        cases (diverges_of_failures hc hr hi hcost fuel k j').symm.trans h
      · intro h
        have hzero : s.cost c (hand .executionFailed) .executionFailed = 0 := by
          rcases h with h | h | h
          · exact h
          · omega
          · omega
        exact (ends_of_failures hc hr hi hzero k j').elim fun _ h => ⟨_, h⟩

omit hc in
theorem settles_cons (he : e.isCancel = false) {n : Nat} (h : q ≠ [] ∨ n + s.cost c v e ≠ 0) :
    Settles c s v (e :: q) n ↔ Settles c s (hand e) q (n + s.cost c v e) := by
  have hb : n + s.backlog c v (e :: q) = n + s.cost c v e + s.backlog c (hand e) q := by
    rw [backlog, Nat.add_assoc]
  have hcancel : (∃ d ∈ e :: q, d.isCancel = true) ↔ ∃ d ∈ q, d.isCancel = true := by
    simp [he]
  have hempty : (e :: q ≠ [] ∧ n + s.cost c v e + s.backlog c (hand e) q = 0) ↔
      q ≠ [] ∧ n + s.cost c v e + s.backlog c (hand e) q = 0 := by
    refine and_congr_left fun hzero => ⟨fun _ => h.resolve_right ?_, fun _ => by simp⟩
    intro hne
    exact hne (Nat.add_eq_zero_iff.1 hzero).1
  unfold Settles
  rw [hb, hcancel, hempty]
  rfl

omit hc in
/-- A round that takes no stopping event away does not change how the macrostep ends. -/
theorem Outcome.cons {n : Nat} (he : e.isCancel = false)
    (h : Outcome c s (hand e) q (n + s.cost c v e) r) : Outcome c s v (e :: q) n r := by
  refine ⟨fun hno => h.1 fun d hd => hno d (List.mem_cons_of_mem _ hd), ?_⟩
  intro before d after hsplit hbefore hd
  cases before with
  | nil =>
    obtain ⟨rfl, -⟩ := List.cons.inj hsplit
    rw [he] at hd
    cases hd
  | cons b before =>
    obtain ⟨rfl, hs⟩ := List.cons.inj hsplit
    obtain ⟨v', j, hr⟩ := h.2 before d after hs (fun k hk => hbefore k (List.mem_cons_of_mem _ hk)) hd
    refine ⟨v', j, ?_⟩
    rw [hr, lastHand, backlog, Nat.add_assoc n]

omit hc in
theorem Outcome.nil (n : Nat) (v' : Option EventVariable) (j : Journal) :
    Outcome c s v [] n (s.working [] v' j) :=
  ⟨fun _ => ⟨v', j, rfl⟩, fun before e after h => by simp at h⟩

omit hc in
/-- An event that stops the machine leaves what stands behind it. -/
theorem Outcome.stop {n : Nat} (he : e.isCancel = true) (j : Journal) :
    Outcome c s v (e :: q) n { s.working (q ++ failures (n + (s.seeing v).faults c none)) v j with
      running := false } := by
  refine ⟨?_, ?_⟩
  · intro hno
    rw [hno e (by simp)] at he
    cases he
  · intro before d after hsplit hbefore hd
    cases before with
    | nil =>
      obtain ⟨rfl, rfl⟩ := List.cons.inj hsplit
      exact ⟨v, j, rfl⟩
    | cons b before =>
      obtain ⟨rfl, -⟩ := List.cons.inj hsplit
      rw [hbefore e (by simp)] at he
      cases he

/-- One round with an event that stops the machine, or with another one. -/
theorem macroStep_cons (hr : s.running = true) (hi : Idle c s (e :: q)) (n : Nat) :
    (e.isCancel = true → ∃ j', ∀ fuel, (s.working (e :: q ++ failures n) v j).macroStep c (fuel + 1) =
      some { s.working (q ++ failures (n + (s.seeing v).faults c none)) v j' with running := false }) ∧
    (e.isCancel = false → ∃ j', ∀ fuel,
      (s.working (e :: q ++ failures n) v j).macroStep c (fuel + 1) =
        let t := s.working (q ++ failures (n + s.cost c v e)) (hand e) j'
        if t.queue = [] then some t else t.macroStep c fuel) := by
  have hq : e :: q ++ failures n ++ failures ((s.seeing v).faults c none) =
      e :: (q ++ failures (n + (s.seeing v).faults c none)) := by
    rw [List.append_assoc, failures_add]
    rfl
  obtain ⟨hstop, hgo⟩ := macroStep_working (j := j) hc hr (hi.single (.inl (by simp))) hq
  refine ⟨hstop, ?_⟩
  intro he
  obtain ⟨j', hj'⟩ := hgo he
  rw [List.append_assoc, failures_add, Nat.add_assoc] at hj'
  exact ⟨j', hj'⟩

/-- Whether working off a queue ends, and how. The induction is on the events that were there at first;
    the failures behind them are only counted. -/
theorem macroStep_iff (hr : s.running = true) : ∀ (q : EventQueue) (v : Option EventVariable) (n : Nat)
    (j : Journal), Idle c s q →
    ((∃ r, EndsIn c (s.working (q ++ failures n) v j) r) ↔ Settles c s v q n) ∧
    ∀ r, EndsIn c (s.working (q ++ failures n) v j) r → Outcome c s v q n r
  | [], v, n, j, hi => by
    refine ⟨macroStep_failures_iff hc hr hi n j, ?_⟩
    rintro r ⟨fuel, h⟩
    obtain ⟨v', j', rfl⟩ := working_of_failures hc hr hi fuel n v j h
    exact .nil n v' j'
  | e :: q, v, n, j, hi => by
    obtain ⟨hstop, hgo⟩ := macroStep_cons (v := v) (j := j) hc hr hi n
    cases he : e.isCancel with
    | true =>
      obtain ⟨j', hj'⟩ := hstop he
      refine ⟨⟨fun _ => .inl ⟨e, by simp, he⟩, fun _ => ⟨_, (endsIn_of_last hj').2 rfl⟩⟩, ?_⟩
      intro r h
      obtain rfl := (endsIn_of_last hj').1 h
      exact .stop he j'
    | false =>
      obtain ⟨j', hj'⟩ := hgo he
      by_cases hempty : q ++ failures (n + s.cost c v e) = []
      · -- the queue is empty, so this round is the last
        have hlast (fuel : Nat) := (hj' fuel).trans (if_pos hempty)
        obtain ⟨rfl, hzero⟩ := List.append_eq_nil_iff.1 hempty
        have hzero : n + s.cost c v e = 0 := by simpa using hzero
        refine ⟨⟨fun _ => .inr (.inr (.inl ⟨by simp, by simpa [backlog] using hzero⟩)),
          fun _ => ⟨_, (endsIn_of_last hlast).2 rfl⟩⟩, fun r h => ?_⟩
        rw [(endsIn_of_last hlast).1 h, hempty]
        exact .cons he (.nil _ _ j')
      · have hround (fuel : Nat) := (hj' fuel).trans (if_neg hempty)
        obtain ⟨hiff, hout⟩ := macroStep_iff hr q (hand e) (n + s.cost c v e) j'
          (hi.mono fun d hd => List.mem_cons_of_mem _ hd)
        have hne : q ≠ [] ∨ n + s.cost c v e ≠ 0 := by
          refine Decidable.byContradiction fun h => hempty ?_
          simp only [ne_eq, not_or, Decidable.not_not] at h
          rw [h.1, h.2]
          rfl
        refine ⟨?_, fun r h => .cons he (hout r ((endsIn_of_round hround).1 h))⟩
        rw [settles_cons he hne, ← hiff]
        exact exists_congr fun r => endsIn_of_round hround

omit hc

/-- If some condition that needs no event always fails, working off a queue has no end, be there ever so
    few events in it. -/
theorem not_settles_of_faults (hq : q ≠ []) (hno : ∀ e ∈ q, e.isCancel = false)
    (h : ∀ v, (s.seeing v).faults c none ≠ 0) : ¬Settles c s v q 0 := by
  have hcost (v : Option EventVariable) (e : Event) : s.cost c v e ≠ 0 := by
    have := h v
    unfold cost
    omega
  obtain ⟨e, q, rfl⟩ := List.exists_cons_of_ne_nil hq
  have hback : s.backlog c v (e :: q) ≠ 0 := by
    have := hcost v e
    unfold backlog
    omega
  rintro (⟨d, hd, hstop⟩ | hzero | ⟨-, hzero⟩ | hzero | hone)
  · rw [hno d hd] at hstop
    cases hstop
  · exact hcost _ _ hzero
  · omega
  · omega
  · have := hcost (lastHand v (e :: q)) .executionFailed
    omega

/-- A running machine in which nothing is enabled, whatever event is in hand, comes to rest if and only
    if the failures of its conditions leave it time to; and then only the queue, the event in hand and
    the journal have changed, unless an event has stopped it. -/
theorem macroStep_of_idle {name : String} {version : Nat} {d : Value}
    (hl : Chart.load name version d = .ok c) (hr : s.running = true) (hi : Idle c s q) :
    ((∃ fuel r, ({ s with queue := q, pending := [] } : Session).macroStep c fuel = some r) ↔
      Settles c s s.store.event q 0) ∧
    ∀ fuel r, ({ s with queue := q, pending := [] } : Session).macroStep c fuel = some r →
      Outcome c s s.store.event q 0 r := by
  have h := macroStep_iff (Chart.wellFormed_of_load hl) hr q s.store.event 0 s.journal hi
  rw [show failures 0 = [] from rfl, List.append_nil] at h
  exact ⟨exists_comm.trans h.1, fun fuel r hr => h.2 r ⟨fuel, hr⟩⟩

/-- A state with a condition that cannot be read, on a transition that needs no event. -/
def stubborn : Value :=
  .object [("states", .array [.object [("id", .string "Waiting"), ("transitions", .array [
    .object [("cond", .string "ready &&"), ("target", .string "Waiting")]])]])]

/-- The chart with that state. -/
def stubbornChart : Chart := (Chart.load "stubborn" 1 stubborn).toOption.get (by decide +kernel)

theorem load_stubborn : Chart.load "stubborn" 1 stubborn = .ok stubbornChart := Chart.load_eq_ok _

/-- A session on that chart. -/
def newStubborn : Session := .fresh (some stubbornChart) (.ofSeed 0 0)

/-- The session when it has been started and has come to rest. -/
def waiting : Session := (newStubborn.play stubbornChart 10 []).get (by decide +kernel)

theorem run_waiting : Run stubbornChart newStubborn waiting := Run.of_play (Option.some_get _).symm

/-- With a single event in its queue the session at rest goes on for ever. -/
theorem waiting_diverges : Run stubbornChart newStubborn waiting ∧ waiting.running = true ∧
    Idle stubbornChart waiting [.signal "tick"] ∧
    ¬∃ fuel r, ({ waiting with queue := [.signal "tick"], pending := [] } : Session).macroStep
      stubbornChart fuel = some r := by
  have hr : waiting.running = true := by decide +kernel
  have he : waiting.evaluator = .standard :=
    evaluator_of_reaches (Chart.wellFormed_of_load load_stubborn) run_waiting.reaches
  have hi : Idle stubbornChart waiting [.signal "tick"] := idle_of_standard he (by decide +kernel)
  have hsettles : ¬Settles stubbornChart waiting waiting.store.event [.signal "tick"] 0 := by
    decide +kernel
  refine ⟨run_waiting, hr, hi, fun h => hsettles ?_⟩
  exact (macroStep_of_idle load_stubborn hr hi).1.1 h

end Statechart.Session
