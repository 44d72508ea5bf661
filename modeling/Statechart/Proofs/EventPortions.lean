import Statechart.Proofs.FuelMonotonicity
import Statechart.Proofs.Handover
import Statechart.Proofs.ProcessesAtRest
import Statechart.Proofs.Stopped

/-! Events in portions.

    Events are handed to a machine one by one or several at once, and worked off then and there or left
    waiting for the next time. Where a chart declares no process nobody else puts anything into the
    queue, so it makes no difference which way they come: all that counts is the order in which they do,
    and that the machine is told to work them off in the end. -/

namespace Statechart

open Chart

namespace Session

variable {c : Chart} {s t u : Session} {as bs es left : List Event}

/-- How a session works off events one after the other for as long as it runs, and which ones it leaves. -/
inductive Works (c : Chart) : Session → List Event → Session → List Event → Prop where
  | done (s : Session) : Works c s [] s []
  | stopped {s : Session} (hr : s.running = false) (es : List Event) : Works c s es s es
  | next {s t u : Session} {fuel : Nat} {e : Event} {es left : List Event} (hr : s.running = true)
      (ht : s.nextStep c fuel e = some t) (h : Works c t es u left) : Works c s (e :: es) u left

namespace Works

/-- What is left is what came last. -/
theorem split (h : Works c s es t left) : ∃ worked, es = worked ++ left := by
  induction h with
  | done => exact ⟨[], rfl⟩
  | stopped => exact ⟨[], rfl⟩
  | @next _ _ _ _ e _ _ _ _ _ ih =>
    obtain ⟨worked, rfl⟩ := ih
    exact ⟨e :: worked, rfl⟩

/-- A session that still runs leaves nothing. -/
theorem left_eq_nil (h : Works c s es t left) (hr : t.running = true) : left = [] := by
  induction h with
  | done => rfl
  | stopped hstop =>
    rw [hstop] at hr
    cases hr
  | next _ _ _ ih => exact ih hr

/-- Where events were worked off there is nothing more to do. -/
theorem again_iff {left' : List Event} (h : Works c s es t left) :
    Works c t left u left' ↔ u = t ∧ left' = left := by
  constructor
  · intro h'
    cases h' with
    | done => exact ⟨rfl, rfl⟩
    | stopped => exact ⟨rfl, rfl⟩
    | next hr => cases h.left_eq_nil hr
  · rintro ⟨rfl, rfl⟩
    cases hr : u.running with
    | false => exact .stopped hr _
    | true =>
      rw [h.left_eq_nil hr]
      exact .done u

/-- Where one portion ends makes no difference: what it leaves comes before the other. -/
theorem append_iff : Works c s (as ++ bs) u left ↔
    ∃ t mid, Works c s as t mid ∧ Works c t (mid ++ bs) u left := by
  constructor
  · intro h
    induction as generalizing s with
    | nil => exact ⟨s, [], .done s, h⟩
    | cons e as ih =>
      cases h with
      | stopped hr => exact ⟨_, e :: as, .stopped hr _, .stopped hr _⟩
      | next hr ht h =>
        obtain ⟨t, mid, has, hbs⟩ := ih h
        exact ⟨t, mid, .next hr ht has, hbs⟩
  · rintro ⟨t, mid, has, hbs⟩
    induction has with
    | done => exact hbs
    | stopped => exact hbs
    | next hr ht _ ih => exact .next hr ht (ih hbs)

end Works
end Session

namespace Machine

open Session

variable {c : Chart} {m m' m'' : Machine} {fuel fuel' : Nat}

/-! ### Machines that nobody delivers to -/

/-- Whether a machine is on a chart that declares no process, and nobody delivers anything to it. -/
structure Private (c : Chart) (s : Session) : Prop where
  chart : s.chart = some c
  indexed : Indexed s
  live : s.live = []
  delivered : Delivered s

theorem Handled.private (h : Handled m) (hchart : m.session.chart = some c)
    (hn : c.invokes.size = 0) : Private c m.session :=
  ⟨hchart, h.indexed, h.live_eq_nil hchart hn, h.atRest.delivered⟩

/-- Where nothing was delivered to a machine there is nothing to take over. -/
theorem absorb_eq_self (h : Delivered m.session) : m.absorb = m := by
  have hown : m.session.outbox.filter (fun d => decide (d.1 = .own)) = [] :=
    List.filter_eq_nil_iff.2 fun d hd => by simpa using h d hd
  have hothers : m.session.outbox.filter (fun d => !decide (d.1 = .own)) = m.session.outbox :=
    List.filter_eq_self.2 fun d hd => by simpa using h d hd
  rw [absorb_eq, hown, hothers, List.map_nil, List.append_nil]

namespace Private

theorem nextStep {s t : Session} {e : Event} (h : Private c s) (hn : c.invokes.size = 0)
    (ht : s.nextStep c fuel e = some t) : Private c t := by
  obtain ⟨hindexed, hchart, hst⟩ := h.indexed.nextStep h.chart ht
  obtain ⟨name, version, d, hcompile⟩ := h.indexed.compiles c h.chart
  have hnobody : t.Unattended s.outbox :=
    hst.keeps (wellFormed_of_compile hcompile) (Unattended.attends hn) ⟨h.live, rfl⟩
  have hdelivered : Delivered t := by
    rw [Delivered, hnobody.outbox]
    exact h.delivered
  exact ⟨hchart, hindexed, hnobody.live, hdelivered⟩

/-- Working off what is in the queue, and what that leaves. -/
theorem workOff_iff (h : Private c m.session) (hn : c.invokes.size = 0) :
    (∃ fuel, m.workOff c fuel = some m') ↔ Works c m.session m.inbox m'.session m'.inbox := by
  constructor
  · rintro ⟨fuel, hw⟩
    induction fuel generalizing m with
    | zero => cases hw
    | succ fuel ih =>
      obtain ⟨s, inbox⟩ := m
      rw [workOff] at hw
      split at hw
      case isFalse hr =>
        cases hw
        exact .stopped (Bool.eq_false_iff.2 hr) _
      rename_i hr
      cases inbox with
      | nil =>
        cases hw
        exact .done _
      | cons e inbox =>
        dsimp only [EventQueue.pop] at hw
        split at hw
        · cases hw
        · rename_i t ht
          have ht' : Private c t := h.nextStep hn ht
          rw [absorb_eq_self (m := ⟨t, inbox⟩) ht'.delivered] at hw
          exact .next hr ht (ih ht' hw)
  · obtain ⟨s, inbox⟩ := m
    obtain ⟨u, left⟩ := m'
    intro hw
    dsimp only at h hw
    induction hw with
    | done s =>
      refine ⟨1, ?_⟩
      rw [workOff]
      split <;> rfl
    | stopped hr es => exact ⟨1, workOff_of_not_running (m := ⟨_, es⟩) hr 0⟩
    | @next s t u k e es left hr ht _ ih =>
      have ht' : Private c t := h.nextStep hn ht
      obtain ⟨fuel, hw⟩ := ih ht'
      refine ⟨max k fuel + 1, ?_⟩
      have hr' : (⟨s, e :: es⟩ : Machine).running = true := hr
      rw [workOff, if_pos hr']
      simp only [EventQueue.pop, nextStep_of_le (Nat.le_max_left k fuel) ht,
        absorb_eq_self (m := ⟨t, es⟩) ht'.delivered]
      exact workOff_of_le (Nat.le_max_right k fuel) hw

theorem works {s t : Session} {es left : List Event} (h : Private c s) (hn : c.invokes.size = 0)
    (hw : Works c s es t left) : Private c t := by
  induction hw with
  | done => exact h
  | stopped => exact h
  | next _ ht _ ih => exact ih (h.nextStep hn ht)

end Private

/-! ### Portions -/

/-- A way of handing events to a machine. -/
inductive Portion where
  | enqueue (e : Event)
  | trigger (e : Event)
  | triggerAll (es : List Event)
  | triggerEvents

namespace Portion

/-- What the machine is asked for. -/
def operation : Portion → Operation
  | .enqueue e => .enqueue e
  | .trigger e => .trigger e
  | .triggerAll es => .triggerAll es
  | .triggerEvents => .triggerEvents

/-- The events of a portion. -/
def events : Portion → List Event
  | .enqueue e => [e]
  | .trigger e => [e]
  | .triggerAll es => es
  | .triggerEvents => []

/-- Whether the machine is told to work off what waits. -/
def works : Portion → Bool
  | .enqueue _ => false
  | _ => true

end Portion

/-- Hands events over, portion by portion. -/
def hand (fuel : Nat) (ps : List Portion) (m : Machine) : Option Machine :=
  ps.foldlM (fun m p => m.ask fuel p.operation) m

/-- The machine with events added to its queue. -/
def await (es : List Event) (m : Machine) : Machine := { m with inbox := m.inbox ++ es }

variable {p : Portion} {ps qs : List Portion}

theorem ask_waiting (hp : p.works = false) (fuel : Nat) (m : Machine) :
    m.ask fuel p.operation = some (m.await p.events) := by
  cases p with
  | enqueue e => rfl
  | _ => cases hp

theorem ask_working (hp : p.works = true) (hchart : m.session.chart = some c) :
    m.ask fuel p.operation = (m.await p.events).workOff c fuel := by
  have hwork (es : List Event) :
      ((m.await es).triggerEvents fuel).map Prod.fst = (m.await es).workOff c fuel := by
    rw [triggerEvents_eq (m := m.await es) hchart, Option.map_map]
    exact Option.map_id_fun' ▸ rfl
  cases p with
  | enqueue e => cases hp
  | trigger e => exact hwork [e]
  | triggerAll es =>
    rw [Portion.operation, ask, triggerAll, foldl_enqueue]
    exact hwork es
  | triggerEvents =>
    have hnone : m.await [] = m := by rw [await, List.append_nil]
    have h := hwork []
    rw [hnone] at h
    rw [Portion.operation, ask, Portion.events, hnone, h]

theorem ask_portion_of_le (hle : fuel ≤ fuel') (h : m.ask fuel p.operation = some m') :
    m.ask fuel' p.operation = some m' := by
  cases p with
  | enqueue e => exact h
  | trigger e =>
    obtain ⟨⟨n, error⟩, hn, rfl⟩ := Option.map_eq_some_iff.1 h
    exact Option.map_eq_some_iff.2 ⟨_, trigger_of_le hle hn, rfl⟩
  | triggerAll es =>
    obtain ⟨⟨n, error⟩, hn, rfl⟩ := Option.map_eq_some_iff.1 h
    exact Option.map_eq_some_iff.2 ⟨_, triggerEvents_of_le hle hn, rfl⟩
  | triggerEvents =>
    obtain ⟨⟨n, error⟩, hn, rfl⟩ := Option.map_eq_some_iff.1 h
    exact Option.map_eq_some_iff.2 ⟨_, triggerEvents_of_le hle hn, rfl⟩

theorem hand_of_le (hle : fuel ≤ fuel') (h : m.hand fuel ps = some m') :
    m.hand fuel' ps = some m' := by
  induction ps generalizing m with
  | nil => exact h
  | cons p ps ih =>
    rw [hand, List.foldlM_cons] at h ⊢
    obtain ⟨m₁, h₁, h⟩ := Option.bind_eq_some_iff.1 h
    exact Option.bind_eq_some_iff.2 ⟨m₁, ask_portion_of_le hle h₁, ih h⟩

/-- Portions are handed over with some fuel if the first one is, and then the others. -/
theorem exists_hand_cons : (∃ fuel, m.hand fuel (p :: ps) = some m') ↔
    ∃ m₁, (∃ fuel, m.ask fuel p.operation = some m₁) ∧ ∃ fuel, m₁.hand fuel ps = some m' := by
  constructor
  · rintro ⟨fuel, h⟩
    rw [hand, List.foldlM_cons] at h
    obtain ⟨m₁, h₁, h⟩ := Option.bind_eq_some_iff.1 h
    exact ⟨m₁, ⟨fuel, h₁⟩, fuel, h⟩
  · rintro ⟨m₁, ⟨n, h₁⟩, k, h⟩
    refine ⟨max n k, ?_⟩
    rw [hand, List.foldlM_cons]
    exact Option.bind_eq_some_iff.2 ⟨m₁, ask_portion_of_le (Nat.le_max_left n k) h₁,
      hand_of_le (Nat.le_max_right n k) h⟩

/-- Whether the machine is told in the end to work off what waits. -/
def Settled (ps : List Portion) : Prop := ∃ p, ps.getLast? = some p ∧ p.works = true

/-- What becomes of a machine depends on the events alone, in the order in which they come. -/
theorem hand_iff (hm : Private c m.session) (hn : c.invokes.size = 0) (hs : Settled ps) :
    (∃ fuel, m.hand fuel ps = some m') ↔
      Works c m.session (m.inbox ++ ps.flatMap Portion.events) m'.session m'.inbox := by
  induction ps generalizing m with
  | nil =>
    obtain ⟨p, hp, -⟩ := hs
    cases hp
  | cons p ps ih =>
    have hsettled : ps = [] ∧ p.works = true ∨ Settled ps := by
      obtain ⟨q, hq, hw⟩ := hs
      cases ps with
      | nil =>
        cases hq
        exact .inl ⟨rfl, hw⟩
      | cons p' ps => exact .inr ⟨q, hq, hw⟩
    rw [exists_hand_cons, List.flatMap_cons, ← List.append_assoc]
    by_cases hp : p.works = true
    case neg =>
      have hps : Settled ps := hsettled.resolve_left fun h => hp h.2
      refine Iff.trans ?_ (ih (m := m.await p.events) hm hps)
      have hask (n : Nat) := ask_waiting (Bool.eq_false_iff.2 hp) n m
      simp only [hask, Option.some_inj, exists_const, exists_eq_left']
    have hfirst (m₁ : Machine) : (∃ fuel, m.ask fuel p.operation = some m₁) ↔
        Works c m.session (m.inbox ++ p.events) m₁.session m₁.inbox := by
      simp only [ask_working hp hm.chart]
      exact Private.workOff_iff (m := m.await p.events) hm hn
    have hlater {n : Machine} (hw : Works c m.session (m.inbox ++ p.events) n.session n.inbox) :
        (∃ fuel, n.hand fuel ps = some m') ↔
          Works c n.session (n.inbox ++ ps.flatMap Portion.events) m'.session m'.inbox := by
      obtain ⟨rfl, -⟩ | hps := hsettled
      · obtain ⟨t, left⟩ := n
        obtain ⟨u, left'⟩ := m'
        rw [List.flatMap_nil, List.append_nil, hw.again_iff]
        simp only [hand, List.foldlM_nil, Option.pure_def, Option.some_inj, exists_const, mk.injEq]
        exact and_congr eq_comm eq_comm
      · exact ih (hm.works hn hw) hps
    rw [Works.append_iff]
    constructor
    · rintro ⟨m₁, hask, hrest⟩
      have hworks := (hfirst m₁).1 hask
      exact ⟨m₁.session, m₁.inbox, hworks, (hlater hworks).1 hrest⟩
    · rintro ⟨t, mid, hworks, hrest⟩
      exact ⟨⟨t, mid⟩, (hfirst ⟨t, mid⟩).2 hworks, (hlater (n := ⟨t, mid⟩) hworks).2 hrest⟩

/-- In whatever portions the same events are handed to a machine on a chart that declares no process, it
    comes to the same if it is told in the end to work them off: it holds the same, has written the same
    and leaves the same events waiting, with as much fuel as suffices for one way and for the other. It
    has worked off the events that waited and those it was given, each one once, from the first one on
    and for as long as it ran; so what waits is what came last, and nothing waits while it runs. -/
theorem hand_alike (hm : Handled m) (hchart : m.session.chart = some c) (hn : c.invokes.size = 0)
    (hps : Settled ps) (hqs : Settled qs)
    (hsame : qs.flatMap Portion.events = ps.flatMap Portion.events) (h : m.hand fuel ps = some m') :
    (∃ k, ∀ n, k ≤ n → m.hand n qs = some m') ∧ (∀ n m'', m.hand n qs = some m'' → m'' = m') ∧
      Works c m.session (m.inbox ++ ps.flatMap Portion.events) m'.session m'.inbox ∧
      (∃ worked, m.inbox ++ ps.flatMap Portion.events = worked ++ m'.inbox) ∧
      (m'.running = true → m'.inbox = []) := by
  have hprivate := hm.private hchart hn
  have hworks := (hand_iff hprivate hn hps).1 ⟨fuel, h⟩
  obtain ⟨k, hk⟩ : ∃ k, m.hand k qs = some m' := (hand_iff hprivate hn hqs).2 (hsame ▸ hworks)
  refine ⟨⟨k, fun n hle => hand_of_le hle hk⟩, fun n m'' hn => ?_, hworks, hworks.split,
    hworks.left_eq_nil⟩
  have hmax := hand_of_le (Nat.le_max_left n k) hn
  rw [hand_of_le (Nat.le_max_right n k) hk] at hmax
  exact (Option.some_inj.1 hmax).symm

/-- The booth, opened. -/
def opened : Machine :=
  (((Machine.fresh (some boothChart) (.ofSeed 0 0)).go 10).map Prod.fst).get (by decide +kernel)

/-- What happens at the booth: it is shut, and the one who comes next has to wait. -/
def nightfall : List Portion := [.trigger (.signal "knock"), .enqueue (.signal "shut"), .triggerEvents,
  .trigger (.signal "knock")]

/-- The same, seen only the next morning. -/
def morningAfter : List Portion := [.triggerAll (["knock", "shut", "knock"].map .signal)]

/-- The booth when night has fallen. -/
def closed : Machine := (opened.hand 10 nightfall).get (by decide +kernel)

theorem opened_handled : Handled opened ∧ opened.session.chart = some boothChart := by
  have hgo : (Machine.fresh (some boothChart) (.ofSeed 0 0)).ask 10 .go = some opened :=
    (Option.some_get _).symm
  refine ⟨(Handled.new (some boothChart) (.ofSeed 0 0) .standard ?_).ask .go nofun hgo, ?_⟩
  · rintro _ ⟨⟩
    exact .of_load load_booth
  · obtain ⟨⟨m, error⟩, h, heq⟩ := Option.map_eq_some_iff.1 hgo
    exact heq ▸ chart_go (wellFormed_of_load load_booth) rfl h

/-- Seen at once or hour by hour, the booth is shut after the first knock, and the second one waits. -/
theorem hand_booth : opened.hand 10 nightfall = some closed ∧
    (∃ k, opened.hand k morningAfter = some closed) ∧ closed.running = false ∧
    closed.inbox.map Event.name = ["knock"] := by
  have h : opened.hand 10 nightfall = some closed := (Option.some_get _).symm
  obtain ⟨hopened, hchart⟩ := opened_handled
  have hnight : Settled nightfall := ⟨.trigger (.signal "knock"), rfl, rfl⟩
  have hmorning : Settled morningAfter := ⟨_, rfl, rfl⟩
  obtain ⟨⟨k, hk⟩, -⟩ := hand_alike hopened hchart (by decide +kernel) hnight hmorning rfl h
  exact ⟨h, ⟨k, hk k (Nat.le_refl k)⟩, by decide +kernel, by decide +kernel⟩

end Machine
end Statechart
