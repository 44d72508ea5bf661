import Statechart.Proofs.DateIndependence
import Statechart.Proofs.Handover
import Statechart.Proofs.ProcessLifecycle
import Statechart.Proofs.ProcessesAtRest

/-! Starting anew.

    A machine that is started anew stops its processes and forgets the rest: its configuration, its
    variables and histories, and the events that wait, its own and those from others. If stopping a
    process delivers nothing, what it then holds is what a machine holds that was never used, and the two
    keep abreast from then on. What it has written stays, and only the date tells them apart. -/

namespace Statechart

open Chart

theorem rel_map_left {α β γ : Type} {r : β → γ → Prop} {f : α → β} {x : Option α} {y : Option γ} :
    Option.Rel r (x.map f) y ↔ Option.Rel (fun a c => r (f a) c) x y := by
  cases x <;> cases y <;> simp

namespace Session

variable {c : Chart} {s : Session} {i : InvokeId} {p : Process}

/-- What is written when processes are stopped. -/
def farewells (live : Dict InvokeId Process) : List Entry := live.map fun e => .called e.2.id .stop

/-- The session with that written. -/
def parted (s : Session) : Session := { s with journal := s.journal ++ farewells s.live }

/-- Whether processes deliver nothing when they are stopped. -/
def LeaveQuietly (live : Dict InvokeId Process) : Prop :=
  ∀ e ∈ live, ∀ past, (e.2.invoker.answer past e.2.id .stop).delivered = []

theorem cancelProcess_quietly (hp : Dict.get? i s.live = some p)
    (hq : ∀ past, (p.invoker.answer past p.id .stop).delivered = []) : ∃ queue, s.cancelProcess i =
      { s with live := Dict.erase i s.live, queue, journal := s.journal.push (.called p.id .stop) } := by
  have hcall : (({ s with live := Dict.erase i s.live } : Session).call p .stop).1 =
      { s with live := Dict.erase i s.live, journal := s.journal.push (.called p.id .stop) } := by
    simp only [call, deliver, hq, List.map_nil, List.append_nil, Array.appendList_nil]
    rfl
  unfold cancelProcess
  rw [hp]
  dsimp only
  rcases hr : call p .stop { s with live := Dict.erase i s.live } with ⟨t, failure⟩
  rw [hr] at hcall
  cases failure with
  | none => exact ⟨_, hcall⟩
  | some _ => exact ⟨_, congrArg (raise _) hcall⟩

/-- Stopping processes that deliver nothing: all that is left of them is that they were told. -/
theorem cancelProcesses_quietly : ∀ {live : Dict InvokeId Process} {s : Session}, s.live = live →
    (Dict.keys live).Nodup → LeaveQuietly live → ∃ queue, s.cancelProcesses (Dict.keys live) =
      { s with live := [], queue, journal := s.journal ++ farewells live }
  | [], s, hlive, _, _ => by
    have hsame : ({ s with live := [] } : Session) = s := by rw [← hlive]
    refine ⟨s.queue, ?_⟩
    rw [farewells, List.map_nil, Array.appendList_nil, hsame]
    rfl
  | (i, p) :: live, s, hlive, hd, hq => by
    obtain ⟨hi, hd⟩ := List.nodup_cons.1 hd
    have hp : Dict.get? i s.live = some p := by
      rw [hlive]
      exact if_pos rfl
    obtain ⟨queue, hone⟩ := cancelProcess_quietly hp (hq (i, p) List.mem_cons_self)
    have hrest : Dict.erase i s.live = live := by
      rw [hlive, Dict.erase, List.filter_cons_of_neg (by simp)]
      exact Dict.erase_of_not_mem hi
    obtain ⟨queue', hall⟩ := cancelProcesses_quietly
      (s := { s with live, queue, journal := s.journal.push (.called p.id .stop) }) rfl hd
      fun e he => hq e (List.mem_cons_of_mem _ he)
    have hsplit : s.cancelProcesses (Dict.keys ((i, p) :: live)) =
        (s.cancelProcess i).cancelProcesses (Dict.keys live) := rfl
    refine ⟨queue', ?_⟩
    rw [hsplit, hone, hrest, hall, farewells, farewells, List.map_cons, Array.appendList_cons]

/-- A session that starts anew holds what one does that was never used. -/
theorem restart_quietly (hd : (Dict.keys s.live).Nodup) (hq : LeaveQuietly s.live) :
    s.restart c = { s with
      live := []
      journal := s.journal ++ farewells s.live
      queue := []
      store := .start c s.supply.nextSession.1 s.supply.now
      initialized := true
      running := true
      supply := s.supply.nextSession.2 } := by
  obtain ⟨queue, hcancel⟩ := cancelProcesses_quietly (s := { s with running := false }) rfl hd hq
  unfold restart cancelAll
  dsimp only at hcancel ⊢
  rw [hcancel]
  rfl

end Session

namespace Machine

open Session

variable {c : Chart} {m : Machine} {op : Operation} {supply : Supply}

/-- Being started or started anew is the same. -/
theorem ask_go (hchart : m.session.chart = some c) (hop : op = .go ∨ op = .reset) (fuel : Nat) :
    m.ask fuel op = ((m.session.restart c).takeAndSettle c fuel none [c.initial]).map
      fun s => absorb ⟨s.finalStep c, []⟩ := by
  have hask : m.ask fuel op = (m.go fuel).map Prod.fst := by obtain rfl | rfl := hop <;> rfl
  rw [hask, go_eq hchart, firstStep, Option.map_map, Option.map_map]
  rfl

/-- Once its processes have been told to stop, a machine that is started anew is abreast of one that was
    never used and will give out the same names. -/
theorem abreast_afresh (h : Handled m) (hchart : m.session.chart = some c)
    (hmakers : ∀ e ∈ m.session.invokers, e.2.Memoryless) (hquiet : LeaveQuietly m.session.live)
    (hname : supply.nextSession.1 = m.session.supply.nextSession.1)
    (hnames : ∀ k, supply.processName (supply.processes + k) =
      m.session.supply.processName (m.session.supply.processes + k)) :
    Session.Abreast m.session.parted (m.successor supply).session
      ((m.session.restart c).dated supply.now) ((m.successor supply).session.restart c) := by
  rw [restart_quietly h.atRest.inOrder.distinct hquiet,
    restart_quietly (s := (m.successor supply).session) .nil nofun]
  exact {
    chart := rfl
    store := congrArg (Store.start c · supply.now) hname
    queue := rfl
    running := rfl
    pending := ((h.indexed.grounded c hchart).pending rfl).symm
    live := rfl
    invokers := rfl
    listeners := rfl
    evaluator := rfl
    sink := rfl
    journal := ⟨[], (List.append_nil _).symm, rfl⟩
    outbox := ⟨[], (List.append_nil _).symm, rfl⟩
    names := hnames
    makers := hmakers
    processes := nofun }

/-- A machine that is started anew, whatever it was used for, comes to the same as one that was never
    used, on the same chart, with the same that it works with and under the same names: it holds the same
    and does the same with whatever events it is given then, and only its date is its own. All that is
    left of the past is what was written and delivered before, and that its processes were told to
    stop. -/
theorem restart_afresh (h : Handled m) (hchart : m.session.chart = some c)
    (hmakers : ∀ e ∈ m.session.invokers, e.2.Memoryless) (hquiet : LeaveQuietly m.session.live)
    (hname : supply.nextSession.1 = m.session.supply.nextSession.1)
    (hnames : ∀ k, supply.processName (supply.processes + k) =
      m.session.supply.processName (m.session.supply.processes + k))
    (hop : op = .go ∨ op = .reset) (fuel : Nat) (es : List Event) :
    Option.Rel (fun a b => Abreast m.session.parted (m.successor supply).session (a.dated supply.now) b)
      ((m.ask fuel op).bind (feed fuel es)) (((m.successor supply).ask fuel .go).bind (feed fuel es)) := by
  have hstart := (abreast_afresh h hchart hmakers hquiet hname hnames).takeAndSettle (c := c) fuel none
    [c.initial]
  rw [takeAndSettle_dated] at hstart
  rw [ask_go hchart hop, ask_go (m := m.successor supply) hchart (.inl rfl)]
  generalize (m.session.restart c).takeAndSettle c fuel none [c.initial] = u at hstart ⊢
  generalize ((m.successor supply).session.restart c).takeAndSettle c fuel none [c.initial] = v
    at hstart ⊢
  have hparted : Delivered m.session.parted := h.atRest.delivered
  have hfresh : Delivered (m.successor supply).session := nofun
  cases u with
  | none =>
    cases hstart
    exact .none
  | some s =>
    cases hstart with
    | @some _ t hst =>
      have hrest : Session.Abreast _ _ ((s.finalStep c).dated supply.now) (t.finalStep c) :=
        finalStep_dated ▸ hst.finalStep (c := c)
      have hmachine : Abreast _ _ ((absorb ⟨s.finalStep c, []⟩).dated supply.now)
          (absorb ⟨t.finalStep c, []⟩) :=
        Abreast.absorb hparted hfresh (m := ⟨(s.finalStep c).dated supply.now, []⟩) ⟨hrest, rfl⟩
      have hfeed := hmachine.feed hparted hfresh fuel es
      rw [feed_dated] at hfeed
      exact rel_map_left.1 hfeed

/-- The desk in disorder: its lamp glows, its drawer is remembered, and something waits to be done. -/
def strewnDesk : Machine := relitDesk.enqueue (.signal "shake")

/-- The names that the desk would give out next, at another time. -/
def tomorrow : Supply := { strewnDesk.session.supply with now := 86400 }

theorem handled_strewnDesk : Handled strewnDesk ∧ strewnDesk.session.chart = some deskChart ∧
    strewnDesk.session.Crewed (· = timer) := by
  have hnew : Handled newDesk := .furnished (.of_load load_desk) (.ofSeed 0 0) [("timer", timer)] [] .own
  have hattach : newDesk.attach (deskSnapshot ["Open"]) = .ok (newDesk.deskWith [6]) :=
    attach_deskSnapshot rfl (by decide +kernel)
  have htaken : Handled (newDesk.deskWith [6]) := by
    refine hnew.ask (.attach (deskSnapshot ["Open"])) (by rintro _ ⟨⟩)
      (show newDesk.ask 0 _ = some _ from ?_)
    simp only [ask, hattach]
  have hwaiting : Handled ((newDesk.deskWith [6]).enqueue (.signal "relight")) :=
    htaken.ask (.enqueue (.signal "relight")) (by rintro _ ⟨⟩) (show ask 0 _ _ = some _ from rfl)
  obtain ⟨error, hwork⟩ : ∃ error, ((newDesk.deskWith [6]).enqueue (.signal "relight")).triggerEvents 10 =
      some (relitDesk, error) := ⟨_, (Option.some_get _).symm⟩
  have hrelit : Handled relitDesk :=
    hwaiting.ask .triggerEvents (by rintro _ ⟨⟩) (Option.map_eq_some_iff.2 ⟨_, hwork, rfl⟩)
  have hcrew : ((newDesk.deskWith [6]).enqueue (.signal "relight")).session.Crewed (· = timer) :=
    ⟨List.forall_mem_singleton.2 rfl, List.forall_mem_nil _⟩
  obtain ⟨hkept, hchart⟩ := triggerEvents_keeps crewed_next hcrew hwaiting.indexed hwork
  exact ⟨hrelit.ask (.enqueue (.signal "shake")) (by rintro _ ⟨⟩) (show ask 0 _ _ = some _ from rfl),
    hchart, hkept⟩

/-- Started anew, the desk is in order again, as a new one is that is set up a day later, and both are
    shaken alike. -/
theorem restart_desk : strewnDesk.session.live.length = 1 ∧
    strewnDesk.session.store.histories = [(5, [6])] ∧ strewnDesk.inbox.map Event.name = ["shake"] ∧
    ∃ a b, (strewnDesk.ask 10 .reset).bind (feed 10 [.signal "shake"]) = some a ∧
      ((strewnDesk.successor tomorrow).ask 10 .go).bind (feed 10 [.signal "shake"]) = some b ∧
      b.session.store = a.session.store.dated 86400 ∧ a.session.store.histories = [] ∧
      b.session.live = a.session.live ∧ b.inbox = a.inbox ∧ a.inbox.length = 0 := by
  obtain ⟨hm, hchart, hcrew⟩ := handled_strewnDesk
  have hmakers : ∀ e ∈ strewnDesk.session.invokers, e.2.Memoryless :=
    fun e he => hcrew.makers e he ▸ fun _ _ _ _ => rfl
  have hquiet : LeaveQuietly strewnDesk.session.live :=
    fun e he past => (hcrew.processes e he).symm ▸ rfl
  have hend : (((strewnDesk.ask 10 .reset).bind (feed 10 [.signal "shake"])).map fun m =>
      (m.session.store.histories, m.inbox.length)) = some ([], 0) := by decide +kernel
  obtain ⟨a, ha, hclear⟩ := Option.map_eq_some_iff.1 hend
  have halike := restart_afresh hm hchart hmakers hquiet (rfl : tomorrow.nextSession.1 = _)
    (fun _ => rfl) (.inr rfl) 10 [.signal "shake"]
  rw [ha] at halike
  generalize hb : ((strewnDesk.successor tomorrow).ask 10 .go).bind (feed 10 [.signal "shake"]) = other
    at halike
  cases halike with
  | @some _ b h =>
    exact ⟨by decide +kernel, by decide +kernel, by decide +kernel, a, b, ha, rfl, h.session.store,
      congrArg Prod.fst hclear, h.session.live, h.inbox, congrArg Prod.snd hclear⟩

end Machine
end Statechart
