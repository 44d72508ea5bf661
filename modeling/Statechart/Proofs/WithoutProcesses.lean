import Statechart.Proofs.Operations

/-! Machines without processes.

    A machine for which no one makes processes never has one: where one is to start, an event says that
    it failed. Then nothing is delivered to anyone either, and no name is given to a process. -/

namespace Statechart

open Chart Session

/-- What of a supply stays until a process is named: the names of the next processes, one after the
    other, and the time. -/
def Supply.fixed (s : Supply) : (Nat → String) × Int :=
  (fun n => s.processName (s.processes + n), s.now)

variable {fixed : (Nat → String) × Int}

namespace Session

variable {c : Chart} {s t : Session}

/-- Whether a session has no processes, no one who makes them and nothing that they delivered, and what
    of its supply stays until one is named. -/
structure Lone (fixed : (Nat → String) × Int) (s : Session) : Prop where
  invokers : s.invokers = []
  live : s.live = []
  outbox : s.outbox = []
  supply : s.supply.fixed = fixed

namespace Lone

theorem congr (h : s.Lone fixed) (hi : t.invokers = s.invokers) (hl : t.live = s.live)
    (ho : t.outbox = s.outbox) (hn : t.supply.fixed = s.supply.fixed) : t.Lone fixed :=
  ⟨hi.trans h.invokers, hl.trans h.live, ho.trans h.outbox, hn.trans h.supply⟩

theorem cancelProcess (h : s.Lone fixed) (i : InvokeId) : s.cancelProcess i = s := by
  rw [Session.cancelProcess, h.live]
  rfl

theorem cancelAll (h : s.Lone fixed) : s.cancelAll = s := by
  rw [Session.cancelAll, h.live]
  rfl

theorem act (h : s.Lone fixed) (owner : Option NodeId) (a : Action) : (s.act c owner a).Lone fixed := by
  have hperform : (s.perform c owner a).1.Lone fixed := by
    cases a with
    | log label expr =>
      cases expr with
      | none => exact h.congr rfl rfl rfl rfl
      | some expr =>
        rw [perform]
        split
        · exact h.congr rfl rfl rfl rfl
        · exact h
    | assign location expr =>
      rw [perform]
      split
      · exact h.congr rfl rfl rfl rfl
      · exact h
    | send id target kind event delay params =>
      rw [perform]
      split
      · split <;> exact h.congr rfl rfl rfl rfl
      · exact h
    | _ => exact h.congr rfl rfl rfl rfl
  unfold Session.act
  split <;> rename_i e <;> rw [e] at hperform
  · exact hperform
  · exact hperform.congr rfl rfl rfl rfl

/-- A process that is to start fails. -/
theorem start (h : s.Lone fixed) (i : InvokeId) : (s.start c i).Lone fixed := by
  unfold Session.start
  dsimp only
  rw [h.invokers]
  split
  · exact h.congr rfl rfl rfl rfl
  · exact h.congr rfl rfl rfl rfl

theorem restart (h : s.Lone fixed) : (s.restart c).Lone fixed := by
  have hstopped : ({ s with running := false } : Session).Lone fixed := h.congr rfl rfl rfl rfl
  unfold Session.restart
  rw [hstopped.cancelAll]
  exact h.congr rfl rfl rfl rfl

/-- No stir brings a process into being. -/
theorem stir (hc : c.WellFormed) (h : s.Lone fixed) (hs : Stir c s t) : t.Lone fixed := by
  cases hs with
  | restart => exact (h.restart (c := c)).congr rfl rfl rfl rfl
  | select event =>
    obtain ⟨-, -, k, hk⟩ := select_spec hc (Prod.eta (s.select c event)).symm
    rw [show (s.select c event).2 = _ from hk.same]
    exact h.congr rfl rfl rfl rfl
  | act _ a => exact h.act _ a
  | cancel => exact (h.cancelProcess _).symm ▸ h
  | start => exact h.start _
  | tell e =>
    rw [tellProcesses, h.live]
    exact h
  | _ => exact h.congr rfl rfl rfl rfl

theorem stirs (hc : c.WellFormed) (h : s.Lone fixed) (hs : Stirs c s t) : t.Lone fixed := by
  induction hs with
  | refl => exact h
  | tail _ hstir ih => exact ih.stir hc hstir

end Lone
end Session

namespace Machine

variable {c : Chart} {m m' : Machine} {fuel : Nat} {error : Option MachineError} {e : Event}

/-- Whether a machine has no processes, and holds only what lies in the tables of its chart. -/
structure Alone (fixed : (Nat → String) × Int) (m : Machine) : Prop where
  indexed : Indexed m.session
  lone : m.session.Lone fixed

namespace Alone

/-- There is nothing to take over. -/
theorem absorb (h : m.session.Lone fixed) : m.absorb = m := by
  rw [absorb_eq, h.outbox]
  have hsame : ({ m.session with outbox := [] } : Session) = m.session := by rw [← h.outbox]
  simp only [List.filter_nil, List.map_nil, List.append_nil, hsame]

theorem reset (h : m.Alone fixed) (hr : m.reset fuel = some (m', error)) : m'.Alone fixed := by
  refine ⟨h.indexed.reset hr, ?_⟩
  cases hchart : m.session.chart with
  | none =>
    rw [eq_of_reset hchart hr, absorb (m := ⟨m.session, []⟩) h.lone]
    exact h.lone
  | some c =>
    obtain ⟨s, hs, rfl⟩ := exists_of_reset hchart hr
    obtain ⟨name, version, d, hcompile⟩ := h.indexed.compiles c hchart
    have hc := wellFormed_of_compile hcompile
    have hstart : ({ m.session.restart c with pending := [] } : Session).Lone fixed :=
      (h.lone.restart (c := c)).congr rfl rfl rfl rfl
    have hlone : s.Lone fixed := hstart.stirs hc (stirs_firstStep hc (closed_of_compile hcompile) hs).1
    rw [absorb (m := ⟨s, []⟩) hlone]
    exact hlone

theorem workOff (fuel : Nat) {m : Machine} (hm : m.Alone fixed) (hchart : m.session.chart = some c)
    (h : m.workOff c fuel = some m') : m'.Alone fixed := by
  have next {fuel : Nat} {s t : Session} {e : Event} {inbox : EventQueue} (hi : Indexed s)
      (hchart : s.chart = some c) (hs : s.Lone fixed) (ht : s.nextStep c fuel e = some t) :
      (Machine.absorb ⟨t, inbox⟩).session.Lone fixed := by
    obtain ⟨-, -, hst⟩ := hi.nextStep hchart ht
    obtain ⟨name, version, d, hcompile⟩ := hi.compiles c hchart
    have hlone : t.Lone fixed := hs.stirs (wellFormed_of_compile hcompile) hst
    rw [absorb (m := ⟨t, inbox⟩) hlone]
    exact hlone
  obtain ⟨hindexed, -, hlone⟩ := hm.indexed.workOff_keeps next hchart hm.lone h
  exact ⟨hindexed, hlone⟩

theorem trigger (h : m.Alone fixed) (ht : m.trigger e fuel = some (m', error)) : m'.Alone fixed := by
  have hm : (m.enqueue e).Alone fixed := ⟨h.indexed, h.lone⟩
  rcases triggerEvents_cases ht with rfl | ⟨c, hchart, h⟩
  · exact hm
  · exact workOff fuel hm hchart h

end Alone
end Machine
end Statechart
