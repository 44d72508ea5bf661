import Statechart.Proofs.Handover
import Statechart.Proofs.ProcessesAtRest
import Statechart.Proofs.Stopped

/-! Processes that an event reports complete.

    The name of the event names the process that is complete, and may go on past a dot to say more about
    it. Names of processes may have dots themselves, so the same event can be taken for a report of
    several: it ends the process that it names, and all those whose names that name goes on from. -/

namespace Statechart

open Chart

/-- Whether one dotted name is another one, or goes on from it past a dot. -/
def GoesOn (start name : String) : Prop := name = start ∨ ∃ more, name = start ++ "." ++ more

/-- An event reports a process complete if what it names is that process, or goes on from it. -/
theorem Trigger.reportsCompletion_iff {id named : String} :
    reportsCompletion id ("done.invoke." ++ named) = true ↔ GoesOn id named := by
  have hdrop : Text.dropPrefix? "done.invoke.".toList ("done.invoke." ++ named).toList =
      some named.toList := Text.dropPrefix?_eq_some_iff.2 String.toList_append
  rw [reportsCompletion, hdrop]
  simp only [Text.continuesPastDot_iff, GoesOn]
  refine or_congr String.toList_inj
    ⟨fun ⟨more, h⟩ => ⟨.ofList more, ?_⟩, fun ⟨more, h⟩ => ⟨more.toList, ?_⟩⟩
  · rw [← String.toList_inj, h]
    simp
  · rw [h]
    simp

namespace Session

variable {c : Chart} {s : Session} {e : Event} {live : Dict InvokeId Process} {i j : InvokeId}
  {p : Process}

/-- Those that an event ends are the processes that run which it reports complete. -/
theorem mem_completed (hd : (Dict.keys live).Nodup) : j ∈ completed e live ↔
    ∃ q, Dict.get? j live = some q ∧ Trigger.reportsCompletion q.id e.name = true := by
  simp only [completed, Dict.keys, List.mem_map, List.mem_filter]
  constructor
  · rintro ⟨⟨j, q⟩, ⟨hmem, hq⟩, rfl⟩
    exact ⟨q, Dict.get?_of_mem hd hmem, hq⟩
  · rintro ⟨q, hget, hq⟩
    exact ⟨(j, q), ⟨Dict.mem_of_get? hget, hq⟩, rfl⟩

/-- An event ends processes in the order of their declarations. -/
theorem ordered_completed (h : s.InOrder) : (completed e s.live).Pairwise (· < ·) :=
  h.sublist (List.filter_sublist.map _)

/-- Takes the transitions for an event that processes have been told of, and goes on. -/
def goOn (c : Chart) (fuel : Nat) (e : Event) (s : Session) : Option Session :=
  (match s.select c (some e.name) with
    | ([], t) => some t
    | (ts, t) => t.takeAndSettle c fuel (some e) ts).map (finalStep c)

/-- Working off an event that does not stop the session begins with telling the processes. -/
theorem nextOwn_of_running (hchart : s.chart = some c) (hr : s.running = true)
    (he : e.isCancel = false) (fuel : Nat) :
    s.nextOwn fuel e = ((s.answer c e).goOn c fuel e).map (·, none) := by
  have hstep : s.nextStep c fuel e = (s.answer c e).goOn c fuel e := by
    rw [nextStep, if_pos hr, he]
    rfl
  rw [nextOwn, if_pos hr, onChart, hchart]
  exact congrArg (Option.map (·, none)) hstep

end Session

namespace Machine

open Session

variable {c : Chart} {m : Machine} {i : InvokeId} {p : Process} {e : Event}

/-- An event that reports the process of a declaration complete ends that process, once its final
    content has run, and so it does with each that runs under a name that this one's goes on from, in the
    order of their declarations; with no other. So it ends the one alone if no other is named like that.
    Then transitions are selected. A machine with a process runs, unless it was given a snapshot with
    histories that no run leaves. -/
theorem ends_reported (h : Handled m) (hchart : m.session.chart = some c)
    (hp : Dict.get? i m.session.live = some p) (hname : e.name = "done.invoke." ++ p.id)
    (he : e.isCancel = false) : (Used m → m.running = true) ∧ (m.running = true →
      let s := m.session
      let t := s.answer c e
      ∃ ended : List InvokeId, ended.Pairwise (· < ·) ∧ i ∈ ended ∧
        (∀ j, j ∈ ended ↔ ∃ q, Dict.get? j s.live = some q ∧ GoesOn q.id p.id) ∧
        ((∀ j q, Dict.get? j s.live = some q → GoesOn q.id p.id → j = i) → ended = [i]) ∧
        t.live = Dict.eraseAll ended s.live ∧
        Shows c ⟨s.store.active c, s.live, none, false⟩ s
          (ended.map fun j => .ran (some (c.invoke j).owner) (c.invoke j).finalize)
          ⟨s.store.active c, t.live, none, false⟩ t ∧
        ∀ fuel, s.nextOwn fuel e = (t.goOn c fuel e).map (·, none)) := by
  have horder := h.atRest.inOrder
  have hmem (j : InvokeId) : j ∈ completed e m.session.live ↔
      ∃ q, Dict.get? j m.session.live = some q ∧ GoesOn q.id p.id := by
    simp only [mem_completed horder.distinct, hname, Trigger.reportsCompletion_iff]
  have hself : i ∈ completed e m.session.live := (hmem i).2 ⟨p, hp, .inl rfl⟩
  have hshows := shows_told (c := c) (s := m.session)
    (x := ⟨m.session.store.active c, m.session.live, none, false⟩) rfl rfl horder.distinct e
  constructor
  · intro hu
    cases hr : m.running with
    | true => rfl
    | false =>
      rw [hu.housed.standing.stopped hr] at hp
      cases hp
  · intro hr
    refine ⟨completed e m.session.live, ordered_completed horder, hself, hmem, fun hone => ?_,
      hshows.live.symm, hshows.live ▸ hshows, nextOwn_of_running hchart hr he⟩
    refine NodeSet.eq_singleton (NodeSet.nodup_of_pairwise (ordered_completed horder)) hself
      fun j hj => ?_
    obtain ⟨q, hq, hgoes⟩ := (hmem j).1 hj
    exact hone j q hq hgoes

/-- A place in a kitchen where something is made, with what is said when it is done. -/
def place (id dish done : String) : Value :=
  .object [("id", .string id), ("invoke", .array [.object [
    ("finalize", .array [.object [("type", .string "log"), ("label", .string done)]]),
    ("id", .string dish), ("type", .string "timer"), ("src", .string "clock")]])]

/-- A kitchen in which a cake, its icing and tea are made at the same time. -/
def kitchen : Value :=
  .object [("states", .array [.object [("id", .string "Kitchen"), ("kind", .string "parallel"),
    ("states", .array [place "Oven" "cake" "cake out", place "Bowl" "cake.icing" "icing on",
      place "Stove" "tea" "tea up"])]])]

/-- The chart of the kitchen. -/
def kitchenChart : Chart := (Chart.load "kitchen" 1 kitchen).toOption.get (by decide +kernel)

theorem load_kitchen : Chart.load "kitchen" 1 kitchen = .ok kitchenChart := load_eq_ok _

/-- The kitchen before anyone is in it. -/
def newKitchen : Machine :=
  let m : Machine := .fresh (some kitchenChart) (.ofSeed 0 0)
  { m with session := m.session.equip m.session.chart [("timer", timer)] [] m.session.sink [] }

/-- The kitchen at work. -/
def busyKitchen : Machine := ((newKitchen.go 10).map Prod.fst).get (by decide +kernel)

theorem handled_busyKitchen : Handled busyKitchen ∧ busyKitchen.session.chart = some kitchenChart := by
  have hnew : Handled newKitchen :=
    .furnished (.of_load load_kitchen) (.ofSeed 0 0) [("timer", timer)] [] .own
  have hgo : newKitchen.ask 10 .go = some busyKitchen := (Option.some_get _).symm
  refine ⟨hnew.ask .go nofun hgo, ?_⟩
  obtain ⟨⟨m, error⟩, h, heq⟩ := Option.map_eq_some_iff.1 hgo
  exact heq ▸ chart_go (wellFormed_of_load load_kitchen) rfl h

theorem live_busyKitchen : (busyKitchen.session.live.map fun e => (e.1, e.2.id)) =
    [(0, "cake"), (1, "cake.icing"), (2, "tea")] := by decide +kernel

/-- When the tea is up it is made no more, and cake and icing still are. -/
theorem ends_tea : busyKitchen.running = true ∧
    ∃ p, Dict.get? 2 busyKitchen.session.live = some p ∧ p.id = "tea" ∧
      let t := busyKitchen.session.answer kitchenChart (.signal "done.invoke.tea")
      t.live = Dict.erase 2 busyKitchen.session.live ∧
      ∃ x y, Shows kitchenChart x busyKitchen.session [.ran (some 3) [.log (some "tea up") none]] y t := by
  obtain ⟨hm, hchart⟩ := handled_busyKitchen
  have hr : busyKitchen.running = true := by decide +kernel
  have htea : (Dict.get? 2 busyKitchen.session.live).map Process.id = some "tea" := by decide +kernel
  obtain ⟨p, hp, hid⟩ := Option.map_eq_some_iff.1 htea
  obtain ⟨-, h⟩ := ends_reported (e := .signal "done.invoke.tea") hm hchart hp (by rw [hid]; rfl) rfl
  obtain ⟨ended, -, -, -, hone, hlive, hshows, -⟩ := h hr
  have hended : ended = [2] := by
    refine hone fun j q hq hgoes => ?_
    have hmem : (j, q.id) ∈ busyKitchen.session.live.map fun e => (e.1, e.2.id) :=
      List.mem_map_of_mem (Dict.mem_of_get? hq)
    rw [live_busyKitchen] at hmem
    rw [hid, ← Trigger.reportsCompletion_iff] at hgoes
    have hnot {id : String} (hq : q.id = id)
        (hid : Trigger.reportsCompletion id ("done.invoke." ++ "tea") = false) : j = 2 := by
      rw [hq, hid] at hgoes
      cases hgoes
    simp only [List.mem_cons, Prod.mk.injEq, List.not_mem_nil, or_false] at hmem
    obtain ⟨-, hq⟩ | ⟨-, hq⟩ | ⟨rfl, -⟩ := hmem
    · exact hnot hq (by decide)
    · exact hnot hq (by decide)
    · rfl
  have howner : (kitchenChart.invoke 2).owner = 3 := by decide +kernel
  have hfinal : (kitchenChart.invoke 2).finalize = [.log (some "tea up") none] := by decide +kernel
  rw [hended, Dict.eraseAll_singleton] at hlive
  rw [hended, List.map_cons, List.map_nil, howner, hfinal] at hshows
  exact ⟨hr, p, hp, hid, hlive, _, _, hshows⟩

/-- The icing is of a cake, so a cake with its icing done is taken for one that is done itself. -/
theorem ends_cake : Handled busyKitchen ∧ busyKitchen.running = true ∧
    busyKitchen.processNames = ["cake", "cake.icing", "tea"] ∧
    (busyKitchen.feed 10 [.signal "done.invoke.cake.icing"]).map
        (fun m => (m.processNames, labels m.session)) =
      some (["tea"], [some "cake out", some "icing on"]) :=
  ⟨handled_busyKitchen.1, by decide +kernel, by decide +kernel, by decide +kernel⟩

end Machine
end Statechart
