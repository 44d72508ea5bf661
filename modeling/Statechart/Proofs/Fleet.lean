import Statechart.Host.Basic
import Statechart.Proofs.WorkerFutures

/-! Fleets: hosts whose workers take no time.

    A fleet has a machine for every name, and whatever is asked of one happens at once: an event is
    worked off when it is sent, and a question is answered with what the machine then is. Where a machine
    never comes to rest, there is no machine any more but its name is still taken; it takes every event,
    and no question about it is ever answered. -/

namespace Statechart

/-- What can be asked of a host or a fleet. -/
inductive Request where
  | put (name : String) (version : Nat) (definition : Value)
  | start (id chart : String) (version : Nat)
  | send (id : String) (e : Event)
  | status (id : String)
  | snapshot (id : String)
  | stop (id : String)
  | shutdown
  | ids

/-- What is answered. A chart that is registered is answered with its checksum and whether it is new. -/
inductive Answer where
  | put (r : Except HostError (String × Bool))
  | status (r : Except HostError Status)
  | sent (r : Except HostError Unit)
  | snapshot (r : Except HostError Snapshot)
  | done
  | ids (ids : List String)

/-- Registers a definition, with its answer. -/
def Registry.enter (name : String) (version : Nat) (definition : Value) (r : Registry) :
    Except HostError (String × Bool) × Registry :=
  match r.put name version definition with
  | .error e => (.error e, r)
  | .ok (c, new, r) => (.ok (c.checksum, new), r)

/-- A registry with a machine for every name that is taken; none where it never comes to rest. -/
structure Fleet where
  settings : Settings
  registry : Registry
  machines : Dict String (Option Machine)
  supply : Supply

namespace Fleet

/-- A fleet without charts and machines. -/
def fresh (settings : Settings) (supply : Supply) : Fleet := ⟨settings, [], [], supply⟩

/-- A machine on a chart, not started. It delivers to the outside, and what it does is logged if the
    settings say so. -/
def engine (c : Chart) (f : Fleet) : Machine :=
  let m := Machine.fresh (some c) f.supply
  (if f.settings.traceTransitions then m.listen Listeners.chart .log else m).setSink .outside

/-- Asks the machine of a name. -/
def ask {α : Type} (id : String) (answer : Machine → Except HostError α) (f : Fleet) :
    Option (Except HostError α × Fleet) :=
  match Dict.get? id f.machines with
  | none => some (.error (.instanceNotFound id), f)
  | some m => m.map fun m => (answer m, f)

/-- The status of a machine. -/
def status (id : String) (f : Fleet) : Option (Except HostError Status × Fleet) :=
  f.ask id fun m => .ok (m.statusAs id)

/-- A snapshot of a machine. -/
def snapshot (id : String) (f : Fleet) : Option (Except HostError Snapshot × Fleet) :=
  f.ask id fun m => m.snapshot.mapError .machine

/-- Starts a machine on a registered chart. -/
def start (id chart : String) (version fuel : Nat) (f : Fleet) :
    Option (Except HostError Status × Fleet) :=
  match f.registry.get chart version with
  | .error e => some (.error e, f)
  | .ok c =>
    if Dict.has id f.machines then some (.error (.instanceExists id), f)
    else ((f.engine c).go fuel).map fun
      | (_, some e) => (.error (.machine e), f)
      | (m, none) => (.ok (m.statusAs id), { f with
          machines := Dict.insert id (some m) f.machines
          supply := m.session.supply })

/-- Sends a machine an event, which it works off. -/
def send (id : String) (e : Event) (fuel : Nat) (f : Fleet) : Except HostError Unit × Fleet :=
  match Dict.get? id f.machines with
  | none => (.error (.instanceNotFound id), f)
  | some m => (.ok (), { f with
      machines := Dict.insert id (m.bind fun m => (m.trigger e fuel).map Prod.fst) f.machines })

/-- Stops a machine, if it runs, and forgets it. -/
def stop (id : String) (fuel : Nat) (f : Fleet) : Option (Except HostError Status × Fleet) :=
  match Dict.get? id f.machines with
  | none => some (.error (.instanceNotFound id), f)
  | some m => (m.bind (Machine.halted fuel)).map fun m =>
      (.ok (m.statusAs id), { f with machines := Dict.erase id f.machines })

/-- Stops one machine after the other. -/
def stopEach (fuel : Nat) (ids : List String) (f : Fleet) : Option Fleet :=
  ids.foldlM (fun f id => (f.stop id fuel).map Prod.snd) f

/-- Stops every machine. -/
def shutdown (fuel : Nat) (f : Fleet) : Option Fleet := f.stopEach fuel (Dict.keys f.machines)

/-- What a fleet answers, and what becomes of it. -/
def reply (fuel : Nat) (f : Fleet) : Request → Option (Answer × Fleet)
  | .put name version definition =>
    let r := f.registry.enter name version definition
    some (.put r.1, { f with registry := r.2 })
  | .start id chart version => (f.start id chart version fuel).map fun (r, f) => (.status r, f)
  | .send id e =>
    let r := f.send id e fuel
    some (.sent r.1, r.2)
  | .status id => (f.status id).map fun (r, f) => (.status r, f)
  | .snapshot id => (f.snapshot id).map fun (r, f) => (.snapshot r, f)
  | .stop id => (f.stop id fuel).map fun (r, f) => (.status r, f)
  | .shutdown => (f.shutdown fuel).map (.done, ·)
  | .ids => some (.ids (Dict.keys f.machines), f)

/-- What a fleet answers to one request after the other. -/
def play (fuel : Nat) : List Request → Fleet → Option (List (Request × Answer) × Fleet)
  | [], f => some ([], f)
  | r :: rs, f => (f.reply fuel r).bind fun (a, f) =>
      (play fuel rs f).map fun (rest, f) => ((r, a) :: rest, f)

/-- Whether every machine comes to rest. -/
def Healthy (f : Fleet) : Prop := ∀ id, Dict.get? id f.machines ≠ some none

end Fleet

/-- What happens to a host: it is asked something, or a worker gets to some of what waits for it. -/
inductive Occasion where
  | call (r : Request)
  | work (id : String) (count : Nat)

/-- The requests among what happens to a host. -/
def Occasion.calls (occasions : List Occasion) : List Request :=
  occasions.filterMap fun
    | .call r => some r
    | .work .. => none

namespace Host

/-- What a host answers, and what becomes of it. -/
def reply (fuel : Nat) (h : Host) : Request → Option (Answer × Host)
  | .put name version definition =>
    let r := h.registry.enter name version definition
    some (.put r.1, { h with registry := r.2 })
  | .start id chart version => (h.start id chart version fuel).map fun (r, h) => (.status r, h)
  | .send id e => (h.send id e fuel).map fun (r, h) => (.sent r, h)
  | .status id => (h.status id fuel).map fun (r, h) => (.status r, h)
  | .snapshot id => (h.snapshot id fuel).map fun (r, h) => (.snapshot r, h)
  | .stop id => (h.stop id fuel).map fun (r, h) => (.status r, h)
  | .shutdown => (h.shutdown fuel).map (.done, ·)
  | .ids => some (.ids h.instanceIds, h)

/-- Lets a worker work off some of what waits for it. -/
def workSome (id : String) (count fuel : Nat) (h : Host) : Option Host :=
  match Dict.get? id h.workers with
  | none => some h
  | some w => (w.workOff 0 fuel count).map fun w' => h.update id w w'

/-- What a host answers to one request after the other, workers working meanwhile. -/
def play (fuel : Nat) : List Occasion → Host → Option (List (Request × Answer) × Host)
  | [], h => some ([], h)
  | .work id count :: rest, h => (h.workSome id count fuel).bind (play fuel rest)
  | .call r :: rest, h => (h.reply fuel r).bind fun (a, h) =>
      (play fuel rest h).map fun (rest, h) => ((r, a) :: rest, h)

end Host

/-- What is registered is compiled. -/
theorem Registry.compiles_enter {registry : Registry} {name : String} {version : Nat} {v : Value}
    (hs : ∀ name version c, registry.get name version = .ok c → c.Compiles) :
    ∀ name' version' c, (registry.enter name version v).2.get name' version' = .ok c → c.Compiles := by
  intro name' version' c hget
  unfold Registry.enter Registry.put at hget
  split at hget
  · exact hs _ _ _ hget
  rename_i hput
  split at hput
  · cases hput
  rename_i d hload
  split at hput
  · cases hput
    by_cases hsame : name' = name ∧ version' = version
    · obtain ⟨rfl, rfl⟩ := hsame
      rw [Registry.get, Registry.get?_add_self] at hget
      cases hget
      exact .of_load hload
    · rw [Registry.get, Registry.get?_add_of_ne hsame] at hget
      exact hs name' version' c hget
  · split at hput
    · cases hput
      exact hs _ _ _ hget
    · cases hput

namespace Fleet

variable {fixed : (Nat → String) × Int} {c : Chart} {k : Nat} {f f' : Fleet} {id : String}

theorem alone_engine (f : Fleet) (hc : c.Compiles) (hf : f.supply.fixed = fixed) :
    (f.engine c).Alone fixed := by
  have hl (s : Session) (hchart : s.chart = some c) : ∀ d, s.chart = some d → d.Compiles := by
    intro d hd
    rw [hchart] at hd
    cases hd
    exact hc
  unfold engine
  dsimp only
  split <;> exact ⟨.of_idle (hl _ rfl) rfl fun d => ⟨⟨Store.inside_empty, nofun, nofun⟩, nofun,
    fun _ => rfl⟩, rfl, rfl, rfl, hf⟩

/-- Asking changes nothing. -/
theorem eq_of_ask {α : Type} {answer : Machine → Except HostError α} {r : Except HostError α}
    (h : f.ask id answer = some (r, f')) : f' = f := by
  unfold ask at h
  split at h
  · cases h
    rfl
  · obtain ⟨m, -, heq⟩ := Option.map_eq_some_iff.1 h
    cases heq
    rfl

theorem healthy_of_stop {r : Except HostError Status} (h : f.stop id k = some (r, f'))
    (hf : f'.Healthy) : f.Healthy := by
  unfold stop at h
  split at h
  · cases h
    exact hf
  · rename_i m hm
    obtain ⟨m', hm', heq⟩ := Option.map_eq_some_iff.1 h
    cases heq
    intro i hi
    by_cases hid : i = id
    · subst hid
      rw [hm] at hi
      cases hi
      cases hm'
    · exact hf i ((Dict.get?_erase_of_ne hid _).trans hi)

theorem eq_of_stop {b : Except HostError Status} (h : f.stop id k = some (b, f')) :
    f' = { f with machines := Dict.erase id f.machines } := by
  unfold stop at h
  split at h
  · rename_i hm
    cases h
    rw [Dict.erase_of_not_mem (Dict.get?_eq_none_iff.1 hm)]
  · obtain ⟨m, -, heq⟩ := Option.map_eq_some_iff.1 h
    cases heq
    rfl

theorem Healthy.stop {r : Except HostError Status} (hf : f.Healthy)
    (h : f.stop id k = some (r, f')) : f'.Healthy := by
  rw [eq_of_stop h]
  intro i hi
  have hid : i ≠ id := by
    rintro rfl
    rw [Dict.get?_erase_self] at hi
    cases hi
  exact hf i ((Dict.get?_erase_of_ne hid _).symm.trans hi)

theorem stopEach_cons {ids : List String} : f.stopEach k (id :: ids) =
    ((f.stop id k).map Prod.snd).bind (Fleet.stopEach k ids) := List.foldlM_cons ..

theorem eq_of_stopEach : ∀ {ids : List String} {f : Fleet}, f.stopEach k ids = some f' →
    f' = { f with machines := f.machines.filter fun p => decide (p.1 ∉ ids) }
  | [], f, h => by
    cases h
    rw [List.filter_eq_self.2 fun _ _ => decide_eq_true List.not_mem_nil]
  | id :: ids, f, h => by
    rw [stopEach_cons] at h
    obtain ⟨f₁, h₁, h⟩ := Option.bind_eq_some_iff.1 h
    obtain ⟨r, hr, rfl⟩ := Option.map_eq_some_iff.1 h₁
    rw [eq_of_stopEach h, eq_of_stop hr, Dict.erase, List.filter_filter]
    simp only [List.mem_cons, not_or, Bool.decide_and, Bool.and_comm]

/-- Nothing is left of the machines after they have all been stopped. -/
theorem eq_of_shutdown (h : f.shutdown k = some f') : f' = { f with machines := [] } := by
  rw [eq_of_stopEach h, List.filter_eq_nil_iff.2]
  intro p hp
  have hmem : p.1 ∈ Dict.keys f.machines := List.mem_map_of_mem hp
  simpa using hmem

theorem healthy_of_stopEach : ∀ {ids : List String} {f : Fleet},
    f.stopEach k ids = some f' → f'.Healthy → f.Healthy
  | [], _, h, hf => by
    cases h
    exact hf
  | id :: ids, f, h, hf => by
    rw [stopEach_cons] at h
    obtain ⟨f₁, h₁, h⟩ := Option.bind_eq_some_iff.1 h
    obtain ⟨r, hr, rfl⟩ := Option.map_eq_some_iff.1 h₁
    exact healthy_of_stop hr (healthy_of_stopEach h hf)

/-- Putting a machine in takes none away that never comes to rest. -/
theorem healthy_of_insert {x : Option Machine} (hf : f'.Healthy)
    (hmachines : f'.machines = Dict.insert id x f.machines)
    (h : Dict.get? id f.machines = some none → x = none) : f.Healthy := by
  intro i hi
  refine hf i ?_
  rw [hmachines]
  by_cases hid : i = id
  · subst hid
    rw [Dict.get?_insert_self, h hi]
  · exact (Dict.get?_insert_of_ne hid _ _).trans hi

theorem healthy_of_start {chart : String} {version : Nat} {r : Except HostError Status}
    (h : f.start id chart version k = some (r, f')) (hf : f'.Healthy) : f.Healthy := by
  unfold Fleet.start at h
  split at h
  · cases h
    exact hf
  split at h
  · cases h
    exact hf
  · rename_i hnew
    obtain ⟨⟨m, error⟩, -, heq⟩ := Option.map_eq_some_iff.1 h
    cases error with
    | some e =>
      cases heq
      exact hf
    | none =>
      cases heq
      refine healthy_of_insert hf rfl fun hid => absurd ?_ hnew
      rw [Dict.has, hid]
      rfl

theorem healthy_of_send {e : Event} (hf : (f.send id e k).2.Healthy) : f.Healthy := by
  unfold Fleet.send at hf
  split at hf
  · exact hf
  · rename_i m hm
    refine healthy_of_insert hf rfl fun hid => ?_
    rw [hm] at hid
    cases hid
    rfl

/-- What a request comes to that is answered. -/
inductive Replied (k : Nat) (f : Fleet) : Request → Answer → Fleet → Prop where
  | put (name : String) (version : Nat) (v : Value) :
    Replied k f (.put name version v) (.put (f.registry.enter name version v).1)
      { f with registry := (f.registry.enter name version v).2 }
  | start {id chart : String} {version : Nat} {b : Except HostError Status} {f' : Fleet}
      (h : f.start id chart version k = some (b, f')) :
    Replied k f (.start id chart version) (.status b) f'
  | send (id : String) (e : Event) :
    Replied k f (.send id e) (.sent (f.send id e k).1) (f.send id e k).2
  | status {id : String} {b : Except HostError Status} {f' : Fleet}
      (h : f.status id = some (b, f')) : Replied k f (.status id) (.status b) f'
  | snapshot {id : String} {b : Except HostError Snapshot} {f' : Fleet}
      (h : f.snapshot id = some (b, f')) : Replied k f (.snapshot id) (.snapshot b) f'
  | stop {id : String} {b : Except HostError Status} {f' : Fleet}
      (h : f.stop id k = some (b, f')) : Replied k f (.stop id) (.status b) f'
  | shutdown {f' : Fleet} (h : f.shutdown k = some f') : Replied k f .shutdown .done f'
  | ids : Replied k f .ids (.ids (Dict.keys f.machines)) f

theorem replied_of_reply {r : Request} {a : Answer} (h : f.reply k r = some (a, f')) :
    Replied k f r a f' := by
  cases r with
  | put name version v =>
    cases h
    exact .put name version v
  | send id e =>
    cases h
    exact .send id e
  | ids =>
    cases h
    exact .ids
  | start id chart version =>
    obtain ⟨⟨b, f₁⟩, h, heq⟩ := Option.map_eq_some_iff.1 h
    cases heq
    exact .start h
  | status id =>
    obtain ⟨⟨b, f₁⟩, h, heq⟩ := Option.map_eq_some_iff.1 h
    cases heq
    exact .status h
  | snapshot id =>
    obtain ⟨⟨b, f₁⟩, h, heq⟩ := Option.map_eq_some_iff.1 h
    cases heq
    exact .snapshot h
  | stop id =>
    obtain ⟨⟨b, f₁⟩, h, heq⟩ := Option.map_eq_some_iff.1 h
    cases heq
    exact .stop h
  | shutdown =>
    obtain ⟨f₁, h, heq⟩ := Option.map_eq_some_iff.1 h
    cases heq
    exact .shutdown h

/-- A machine that never comes to rest is there for ever. -/
theorem healthy_of_reply {r : Request} {a : Answer} (h : f.reply k r = some (a, f'))
    (hf : f'.Healthy) : f.Healthy := by
  cases replied_of_reply h with
  | put | ids => exact hf
  | start h => exact healthy_of_start h hf
  | send => exact healthy_of_send hf
  | status h | snapshot h => exact eq_of_ask h ▸ hf
  | stop h => exact healthy_of_stop h hf
  | shutdown h => exact healthy_of_stopEach h hf

theorem healthy_of_play : ∀ {rs : List Request} {f : Fleet} {as : List (Request × Answer)},
    f.play k rs = some (as, f') → f'.Healthy → f.Healthy
  | [], _, _, h, hf => by
    cases h
    exact hf
  | r :: rs, f, as, h, hf => by
    obtain ⟨⟨a, f₁⟩, h₁, h⟩ := Option.bind_eq_some_iff.1 h
    obtain ⟨⟨rest, f₂⟩, h₂, heq⟩ := Option.map_eq_some_iff.1 h
    cases heq
    exact healthy_of_reply h₁ (healthy_of_play h₂ hf)

end Fleet
end Statechart
