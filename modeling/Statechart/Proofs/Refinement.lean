import Statechart.Proofs.Fleet
import Statechart.Proofs.WorkerScheduling

/-! A host answers like a fleet.

    What a host will answer is decided by what becomes of its workers, and that is a fleet. Workers that
    work leave the fleet as it is, and each request to a host does to its fleet what the same request
    does to the fleet. So the answers are the same, whenever workers get to what waits for them. -/

namespace Statechart

namespace Dict

variable {κ α β : Type} [DecidableEq κ] {k : κ} {f : α → β} {d : Dict κ α}

/-- The map with every value in place of another. -/
def mapValues (f : α → β) (d : Dict κ α) : Dict κ β := d.map fun p => (p.1, f p.2)

omit [DecidableEq κ] in
@[simp] theorem keys_mapValues : keys (d.mapValues f) = keys d := by
  rw [keys, mapValues, List.map_map]
  rfl

theorem get?_mapValues : get? k (d.mapValues f) = (get? k d).map f := by
  induction d with
  | nil => rfl
  | cons p d ih =>
    rw [mapValues, List.map_cons, get?, get?]
    split
    · rfl
    · exact ih

theorem mapValues_insert [LT κ] [DecidableLT κ] {a : α} :
    (insert k a d).mapValues f = insert k (f a) (d.mapValues f) := by
  induction d with
  | nil => rfl
  | cons p d ih =>
    obtain ⟨k', b⟩ := p
    rw [insert, mapValues, mapValues, List.map_cons, insert]
    split
    · rfl
    · split
      · rfl
      · exact congrArg ((k', f b) :: ·) ih

theorem keys_erase : keys (erase k d) = (keys d).filter fun i => decide (i ≠ k) := by
  rw [keys, erase, keys, List.filter_map]
  rfl

end Dict

namespace Host

variable {α : Type} {fixed : (Nat → String) × Int} {n k L : Nat} {h h' h₁ : Host} {f : Fleet}
  {id : String} {w w' : Worker}

/-- What becomes of every worker. -/
def futures (k : Nat) (h : Host) : Dict String (Option Machine) :=
  Dict.mapValues (Worker.future k) h.workers

/-- The fleet that a host stands for. -/
def fleet (k : Nat) (h : Host) : Fleet := ⟨h.settings, h.registry, h.futures k, h.supply⟩

/-- Whether every worker works under its name, with a machine that has no processes, those that are ready
    are there, once each, and every chart is one that a definition compiles to. -/
structure Sound (fixed : (Nat → String) × Int) (h : Host) : Prop where
  sorted : (Dict.keys h.workers).Pairwise (· < ·)
  workers : ∀ i w, Dict.get? i h.workers = some w → w.Sound fixed i
  ready : h.ready.Nodup
  known : ∀ i ∈ h.ready, i ∈ Dict.keys h.workers
  compiles : ∀ name version c, h.registry.get name version = .ok c → c.Compiles
  fixed_eq : h.supply.fixed = fixed

/-- Whether nowhere more waits than so much. -/
def Backlog (L : Nat) (h : Host) : Prop :=
  ∀ i w, Dict.get? i h.workers = some w → w.waiting.length ≤ L

theorem Backlog.mono {L' : Nat} (hb : h.Backlog L) (hle : L ≤ L') : h.Backlog L' :=
  fun i w hw => Nat.le_trans (hb i w hw) hle

theorem get?_futures (hw : Dict.get? id h.workers = some w) :
    Dict.get? id (h.futures k) = some (w.future k) := by
  rw [futures, Dict.get?_mapValues, hw]
  rfl

theorem get?_futures_of_none (hw : Dict.get? id h.workers = none) :
    Dict.get? id (h.futures k) = none := by
  rw [futures, Dict.get?_mapValues, hw]
  rfl

theorem isSome_future (hh : (h.fleet k).Healthy) (hw : Dict.get? id h.workers = some w) :
    (w.future k).isSome = true := by
  cases hf : w.future k with
  | some m => rfl
  | none => exact absurd ((get?_futures hw).trans (congrArg some hf)) (hh id)

namespace Sound

theorem fit (hs : h.Sound fixed) (hk : n ≤ k ∨ (h.fleet k).Healthy) :
    ∀ i w, Dict.get? i h.workers = some w → w.Fit fixed n k := fun i w hw =>
  ⟨(hs.workers i w hw).alone, hk.imp_right fun hh => isSome_future hh hw⟩

theorem prompt (hs : h.Sound fixed) (hh : (h.fleet k).Healthy) (hb : h.Backlog L) (hlt : k + L < n) :
    ∀ i w, Dict.get? i h.workers = some w → w.Prompt fixed n k := fun i w hw =>
  ⟨(hs.workers i w hw).alone, isSome_future hh hw, by have := hb i w hw; omega⟩

end Sound

/-! ### One worker changes -/

section Changes

variable {p : String → Prop}

/-- What becomes of a worker that has only worked since. -/
theorem Later.futures (hl : h.Later p k h') (hp : p id) :
    Dict.get? id (h'.futures k) = Dict.get? id (h.futures k) := by
  cases hw' : Dict.get? id h'.workers with
  | some w' =>
    obtain ⟨w, hw, hlater⟩ := hl.workers id w' hp hw'
    rw [get?_futures hw', get?_futures hw, hlater.future]
  | none =>
    have hnot : id ∉ Dict.keys h.workers := fun hm => by
      obtain ⟨w', hw⟩ := Dict.exists_of_mem_keys (hl.keys.symm ▸ hm)
      rw [hw'] at hw
      cases hw
    rw [get?_futures_of_none hw', get?_futures_of_none (Dict.get?_eq_none_iff.2 hnot)]

theorem Later.keys_futures (hl : h.Later p k h') :
    Dict.keys (h'.futures k) = Dict.keys (h.futures k) := by
  rw [Host.futures, Host.futures, Dict.keys_mapValues, Dict.keys_mapValues, hl.keys]

theorem sorted_futures (hs : (Dict.keys h.workers).Pairwise (· < ·)) :
    (Dict.keys (h.futures k)).Pairwise (· < ·) := by
  rw [Host.futures, Dict.keys_mapValues]
  exact hs

/-- A host whose workers have only worked stands for the same fleet. -/
theorem Later.fleet (hl : h.Later (fun _ => True) k h')
    (hs : (Dict.keys h.workers).Pairwise (· < ·)) : h'.fleet k = h.fleet k := by
  have hfutures : h'.futures k = h.futures k := Dict.ext_of_keys hl.keys_futures
    (Dict.nodup_of_sorted (sorted_futures (hl.sorted hs))) fun i => hl.futures trivial
  rw [Host.fleet, Host.fleet, hl.settings, hl.registry, hl.supply, hfutures]

theorem Later.everywhere (hl : h.Later (· ≠ id) k h') (hw : Dict.get? id h.workers = some w)
    (hw' : Dict.get? id h'.workers = some w') (hlater : w.Later k w') :
    h.Later (fun _ => True) k h' where
  settings := hl.settings
  registry := hl.registry
  supply := hl.supply
  keys := hl.keys
  workers i u _ hu := by
    by_cases hi : i = id
    · subst hi
      rw [hw'] at hu
      cases hu
      exact ⟨w, hw, hlater⟩
    · exact hl.workers i u hi hu

theorem Later.futures_eq_insert (hl : h.Later (· ≠ id) k h')
    (hs : (Dict.keys h.workers).Pairwise (· < ·)) (hw' : Dict.get? id h'.workers = some w') :
    h'.futures k = Dict.insert id (w'.future k) (h.futures k) := by
  have hmem : id ∈ Dict.keys (h.futures k) := hl.keys_futures ▸ Dict.mem_keys_of_get? (get?_futures hw')
  refine Dict.ext_of_keys ?_ (Dict.nodup_of_sorted (sorted_futures (hl.sorted hs))) fun i => ?_
  · rw [Dict.keys_insert_of_mem (fun _ _ => String.lt_asymm) (sorted_futures hs) hmem, hl.keys_futures]
  · by_cases hi : i = id
    · subst hi
      rw [Dict.get?_insert_self, get?_futures hw']
    · rw [Dict.get?_insert_of_ne hi, hl.futures hi]

/-- All others have only worked, and one is sound. -/
theorem Sound.later (hs : h.Sound fixed) (hl : h.Later (· ≠ id) k h')
    (hw' : Dict.get? id h'.workers = some w') (hsound : w'.Sound fixed id) (hn : h'.ready.Nodup)
    (hknown : ∀ i ∈ h'.ready, i ∈ Dict.keys h'.workers) : h'.Sound fixed where
  sorted := hl.sorted hs.sorted
  workers i u hu := by
    by_cases hi : i = id
    · subst hi
      rw [hw'] at hu
      cases hu
      exact hsound
    · obtain ⟨v, hv, hlater⟩ := hl.workers i u hi hu
      exact hlater.sound (hs.workers i v hv)
  ready := hn
  known := hknown
  compiles := hl.registry.symm ▸ hs.compiles
  fixed_eq := hl.supply.symm ▸ hs.fixed_eq

theorem Backlog.later (hb : h.Backlog L) (hl : h.Later (· ≠ id) k h')
    (hw' : Dict.get? id h'.workers = some w') (hle : w'.waiting.length ≤ L) : h'.Backlog L := by
  intro i u hu
  by_cases hi : i = id
  · subst hi
    rw [hw'] at hu
    cases hu
    exact hle
  · obtain ⟨v, hv, hlater⟩ := hl.workers i u hi hu
    exact Nat.le_trans hlater.waiting (hb i v hv)

end Changes

/-- Whether a host stands for a fleet after a request, is sound as before, and nowhere more than so many
    events wait in addition. -/
structure Stands (fixed : (Nat → String) × Int) (k more : Nat) (h : Host) (f : Fleet) (h' : Host) :
    Prop where
  sound : h'.Sound fixed
  fleet : h'.fleet k = f
  backlog : ∀ L, h.Backlog L → h'.Backlog (L + more)

theorem Stands.refl (hs : h.Sound fixed) : Stands fixed k 0 h (h.fleet k) h :=
  ⟨hs, rfl, fun _ hb => hb⟩

theorem Stands.add_one (hs : Stands fixed k 0 h f h') : Stands fixed k 1 h f h' :=
  ⟨hs.sound, hs.fleet, fun L hb => (hs.backlog L hb).mono (Nat.le_succ L)⟩

/-! ### Looking at a machine -/

section Looking

variable {answer : Worker → Except HostError α} {look : Machine → Except HostError α}
  {r : Except HostError α}

theorem look_spec (hs : h.Sound fixed) (hk : n ≤ k ∨ (h.fleet k).Healthy)
    (hlook : ∀ w m, Worker.Sound fixed id w → answer (w.settled m) = look m)
    (ha : h.ask id (Worker.ask (fun w => some (answer w, w)) n) n = some (r, h')) :
    (h.fleet k).ask id look = some (r, h.fleet k) ∧ Stands fixed k 0 h (h.fleet k) h' := by
  cases hw : Dict.get? id h.workers with
  | none =>
    rw [ask, hw] at ha
    cases ha
    refine ⟨?_, .refl hs⟩
    rw [Fleet.ask, show Dict.get? id (h.fleet k).machines = _ from get?_futures_of_none hw]
  | some w =>
    have hsound := hs.workers id w hw
    obtain ⟨u, w', hlater, hq, hw', hl, hr⟩ := ask_spec hs.sorted hs.ready (hs.fit hk) hw ha
    obtain ⟨m, hm, rfl, rfl⟩ := Worker.look_spec (hlater.sound hsound) hq
    have hm : u.future k = some m := Worker.future_eq hm (hlater.fit (hs.fit hk id w hw)).2
    have hsettled : w.Later k (u.settled m) := hlater.trans (Worker.later_settled hm)
    have hall := hl.everywhere hw hw' hsettled
    refine ⟨?_, ⟨hs.later hl hw' (hsettled.sound hsound) (hr ▸ List.nodup_nil) (by simp [hr]),
      hall.fleet hs.sorted, fun L hb => ?_⟩⟩
    · rw [Fleet.ask, show Dict.get? id (h.fleet k).machines = _ from get?_futures hw]
      rw [← hlater.future, hm, hlook u m (hlater.sound hsound)]
      rfl
    · exact hb.later hl hw' (Nat.zero_le _)

theorem isSome_look (hs : h.Sound fixed) (hh : (h.fleet k).Healthy) (hb : h.Backlog L)
    (hlt : k + L < n) : (h.ask id (Worker.ask (fun w => some (answer w, w)) n) n).isSome = true := by
  cases hw : Dict.get? id h.workers with
  | none =>
    rw [ask, hw]
    rfl
  | some w =>
    refine isSome_ask hs.sorted hs.ready (hs.prompt hh hb hlt) hw fun u hlater => ?_
    obtain ⟨-, hfuture, hle⟩ := hlater.prompt (hs.prompt hh hb hlt id w hw)
    obtain ⟨m, hm⟩ := Option.isSome_iff_exists.1 hfuture
    rw [Worker.look_of_future (hlater.sound (hs.workers id w hw)) answer hm hle]
    rfl

end Looking

theorem status_spec {r : Except HostError Status} (hs : h.Sound fixed)
    (hk : n ≤ k ∨ (h.fleet k).Healthy) (ha : h.status id n = some (r, h')) :
    (h.fleet k).status id = some (r, h.fleet k) ∧ Stands fixed k 0 h (h.fleet k) h' :=
  look_spec hs hk (fun _ _ hw => congrArg _ (Worker.status_settled hw)) ha

theorem snapshot_spec {r : Except HostError Snapshot} (hs : h.Sound fixed)
    (hk : n ≤ k ∨ (h.fleet k).Healthy) (ha : h.snapshot id n = some (r, h')) :
    (h.fleet k).snapshot id = some (r, h.fleet k) ∧ Stands fixed k 0 h (h.fleet k) h' :=
  look_spec hs hk (fun _ _ _ => rfl) ha

/-! ### Sending -/

theorem send_stands {e : Event} {r : Except HostError Unit} (hs : h.Sound fixed)
    (hk : n ≤ k ∨ (h.fleet k).Healthy) (ha : h.send id e n = some (r, h')) :
    ((h.fleet k).send id e k).1 = r ∧ Stands fixed k 1 h ((h.fleet k).send id e k).2 h' := by
  cases hw : Dict.get? id h.workers with
  | none =>
    rw [send, hw] at ha
    cases ha
    rw [Fleet.send, show Dict.get? id (h.fleet k).machines = _ from get?_futures_of_none hw]
    exact ⟨rfl, (Stands.refl hs).add_one⟩
  | some w =>
    have hsound := hs.workers id w hw
    obtain ⟨rfl, u, hlater, hw', hl, hn, hknown⟩ :=
      send_spec hs.sorted hs.ready (hs.fit hk) hw hsound ha
    have hkeys : ∀ i ∈ h'.ready, i ∈ Dict.keys h'.workers := fun i hi => by
      rw [hl.keys]
      exact (hknown i hi).elim (hs.known i) fun he => he ▸ Dict.mem_keys_of_get? hw
    have hu := hlater.sound hsound
    rw [Fleet.send, show Dict.get? id (h.fleet k).machines = _ from get?_futures hw]
    refine ⟨rfl, hs.later hl hw' ⟨hu.name, hu.open_, hu.alone⟩ hn hkeys, ?_, fun L hb => ?_⟩
    · rw [fleet, hl.futures_eq_insert hs.sorted hw', Worker.future_told, hlater.future, hl.settings,
        hl.registry, hl.supply]
      rfl
    · refine (hb.mono (Nat.le_succ L)).later hl hw' ?_
      have hle := Nat.le_trans hlater.waiting (hb id w hw)
      rw [Worker.told, EventQueue.push, List.length_append, List.length_singleton]
      exact Nat.succ_le_succ hle

theorem isSome_sent {e : Event} (hs : h.Sound fixed) (hh : (h.fleet k).Healthy) (hb : h.Backlog L)
    (hlt : k + L < n) : (h.send id e n).isSome = true := by
  cases hw : Dict.get? id h.workers with
  | none =>
    rw [send, hw]
    rfl
  | some w => exact isSome_send hs.sorted hs.ready (hs.prompt hh hb hlt) hw (hs.workers id w hw)

/-! ### Stopping -/

/-- What is left when a worker is let go that was there. -/
theorem stands_erase (hs : h.Sound fixed) (hl : h.Later (· ≠ id) k h') (hr : h'.ready = []) :
    Stands fixed k 0 h { h.fleet k with machines := Dict.erase id (h.futures k) }
      { h' with workers := Dict.erase id h'.workers } := by
  have hget (i : String) (w : Worker) (hw : Dict.get? i (Dict.erase id h'.workers) = some w) :
      i ≠ id ∧ Dict.get? i h'.workers = some w := by
    have hi : i ≠ id := by
      rintro rfl
      rw [Dict.get?_erase_self] at hw
      cases hw
    exact ⟨hi, (Dict.get?_erase_of_ne hi _).symm.trans hw⟩
  have hsorted := (hl.sorted hs.sorted).sublist (List.filter_sublist (p := fun i => decide (i ≠ id)))
  rw [← Dict.keys_erase] at hsorted
  refine ⟨⟨hsorted, fun i w hw => ?_, hr ▸ List.nodup_nil, by simp [hr], hl.registry.symm ▸ hs.compiles,
    hl.supply.symm ▸ hs.fixed_eq⟩, ?_, fun L hb i w hw => ?_⟩
  · obtain ⟨hi, hw⟩ := hget i w hw
    obtain ⟨v, hv, hlater⟩ := hl.workers i w hi hw
    exact hlater.sound (hs.workers i v hv)
  · have hkeys : Dict.keys (Host.futures k { h' with workers := Dict.erase id h'.workers }) =
        Dict.keys (Dict.erase id (h.futures k)) := by
      rw [futures, Dict.keys_mapValues, Dict.keys_erase, Dict.keys_erase, hl.keys, futures,
        Dict.keys_mapValues]
    have hfutures : Host.futures k { h' with workers := Dict.erase id h'.workers } =
        Dict.erase id (h.futures k) := by
      refine Dict.ext_of_keys hkeys (Dict.nodup_of_sorted ?_) fun i => ?_
      · exact sorted_futures (h := { h' with workers := Dict.erase id h'.workers }) hsorted
      · rw [futures, Dict.get?_mapValues]
        by_cases hi : i = id
        · rw [hi, Dict.get?_erase_self, Dict.get?_erase_self]
          rfl
        · rw [Dict.get?_erase_of_ne hi, Dict.get?_erase_of_ne hi, ← hl.futures hi, futures,
            Dict.get?_mapValues]
    rw [fleet, hfutures, hl.settings, hl.registry, hl.supply]
    rfl
  · obtain ⟨hi, hw⟩ := hget i w hw
    obtain ⟨v, hv, hlater⟩ := hl.workers i w hi hw
    exact Nat.le_trans hlater.waiting (hb i v hv)

theorem stop_stands {r : Except HostError Status} (hs : h.Sound fixed)
    (hk : n ≤ k ∨ (h.fleet k).Healthy ∧ ((h.fleet k).stop id k).isSome = true)
    (ha : h.stop id n = some (r, h')) :
    ∃ f, (h.fleet k).stop id k = some (r, f) ∧ Stands fixed k 0 h f h' := by
  unfold Host.stop at ha
  obtain ⟨⟨r₁, h₁⟩, ha₁, heq⟩ := Option.map_eq_some_iff.1 ha
  cases heq
  rw [Fleet.stop] at hk ⊢
  cases hw : Dict.get? id h.workers with
  | none =>
    rw [ask, hw] at ha₁
    cases ha₁
    rw [show Dict.get? id (h.fleet k).machines = _ from get?_futures_of_none hw,
      Dict.erase_of_not_mem (Dict.get?_eq_none_iff.1 hw)]
    exact ⟨_, rfl, .refl hs⟩
  | some w =>
    have hsound := hs.workers id w hw
    have hfit := hs.fit (hk.imp_right And.left)
    obtain ⟨u, w', hlater, hq, hw', hl, hr⟩ := ask_spec hs.sorted hs.ready hfit hw ha₁
    obtain ⟨m, m', hm, hhalted, rfl⟩ := Worker.shutdown_spec (hlater.sound hsound) hq
    have hm : w.future k = some m :=
      hlater.future ▸ Worker.future_eq hm (hlater.fit (hfit id w hw)).2
    rw [show Dict.get? id (h.fleet k).machines = _ from get?_futures hw, hm] at hk ⊢
    have hhalted : m.halted k = some m' := lasting (fun hle => Machine.halted_of_le hle) hhalted
      (hk.imp_right fun hk => by simpa using hk.2)
    dsimp only [Option.bind_some]
    rw [hhalted]
    exact ⟨_, rfl, stands_erase hs hl hr⟩

theorem isSome_stop (hs : h.Sound fixed) (hh : (h.fleet k).Healthy)
    (hf : ((h.fleet k).stop id k).isSome = true) (hb : h.Backlog L) (hlt : k + L < n) :
    (h.stop id n).isSome = true := by
  rw [stop, Option.isSome_map]
  cases hw : Dict.get? id h.workers with
  | none =>
    rw [ask, hw]
    rfl
  | some w =>
    refine isSome_ask hs.sorted hs.ready (hs.prompt hh hb hlt) hw fun u hlater => ?_
    obtain ⟨-, hfuture, hle⟩ := hlater.prompt (hs.prompt hh hb hlt id w hw)
    obtain ⟨m, hm⟩ := Option.isSome_iff_exists.1 hfuture
    rw [Fleet.stop, show Dict.get? id (h.fleet k).machines = _ from get?_futures hw,
      ← hlater.future, hm] at hf
    obtain ⟨m', hm'⟩ := Option.isSome_iff_exists.1 (by simpa using hf : (m.halted k).isSome = true)
    refine Worker.isSome_shutdown (hlater.sound (hs.workers id w hw)) hm ?_ hle
    rw [Machine.halted_of_le (by omega) hm']
    rfl

/-- Stops one machine after the other. -/
def stopEach (n : Nat) (ids : List String) (h : Host) : Option Host :=
  ids.foldlM (fun h id => (h.stop id n).map Prod.snd) h

theorem stopEach_cons {ids : List String} : h.stopEach n (id :: ids) =
    ((h.stop id n).map Prod.snd).bind (stopEach n ids) := List.foldlM_cons ..

theorem isSome_first {ids : List String} (hf : (f.stopEach k (id :: ids)).isSome = true) :
    (f.stop id k).isSome = true := by
  rw [Fleet.stopEach_cons] at hf
  simpa using Option.isSome_of_isSome_bind hf

theorem stopEach_stands : ∀ {ids : List String} {h : Host}, h.Sound fixed →
    (n ≤ k ∨ (h.fleet k).Healthy ∧ ((h.fleet k).stopEach k ids).isSome = true) →
    h.stopEach n ids = some h' → ∃ f, (h.fleet k).stopEach k ids = some f ∧ Stands fixed k 0 h f h'
  | [], h, hs, _, ha => by
    cases ha
    exact ⟨_, rfl, .refl hs⟩
  | id :: ids, h, hs, hk, ha => by
    rw [stopEach_cons] at ha
    obtain ⟨h₁, hsnd, ha⟩ := Option.bind_eq_some_iff.1 ha
    obtain ⟨⟨r, h₁⟩, ha₁, rfl⟩ := Option.map_eq_some_iff.1 hsnd
    obtain ⟨f₁, hf₁, hst₁⟩ := stop_stands hs (hk.imp_right fun hk => ⟨hk.1, isSome_first hk.2⟩) ha₁
    rw [Fleet.stopEach_cons, hf₁] at hk ⊢
    obtain ⟨f, hf, hst⟩ := stopEach_stands hst₁.sound (hk.imp_right fun hk => by
      rw [hst₁.fleet]
      exact ⟨hk.1.stop hf₁, hk.2⟩) ha
    rw [hst₁.fleet] at hf
    exact ⟨f, hf, hst.sound, hst.fleet, fun L hb => hst.backlog L (hst₁.backlog L hb)⟩

theorem isSome_stopEach : ∀ {ids : List String} {h : Host}, h.Sound fixed → (h.fleet k).Healthy →
    ((h.fleet k).stopEach k ids).isSome = true → h.Backlog L → k + L < n →
    (h.stopEach n ids).isSome = true
  | [], _, _, _, _, _, _ => rfl
  | id :: ids, h, hs, hh, hf, hb, hlt => by
    have hfirst := isSome_first hf
    obtain ⟨⟨r, h₁⟩, ha⟩ := Option.isSome_iff_exists.1 (isSome_stop hs hh hfirst hb hlt)
    obtain ⟨f₁, hf₁, hst₁⟩ := stop_stands hs (.inr ⟨hh, hfirst⟩) ha
    rw [Fleet.stopEach_cons, hf₁] at hf
    rw [stopEach_cons, ha]
    refine isSome_stopEach (h := h₁) hst₁.sound ?_ ?_ (hst₁.backlog L hb) hlt
    · rw [hst₁.fleet]
      exact hh.stop hf₁
    · rw [hst₁.fleet]
      exact hf

theorem keys_fleet : Dict.keys (h.fleet k).machines = h.instanceIds := Dict.keys_mapValues

theorem shutdown_stands (hs : h.Sound fixed)
    (hk : n ≤ k ∨ (h.fleet k).Healthy ∧ ((h.fleet k).shutdown k).isSome = true)
    (ha : h.shutdown n = some h') :
    ∃ f, (h.fleet k).shutdown k = some f ∧ Stands fixed k 0 h f h' := by
  rw [Fleet.shutdown, keys_fleet] at hk ⊢
  exact stopEach_stands hs hk ha

theorem isSome_shutdown (hs : h.Sound fixed) (hh : (h.fleet k).Healthy)
    (hf : ((h.fleet k).shutdown k).isSome = true) (hb : h.Backlog L) (hlt : k + L < n) :
    (h.shutdown n).isSome = true := by
  rw [Fleet.shutdown, keys_fleet] at hf
  exact isSome_stopEach hs hh hf hb hlt

/-! ### Starting -/

section Starting

variable {c : Chart} {m : Machine} {chart : String} {version : Nat}

/-- The host with a worker for a machine that has been started. -/
def started (id : String) (m : Machine) (h : Host) : Host :=
  { h with
    workers := Dict.insert id ⟨id, m, max 1 h.settings.capacity, [], false⟩ h.workers
    ready := h.ready ++ [id]
    journal := h.journal ++ m.session.journal
    supply := m.session.supply }

theorem sound_started (hs : h.Sound fixed) (hnew : Dict.has id h.workers = false)
    (hm : m.Alone fixed) : (h.started id m).Sound fixed := by
  have hnot : id ∉ Dict.keys h.workers := fun hmem => by
    rw [Dict.has_iff.2 hmem] at hnew
    cases hnew
  refine ⟨Dict.sorted_insert hs.sorted, fun i w hw => ?_,
    nodup_concat hs.ready fun hmem => hnot (hs.known id hmem), fun i hi => ?_, hs.compiles,
    hm.lone.supply⟩
  · by_cases hi : i = id
    · subst hi
      rw [started, Dict.get?_insert_self] at hw
      cases hw
      exact ⟨rfl, rfl, hm⟩
    · rw [started, Dict.get?_insert_of_ne hi] at hw
      exact hs.workers i w hw
  · rcases List.mem_append.1 hi with hi | hi
    · exact Dict.mem_keys_insert.2 (.inr (hs.known i hi))
    · exact Dict.mem_keys_insert.2 (.inl (List.mem_singleton.1 hi))

theorem fleet_started : (h.started id m).fleet k = { h.fleet k with
    machines := Dict.insert id (some m) (h.futures k)
    supply := m.session.supply } := by
  have hfutures : (h.started id m).futures k = Dict.insert id (some m) (h.futures k) :=
    Dict.mapValues_insert
  rw [fleet, hfutures]
  rfl

theorem backlog_started (hb : h.Backlog L) : (h.started id m).Backlog L := by
  intro i w hw
  by_cases hi : i = id
  · subst hi
    rw [started, Dict.get?_insert_self] at hw
    cases hw
    exact Nat.zero_le _
  · rw [started, Dict.get?_insert_of_ne hi] at hw
    exact hb i w hw

theorem start_eq (hs : h.Sound fixed) (hget : h.registry.get chart version = .ok c)
    (hnew : Dict.has id h.workers = false) : h.start id chart version n =
      (((h.fleet k).engine c).go n).bind fun
        | (_, some e) => some (.error (.machine e), h)
        | (m, none) => (h.started id m).status id n := by
  have hengine : (h.fleet k).engine c = Machine.setSink .outside (if h.settings.traceTransitions then
      (Machine.fresh (some c) h.supply).listen Listeners.chart .log
      else Machine.fresh (some c) h.supply) := rfl
  have hm := (h.fleet k).alone_engine (hs.compiles _ _ _ hget) hs.fixed_eq
  rw [hengine] at hm ⊢
  rw [start, hget]
  dsimp only
  rw [hnew, if_neg Bool.false_ne_true, Worker.spawn_eq hm]
  cases Machine.go n (Machine.setSink .outside (if h.settings.traceTransitions then
      (Machine.fresh (some c) h.supply).listen Listeners.chart .log
      else Machine.fresh (some c) h.supply)) with
  | none => rfl
  | some r =>
    obtain ⟨m, error⟩ := r
    cases error <;> rfl

theorem has_futures : Dict.has id (h.futures k) = Dict.has id h.workers := by
  rw [Dict.has, Dict.has, futures, Dict.get?_mapValues, Option.isSome_map]

theorem healthy_started (hh : (h.fleet k).Healthy) : ((h.started id m).fleet k).Healthy := by
  rw [fleet_started]
  intro i hi
  by_cases hid : i = id
  · subst hid
    rw [Dict.get?_insert_self] at hi
    cases hi
  · exact hh i ((Dict.get?_insert_of_ne hid _ _).symm.trans hi)

theorem status_started : ((h.started id m).fleet k).status id =
    some (.ok (m.statusAs id), (h.started id m).fleet k) := by
  rw [Fleet.status, Fleet.ask, fleet_started, Dict.get?_insert_self]
  rfl

theorem start_stands {r : Except HostError Status} (hs : h.Sound fixed)
    (hk : n ≤ k ∨ (h.fleet k).Healthy ∧ ((h.fleet k).start id chart version k).isSome = true)
    (ha : h.start id chart version n = some (r, h')) :
    ∃ f, (h.fleet k).start id chart version k = some (r, f) ∧ Stands fixed k 0 h f h' := by
  rw [Fleet.start, show (h.fleet k).registry = h.registry from rfl] at hk ⊢
  cases hget : h.registry.get chart version with
  | error e =>
    rw [start, hget] at ha
    cases ha
    exact ⟨_, rfl, .refl hs⟩
  | ok c =>
    rw [hget] at hk
    dsimp only at hk ⊢
    rw [show Dict.has id (h.fleet k).machines = _ from has_futures] at hk ⊢
    cases hnew : Dict.has id h.workers with
    | true =>
      rw [start, hget] at ha
      dsimp only at ha
      rw [hnew, if_pos rfl] at ha
      cases ha
      exact ⟨_, rfl, .refl hs⟩
    | false =>
      rw [hnew, if_neg Bool.false_ne_true, Option.isSome_map] at hk
      rw [start_eq hs hget hnew (k := k)] at ha
      obtain ⟨⟨m, error⟩, hgo, ha⟩ := Option.bind_eq_some_iff.1 ha
      have hgo' : ((h.fleet k).engine c).go k = some (m, error) :=
        lasting (fun hle => Machine.reset_of_le hle) hgo (hk.imp_right And.right)
      rw [if_neg Bool.false_ne_true, hgo']
      cases error with
      | some e =>
        cases ha
        exact ⟨_, rfl, .refl hs⟩
      | none =>
        have hm : m.Alone fixed :=
          ((h.fleet k).alone_engine (hs.compiles _ _ _ hget) hs.fixed_eq).reset hgo
        obtain ⟨hstatus, hst⟩ := status_spec (sound_started hs hnew hm)
          (hk.imp_right fun hk => healthy_started hk.1) ha
        rw [status_started] at hstatus
        cases hstatus
        refine ⟨_, rfl, hst.sound, ?_, fun L hb => hst.backlog L (backlog_started hb)⟩
        rw [hst.fleet, fleet_started]
        rfl

theorem isSome_start (hs : h.Sound fixed) (hh : (h.fleet k).Healthy)
    (hf : ((h.fleet k).start id chart version k).isSome = true) (hb : h.Backlog L) (hlt : k + L < n) :
    (h.start id chart version n).isSome = true := by
  rw [Fleet.start, show (h.fleet k).registry = h.registry from rfl] at hf
  cases hget : h.registry.get chart version with
  | error e =>
    rw [start, hget]
    rfl
  | ok c =>
    rw [hget] at hf
    dsimp only at hf
    rw [show Dict.has id (h.fleet k).machines = _ from has_futures] at hf
    cases hnew : Dict.has id h.workers with
    | true =>
      rw [start, hget]
      dsimp only
      rw [hnew]
      rfl
    | false =>
      rw [hnew, if_neg Bool.false_ne_true, Option.isSome_map] at hf
      obtain ⟨⟨m, error⟩, hgo⟩ := Option.isSome_iff_exists.1 hf
      have hgo : ((h.fleet k).engine c).go n = some (m, error) := Machine.reset_of_le (by omega) hgo
      rw [start_eq hs hget hnew (k := k), hgo]
      cases error with
      | some e => rfl
      | none =>
        have hm : m.Alone fixed :=
          ((h.fleet k).alone_engine (hs.compiles _ _ _ hget) hs.fixed_eq).reset hgo
        exact isSome_look (sound_started hs hnew hm) (healthy_started hh) (backlog_started hb) hlt

end Starting

/-! ### One request after the other -/

theorem reply_stands {r : Request} {a : Answer} (hs : h.Sound fixed)
    (hk : n ≤ k ∨ (h.fleet k).Healthy ∧ ((h.fleet k).reply k r).isSome = true)
    (ha : h.reply n r = some (a, h')) :
    ∃ f, (h.fleet k).reply k r = some (a, f) ∧ Stands fixed k 1 h f h' := by
  have hk' := hk.imp_right And.left
  cases r with
  | put name version v =>
    cases ha
    exact ⟨_, rfl, ⟨hs.sorted, hs.workers, hs.ready, hs.known, Registry.compiles_enter hs.compiles,
      hs.fixed_eq⟩, rfl, fun L hb => hb.mono (Nat.le_succ L)⟩
  | start id chart version =>
    obtain ⟨⟨b, h₁⟩, ha, heq⟩ := Option.map_eq_some_iff.1 ha
    cases heq
    rw [Fleet.reply, Option.isSome_map] at hk
    obtain ⟨f, hf, hst⟩ := start_stands hs hk ha
    exact ⟨f, by rw [Fleet.reply, hf]; rfl, hst.add_one⟩
  | send id e =>
    obtain ⟨⟨b, h₁⟩, ha, heq⟩ := Option.map_eq_some_iff.1 ha
    cases heq
    obtain ⟨rfl, hst⟩ := send_stands hs hk' ha
    exact ⟨_, rfl, hst⟩
  | status id =>
    obtain ⟨⟨b, h₁⟩, ha, heq⟩ := Option.map_eq_some_iff.1 ha
    cases heq
    obtain ⟨hf, hst⟩ := status_spec hs hk' ha
    exact ⟨_, by rw [Fleet.reply, hf]; rfl, hst.add_one⟩
  | snapshot id =>
    obtain ⟨⟨b, h₁⟩, ha, heq⟩ := Option.map_eq_some_iff.1 ha
    cases heq
    obtain ⟨hf, hst⟩ := snapshot_spec hs hk' ha
    exact ⟨_, by rw [Fleet.reply, hf]; rfl, hst.add_one⟩
  | stop id =>
    obtain ⟨⟨b, h₁⟩, ha, heq⟩ := Option.map_eq_some_iff.1 ha
    cases heq
    rw [Fleet.reply, Option.isSome_map] at hk
    obtain ⟨f, hf, hst⟩ := stop_stands hs hk ha
    exact ⟨f, by rw [Fleet.reply, hf]; rfl, hst.add_one⟩
  | shutdown =>
    obtain ⟨h₁, ha, heq⟩ := Option.map_eq_some_iff.1 ha
    cases heq
    rw [Fleet.reply, Option.isSome_map] at hk
    obtain ⟨f, hf, hst⟩ := shutdown_stands hs hk ha
    exact ⟨f, by rw [Fleet.reply, hf]; rfl, hst.add_one⟩
  | ids =>
    cases ha
    exact ⟨_, by rw [Fleet.reply, keys_fleet], (Stands.refl hs).add_one⟩

theorem isSome_reply {r : Request} (hs : h.Sound fixed) (hh : (h.fleet k).Healthy)
    (hf : ((h.fleet k).reply k r).isSome = true) (hb : h.Backlog L) (hlt : k + L < n) :
    (h.reply n r).isSome = true := by
  cases r with
  | put name version v => rfl
  | start id chart version =>
    rw [Fleet.reply, Option.isSome_map] at hf
    rw [reply, Option.isSome_map]
    exact isSome_start hs hh hf hb hlt
  | send id e =>
    rw [reply, Option.isSome_map]
    exact isSome_sent hs hh hb hlt
  | status id | snapshot id =>
    rw [reply, Option.isSome_map]
    exact isSome_look hs hh hb hlt
  | stop id =>
    rw [Fleet.reply, Option.isSome_map] at hf
    rw [reply, Option.isSome_map]
    exact isSome_stop hs hh hf hb hlt
  | shutdown =>
    rw [Fleet.reply, Option.isSome_map] at hf
    rw [reply, Option.isSome_map]
    exact isSome_shutdown hs hh hf hb hlt
  | ids => rfl

/-- A worker that gets to some of what waits for it changes nothing. -/
theorem workSome_stands {count : Nat} (hs : h.Sound fixed) (hk : n ≤ k ∨ (h.fleet k).Healthy)
    (ha : h.workSome id count n = some h') : Stands fixed k 0 h (h.fleet k) h' := by
  unfold workSome at ha
  split at ha
  · cases ha
    exact .refl hs
  · rename_i w hw
    obtain ⟨w', hw', rfl⟩ := Option.map_eq_some_iff.1 ha
    have hsound := hs.workers id w hw
    have hlater := Worker.later_workOff hsound.alone hw' (hs.fit hk id w hw).2
    have hl : h.Later (fun _ => True) k (h.update id w w') := later_update hs.sorted hw fun _ => hlater
    have hl' : h.Later (· ≠ id) k (h.update id w w') := hl.mono fun _ _ => trivial
    have hget : Dict.get? id (h.update id w w').workers = some w' := Dict.get?_insert_self ..
    exact ⟨hs.later hl' hget (hlater.sound hsound) hs.ready fun i hi => hl.keys.symm ▸ hs.known i hi,
      hl.fleet hs.sorted, fun L hb =>
        hb.later hl' hget (Nat.le_trans hlater.waiting (hb id w hw))⟩

theorem isSome_workSome {count : Nat} (hs : h.Sound fixed) (hh : (h.fleet k).Healthy) (hle : k ≤ n) :
    (h.workSome id count n).isSome = true := by
  unfold workSome
  split
  · rfl
  · rename_i w hw
    have hsome := isSome_future hh hw
    rw [Worker.future, ← List.take_append_drop count w.waiting, Machine.feed_append] at hsome
    obtain ⟨m, hm⟩ := Option.isSome_iff_exists.1 (Option.isSome_of_isSome_bind hsome)
    rw [Worker.workOff_eq count (hs.workers id w hw).alone, Machine.feed_of_le hle hm]
    rfl

/-- What a host answers its fleet answers. -/
theorem play_stands : ∀ {os : List Occasion} {h : Host} {as : List (Request × Answer)}, h.Sound fixed →
    h.play n os = some (as, h') →
    (h.fleet n).play n (Occasion.calls os) = some (as, h'.fleet n) ∧ h'.Sound fixed
  | [], _, _, hs, ha => by
    cases ha
    exact ⟨rfl, hs⟩
  | .work id count :: os, h, as, hs, ha => by
    obtain ⟨h₁, ha₁, ha⟩ := Option.bind_eq_some_iff.1 ha
    have hst := workSome_stands hs (.inl (Nat.le_refl n)) ha₁
    obtain ⟨hplay, hs'⟩ := play_stands hst.sound ha
    rw [hst.fleet] at hplay
    exact ⟨hplay, hs'⟩
  | .call r :: os, h, as, hs, ha => by
    obtain ⟨⟨a, h₁⟩, ha₁, ha⟩ := Option.bind_eq_some_iff.1 ha
    obtain ⟨⟨rest, h₂⟩, ha₂, heq⟩ := Option.map_eq_some_iff.1 ha
    cases heq
    obtain ⟨f, hf, hst⟩ := reply_stands hs (.inl (Nat.le_refl n)) ha₁
    obtain ⟨hplay, hs'⟩ := play_stands hst.sound ha₂
    rw [hst.fleet] at hplay
    refine ⟨?_, hs'⟩
    change (Fleet.play n (r :: Occasion.calls os) (h.fleet n)) = _
    rw [Fleet.play, hf]
    dsimp only [Option.bind_some]
    rw [hplay]
    rfl

/-- What a fleet answers its host answers, if no machine runs for ever. -/
theorem play_of_fleet {f' : Fleet} (hf' : f'.Healthy) : ∀ {os : List Occasion} {h : Host} {L : Nat}
    {as : List (Request × Answer)}, h.Sound fixed → h.Backlog L →
    k + L + (Occasion.calls os).length < n →
    (h.fleet k).play k (Occasion.calls os) = some (as, f') →
    ∃ h', h.play n os = some (as, h') ∧ h'.fleet k = f'
  | [], h, _, _, _, _, _, ha => by
    cases ha
    exact ⟨h, rfl, rfl⟩
  | .work id count :: os, h, L, as, hs, hb, hlt, ha => by
    have hh := Fleet.healthy_of_play ha hf'
    have hsome : (h.workSome id count n).isSome = true := isSome_workSome hs hh (by omega)
    obtain ⟨h₁, ha₁⟩ := Option.isSome_iff_exists.1 hsome
    have hst := workSome_stands hs (.inr hh) ha₁
    obtain ⟨h', hplay, hfleet⟩ := play_of_fleet hf' hst.sound (hst.backlog L hb)
      (show k + L + (Occasion.calls os).length < n from hlt) (hst.fleet.symm ▸ ha)
    exact ⟨h', by rw [play, ha₁]; exact hplay, hfleet⟩
  | .call r :: os, h, L, as, hs, hb, hlt, ha => by
    have hh := Fleet.healthy_of_play ha hf'
    have hlt : k + L + (Occasion.calls os).length + 1 < n := hlt
    obtain ⟨⟨a, f₁⟩, hf₁, ha⟩ := Option.bind_eq_some_iff.1 ha
    obtain ⟨⟨rest, f₂⟩, ha₂, heq⟩ := Option.map_eq_some_iff.1 ha
    cases heq
    have hf : ((h.fleet k).reply k r).isSome = true := by rw [hf₁]; rfl
    have hsome : (h.reply n r).isSome = true := isSome_reply hs hh hf hb (by omega)
    obtain ⟨⟨b, h₁⟩, ha₁⟩ := Option.isSome_iff_exists.1 hsome
    obtain ⟨f, hf, hst⟩ := reply_stands hs (.inr ⟨hh, hf⟩) ha₁
    rw [hf₁] at hf
    cases hf
    obtain ⟨h', hplay, hfleet⟩ := play_of_fleet hf' hst.sound (hst.backlog L hb)
      (show k + (L + 1) + (Occasion.calls os).length < n by omega) (hst.fleet.symm ▸ ha₂)
    refine ⟨h', ?_, hfleet⟩
    rw [play, ha₁]
    dsimp only [Option.bind_some]
    rw [hplay]
    rfl

theorem sound_fresh {settings : Settings} {supply : Supply} :
    (Host.fresh settings supply).Sound supply.fixed where
  sorted := .nil
  workers _ _ hw := by cases hw
  ready := .nil
  known _ hi := by cases hi
  compiles _ _ _ hget := by cases hget
  fixed_eq := rfl

end Host
end Statechart
