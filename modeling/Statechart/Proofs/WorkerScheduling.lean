import Statechart.Host.Basic
import Statechart.Proofs.WorkerFutures

/-! Workers take turns.

    Whoever asks a worker lets all the others work that have something to do. That puts every one of
    them in place of what it was, and changes nothing about what becomes of them; it changes nothing else
    about the host either. So a host that has been asked is the one that it was, but for the worker that
    was asked. -/

namespace Statechart

namespace Dict

variable {α : Type} {k : String} {a : α} {d e : Dict String α}

theorem mem_keys_of_get? (h : get? k d = some a) : k ∈ keys d :=
  has_iff.1 (by rw [has, h]; rfl)

theorem exists_of_mem_keys (h : k ∈ keys d) : ∃ a, get? k d = some a :=
  Option.isSome_iff_exists.1 (has_iff.2 h)

/-- Two maps of the same names that bind them to the same are the same. -/
theorem ext_of_keys : ∀ {d e : Dict String α}, keys d = keys e → (keys d).Nodup →
    (∀ k, get? k d = get? k e) → d = e
  | [], [], _, _, _ => rfl
  | (k, a) :: d, (k', b) :: e, hk, hn, h => by
    obtain ⟨hhead, htail⟩ := List.cons.inj hk
    obtain rfl : k = k' := hhead
    have htail : keys d = keys e := htail
    obtain ⟨hnot, hn⟩ := List.nodup_cons.1 hn
    have hab : a = b := by simpa [get?] using h k
    have hde : d = e := ext_of_keys htail hn fun j => by
      by_cases hj : j = k
      · subst hj
        rw [get?_eq_none_iff.2 hnot, get?_eq_none_iff.2 (htail ▸ hnot : j ∉ keys e)]
      · simpa [get?, hj] using h j
    rw [hab, hde]

end Dict

namespace Worker

variable {fixed : (Nat → String) × Int} {n k : Nat} {w w' : Worker}

/-- Whether a worker that is waited for comes to what becomes of it. -/
def Fit (fixed : (Nat → String) × Int) (n k : Nat) (w : Worker) : Prop :=
  w.machine.Alone fixed ∧ (n ≤ k ∨ (w.future k).isSome = true)

/-- Whether a worker comes back before one is tired of waiting. -/
def Prompt (fixed : (Nat → String) × Int) (n k : Nat) (w : Worker) : Prop :=
  w.machine.Alone fixed ∧ (w.future k).isSome = true ∧ k + w.waiting.length < n

theorem Prompt.fit (h : w.Prompt fixed n k) : w.Fit fixed n k := ⟨h.1, .inr h.2.1⟩

theorem Later.fit (h : w.Later k w') (hw : w.Fit fixed n k) : w'.Fit fixed n k :=
  ⟨h.alone fixed hw.1, hw.2.imp_right fun hf => h.future.symm ▸ hf⟩

theorem Later.prompt (h : w.Later k w') (hw : w.Prompt fixed n k) : w'.Prompt fixed n k :=
  ⟨h.alone fixed hw.1, h.future.symm ▸ hw.2.1, by have := h.waiting; have := hw.2.2; omega⟩

end Worker

namespace Host

variable {α : Type} {fixed : (Nat → String) × Int} {p q : String → Prop} {n k : Nat} {h h' h₁ : Host}
  {id awaited : String} {w w' : Worker}

/-- Whether a host is another one whose workers have only worked since, as far as they go by some
    names. -/
structure Later (p : String → Prop) (k : Nat) (h h' : Host) : Prop where
  settings : h'.settings = h.settings
  registry : h'.registry = h.registry
  supply : h'.supply = h.supply
  keys : Dict.keys h'.workers = Dict.keys h.workers
  workers : ∀ i w', p i → Dict.get? i h'.workers = some w' →
    ∃ w, Dict.get? i h.workers = some w ∧ w.Later k w'

namespace Later

theorem refl (p : String → Prop) (k : Nat) (h : Host) : Later p k h h :=
  ⟨rfl, rfl, rfl, rfl, fun _ w _ hw => ⟨w, hw, .refl w⟩⟩

theorem trans (ha : Later p k h h₁) (hb : Later p k h₁ h') : Later p k h h' where
  settings := hb.settings.trans ha.settings
  registry := hb.registry.trans ha.registry
  supply := hb.supply.trans ha.supply
  keys := hb.keys.trans ha.keys
  workers i w' hi hw' := by
    obtain ⟨w₁, hw₁, hl₁⟩ := hb.workers i w' hi hw'
    obtain ⟨w, hw, hl⟩ := ha.workers i w₁ hi hw₁
    exact ⟨w, hw, hl.trans hl₁⟩

theorem mono (hl : Later p k h h') (hq : ∀ i, q i → p i) : Later q k h h' :=
  { hl with workers := fun i w' hi => hl.workers i w' (hq i hi) }

theorem sorted (hl : Later p k h h') (hs : (Dict.keys h.workers).Pairwise (· < ·)) :
    (Dict.keys h'.workers).Pairwise (· < ·) := hl.keys.symm ▸ hs

/-- A worker is still there. -/
theorem fore (hl : Later p k h h') (hp : p id) (hw : Dict.get? id h.workers = some w) :
    ∃ w', Dict.get? id h'.workers = some w' ∧ w.Later k w' := by
  obtain ⟨w', hw'⟩ := Dict.exists_of_mem_keys (hl.keys.symm ▸ Dict.mem_keys_of_get? hw)
  obtain ⟨u, hu, hlater⟩ := hl.workers id w' hp hw'
  rw [hw] at hu
  cases hu
  exact ⟨w', hw', hlater⟩

end Later

/-- One worker in place of what it was. -/
theorem later_update (hs : (Dict.keys h.workers).Pairwise (· < ·))
    (hw : Dict.get? id h.workers = some w) (hl : p id → w.Later k w') :
    h.Later p k (h.update id w w') where
  settings := rfl
  registry := rfl
  supply := rfl
  keys := Dict.keys_insert_of_mem (fun _ _ => String.lt_asymm) hs (Dict.mem_keys_of_get? hw)
  workers i u hi hu := by
    by_cases hid : i = id
    · subst hid
      rw [update, Dict.get?_insert_self] at hu
      cases hu
      exact ⟨w, hw, hl hi⟩
    · rw [update, Dict.get?_insert_of_ne hid] at hu
      exact ⟨u, hu, .refl u⟩

/-! ### The turn of one worker -/

theorem work_spec {reserved : Nat} (hs : (Dict.keys h.workers).Pairwise (· < ·))
    (hfit : ∀ w, Dict.get? id h.workers = some w → w.Fit fixed n k)
    (hd : h.work reserved n id = some h') : h.Later p k h' ∧ h'.ready = h.ready ∧
      ∀ i, i ≠ id → Dict.get? i h'.workers = Dict.get? i h.workers := by
  unfold work at hd
  split at hd
  · cases hd
    exact ⟨.refl _ _ _, rfl, fun _ _ => rfl⟩
  · rename_i w hw
    obtain ⟨w', hw', rfl⟩ := Option.map_eq_some_iff.1 hd
    obtain ⟨halone, hk⟩ := hfit w hw
    exact ⟨later_update hs hw fun _ => Worker.later_drain halone hw' hk, rfl,
      fun i hi => Dict.get?_insert_of_ne hi _ _⟩

theorem isSome_work {reserved : Nat}
    (hprompt : ∀ w, Dict.get? id h.workers = some w → w.Prompt fixed n k) :
    (h.work reserved n id).isSome = true := by
  unfold work
  split
  · rfl
  · rename_i w hw
    obtain ⟨halone, hfuture, hlt⟩ := hprompt w hw
    obtain ⟨m, hm⟩ := Option.isSome_iff_exists.1 hfuture
    rw [Worker.drain_of_future n halone hm hlt]
    rfl

/-! ### The turns of several -/

/-- What every one of some workers is, all the others are that have only worked since. -/
theorem Later.all {P : Worker → Prop} (hl : h.Later p k h')
    (hP : ∀ {w w' : Worker}, w.Later k w' → P w → P w') (hp : ∀ i, p i → ∀ w,
      Dict.get? i h.workers = some w → P w) :
    ∀ i, p i → ∀ w, Dict.get? i h'.workers = some w → P w := fun i hi w' hw' => by
  obtain ⟨w, hw, hlater⟩ := hl.workers i w' hi hw'
  exact hP hlater (hp i hi w hw)

/-- Some workers, one after the other. -/
def workEach (reserved : String → Nat) (n : Nat) (is : List String) (h : Host) : Option Host :=
  is.foldlM (fun h i => work (reserved i) n h i) h

theorem workEach_spec {reserved : String → Nat} : ∀ {is : List String} {h : Host},
    (Dict.keys h.workers).Pairwise (· < ·) → (∀ i ∈ is, p i) →
    (∀ i, p i → ∀ w, Dict.get? i h.workers = some w → w.Fit fixed n k) →
    h.workEach reserved n is = some h' → h.Later p k h' ∧ h'.ready = h.ready ∧
      ∀ i, i ∉ is → Dict.get? i h'.workers = Dict.get? i h.workers
  | [], h, _, _, _, hd => by
    cases hd
    exact ⟨.refl _ _ _, rfl, fun _ _ => rfl⟩
  | i :: is, h, hs, hp, hfit, hd => by
    obtain ⟨h₁, h₁d, hd⟩ := Option.bind_eq_some_iff.1 (List.foldlM_cons.symm.trans hd)
    obtain ⟨hl₁, hr₁, ho₁⟩ := work_spec (p := p) hs (hfit i (hp i List.mem_cons_self)) h₁d
    obtain ⟨hl, hr, ho⟩ := workEach_spec (hl₁.sorted hs) (fun j hj => hp j (List.mem_cons_of_mem _ hj))
      (hl₁.all Worker.Later.fit hfit) hd
    refine ⟨hl₁.trans hl, hr.trans hr₁, fun j hj => ?_⟩
    rw [List.mem_cons, not_or] at hj
    rw [ho j hj.2, ho₁ j hj.1]

theorem isSome_workEach {reserved : String → Nat} : ∀ {is : List String} {h : Host},
    (Dict.keys h.workers).Pairwise (· < ·) → (∀ i ∈ is, p i) →
    (∀ i, p i → ∀ w, Dict.get? i h.workers = some w → w.Prompt fixed n k) →
    (h.workEach reserved n is).isSome = true
  | [], _, _, _, _ => rfl
  | i :: is, h, hs, hp, hprompt => by
    have hi := hprompt i (hp i List.mem_cons_self)
    have hwork : (h.work (reserved i) n i).isSome = true := isSome_work hi
    obtain ⟨h₁, h₁d⟩ := Option.isSome_iff_exists.1 hwork
    obtain ⟨hl₁, -, -⟩ := work_spec (p := p) hs (fun w hw => (hi w hw).fit) h₁d
    rw [workEach, List.foldlM_cons, h₁d]
    exact isSome_workEach (hl₁.sorted hs) (fun j hj => hp j (List.mem_cons_of_mem _ hj))
      (hl₁.all Worker.Later.prompt hprompt)

theorem workAll_eq : h.workAll awaited n =
    (h.workEach (fun i => if i = awaited then 1 else 0) n h.ready).map fun h =>
      { h with ready := [] } := rfl

theorem workAll_spec (hs : (Dict.keys h.workers).Pairwise (· < ·))
    (hfit : ∀ i w, Dict.get? i h.workers = some w → w.Fit fixed n k)
    (hd : h.workAll awaited n = some h') : h.Later (fun _ => True) k h' ∧ h'.ready = [] := by
  rw [workAll_eq] at hd
  obtain ⟨h₁, h₁d, rfl⟩ := Option.map_eq_some_iff.1 hd
  obtain ⟨hl, -, -⟩ := workEach_spec (p := fun _ => True) hs (fun _ _ => trivial)
    (fun i _ => hfit i) h₁d
  exact ⟨⟨hl.settings, hl.registry, hl.supply, hl.keys, hl.workers⟩, rfl⟩

theorem isSome_workAll (hs : (Dict.keys h.workers).Pairwise (· < ·))
    (hprompt : ∀ i w, Dict.get? i h.workers = some w → w.Prompt fixed n k) :
    (h.workAll awaited n).isSome = true := by
  rw [workAll_eq, Option.isSome_map]
  exact isSome_workEach (p := fun _ => True) hs (fun _ _ => trivial) fun i _ => hprompt i

/-- The host once the queue of a worker has room for one more. -/
def makeRoom (id : String) (w : Worker) (n : Nat) (h : Host) : Option Host :=
  if w.full then h.workAll id n else some h

theorem makeRoom_spec (hs : (Dict.keys h.workers).Pairwise (· < ·)) (hn : h.ready.Nodup)
    (hfit : ∀ i w, Dict.get? i h.workers = some w → w.Fit fixed n k)
    (hd : h.makeRoom id w n = some h') :
    h.Later (fun _ => True) k h' ∧ h'.ready.Nodup ∧ ∀ i ∈ h'.ready, i ∈ h.ready := by
  unfold makeRoom at hd
  split at hd
  · obtain ⟨hl, hr⟩ := workAll_spec hs hfit hd
    exact ⟨hl, hr ▸ List.nodup_nil, by simp [hr]⟩
  · cases hd
    exact ⟨.refl _ _ _, hn, fun _ hi => hi⟩

theorem isSome_makeRoom (hs : (Dict.keys h.workers).Pairwise (· < ·))
    (hprompt : ∀ i w, Dict.get? i h.workers = some w → w.Prompt fixed n k) :
    (h.makeRoom id w n).isSome = true := by
  unfold makeRoom
  split
  · exact isSome_workAll hs hprompt
  · rfl

/-! ### The one who is asked -/

section Asking

variable {question : Worker → Option (Except HostError α × Worker)} {r r' : Except HostError α}

theorem takeTurns_self {turns : List String} (hw : Dict.get? id h.workers = some w) :
    takeTurns id question n (id :: turns) (r, h) = (question w).bind fun x =>
      takeTurns id question n turns (x.1, h.update id w x.2) := by
  rw [takeTurns, if_pos rfl, hw]
  rfl

theorem takeTurns_other {i : String} {turns : List String} (hi : i ≠ id) :
    takeTurns id question n (i :: turns) (r, h) = (h.work 0 n i).bind fun h =>
      takeTurns id question n turns (r, h) := by
  rw [takeTurns, if_neg hi]
  rfl

theorem takeTurns_others : ∀ {turns : List String} {h : Host}, id ∉ turns →
    takeTurns id question n turns (r, h) = (h.workEach (fun _ => 0) n turns).map (r, ·)
  | [], _, _ => rfl
  | i :: turns, h, hid => by
    rw [List.mem_cons, not_or] at hid
    rw [takeTurns_other (Ne.symm hid.1), workEach, List.foldlM_cons]
    cases h.work 0 n i with
    | none => rfl
    | some h₁ => exact takeTurns_others hid.2

/-- In its turn a worker is asked as it was when the turns began, and all others have only worked. -/
theorem takeTurns_spec : ∀ {turns : List String} {h : Host} {r : Except HostError α}, turns.Nodup →
    id ∈ turns → (Dict.keys h.workers).Pairwise (· < ·) →
    (∀ i, i ≠ id → ∀ w, Dict.get? i h.workers = some w → w.Fit fixed n k) →
    Dict.get? id h.workers = some w → takeTurns id question n turns (r, h) = some (r', h') →
    ∃ w', question w = some (r', w') ∧ Dict.get? id h'.workers = some w' ∧
      h.Later (· ≠ id) k h' ∧ h'.ready = h.ready
  | [], _, _, _, hid, _, _, _, _ => by cases hid
  | i :: turns, h, r, hn, hid, hs, hfit, hw, ht => by
    obtain ⟨hnot, hn⟩ := List.nodup_cons.1 hn
    by_cases hi : i = id
    · subst hi
      rw [takeTurns_self hw] at ht
      obtain ⟨⟨r₁, w'⟩, hq, ht⟩ := Option.bind_eq_some_iff.1 ht
      rw [takeTurns_others hnot] at ht
      obtain ⟨h₂, hd, heq⟩ := Option.map_eq_some_iff.1 ht
      cases heq
      have hup : h.Later (· ≠ i) k (h.update i w w') := later_update hs hw (absurd rfl)
      obtain ⟨hl, hr, ho⟩ := workEach_spec (p := (· ≠ i)) (hup.sorted hs)
        (fun j hj he => hnot (he ▸ hj)) (hup.all Worker.Later.fit hfit) hd
      exact ⟨w', hq, (ho i hnot).trans (Dict.get?_insert_self ..), hup.trans hl, hr⟩
    · rw [takeTurns_other hi] at ht
      obtain ⟨h₁, hd, ht⟩ := Option.bind_eq_some_iff.1 ht
      obtain ⟨hl₁, hr₁, ho₁⟩ := work_spec (p := (· ≠ id)) hs (hfit i hi) hd
      obtain ⟨w', hq, hw', hl, hr⟩ := takeTurns_spec hn
        ((List.mem_cons.1 hid).resolve_left (Ne.symm hi)) (hl₁.sorted hs)
        (hl₁.all Worker.Later.fit hfit) ((ho₁ id (Ne.symm hi)).trans hw) ht
      exact ⟨w', hq, hw', hl₁.trans hl, hr.trans hr₁⟩

theorem isSome_takeTurns (hq : (question w).isSome = true) : ∀ {turns : List String} {h : Host}
    {r : Except HostError α}, turns.Nodup → (Dict.keys h.workers).Pairwise (· < ·) →
    (∀ i, i ≠ id → ∀ w, Dict.get? i h.workers = some w → w.Prompt fixed n k) →
    Dict.get? id h.workers = some w → (takeTurns id question n turns (r, h)).isSome = true
  | [], _, _, _, _, _, _ => rfl
  | i :: turns, h, r, hn, hs, hprompt, hw => by
    obtain ⟨hnot, hn⟩ := List.nodup_cons.1 hn
    by_cases hi : i = id
    · subst hi
      obtain ⟨⟨r', w'⟩, hq'⟩ := Option.isSome_iff_exists.1 hq
      have hup : h.Later (· ≠ i) k (h.update i w w') := later_update hs hw (absurd rfl)
      rw [takeTurns_self hw, hq', Option.bind_some, takeTurns_others hnot, Option.isSome_map]
      exact isSome_workEach (p := (· ≠ i)) (hup.sorted hs) (fun j hj he => hnot (he ▸ hj))
        (hup.all Worker.Later.prompt hprompt)
    · have hwork : (h.work 0 n i).isSome = true := isSome_work (hprompt i hi)
      obtain ⟨h₁, hd⟩ := Option.isSome_iff_exists.1 hwork
      obtain ⟨hl₁, -, ho₁⟩ :=
        work_spec (p := (· ≠ id)) hs (fun w hw => (hprompt i hi w hw).fit) hd
      rw [takeTurns_other hi, hd]
      exact isSome_takeTurns hq hn (hl₁.sorted hs) (hl₁.all Worker.Later.prompt hprompt)
        ((ho₁ id (Ne.symm hi)).trans hw)

/-- The turns that workers take when one is asked. -/
def turnsFor (id : String) (h : Host) : List String :=
  if h.ready.contains id then h.ready else h.ready ++ [id]

theorem mem_turnsFor {i : String} : i ∈ h.turnsFor id ↔ i ∈ h.ready ∨ i = id := by
  unfold turnsFor
  split
  · rename_i hc
    exact ⟨.inl, fun hi => hi.elim (fun hi => hi) fun hi => hi ▸ List.contains_iff_mem.1 hc⟩
  · rw [List.mem_append, List.mem_singleton]

theorem nodup_concat {is : List String} (hn : is.Nodup) (hid : id ∉ is) : (is ++ [id]).Nodup := by
  refine List.nodup_append.2 ⟨hn, List.pairwise_singleton .., fun a ha b hb he => ?_⟩
  obtain rfl := List.mem_singleton.1 hb
  exact hid (he ▸ ha)

theorem nodup_turnsFor (hn : h.ready.Nodup) : (h.turnsFor id).Nodup := by
  unfold turnsFor
  split
  · exact hn
  · rename_i hc
    exact nodup_concat hn fun hm => hc (List.contains_iff_mem.2 hm)

theorem ask_eq (hw : Dict.get? id h.workers = some w) : h.ask id question n =
    (h.makeRoom id w n).bind fun h =>
      takeTurns id question n (h.turnsFor id)
        (.error (.instanceNotFound id), { h with ready := [] }) := by
  rw [ask, hw, makeRoom]
  dsimp only
  split <;> rfl

/-- A worker that is asked has only worked since, and so have all others afterwards. -/
theorem ask_spec (hs : (Dict.keys h.workers).Pairwise (· < ·)) (hn : h.ready.Nodup)
    (hfit : ∀ i w, Dict.get? i h.workers = some w → w.Fit fixed n k)
    (hw : Dict.get? id h.workers = some w) (ha : h.ask id question n = some (r, h')) :
    ∃ u w', w.Later k u ∧ question u = some (r, w') ∧ Dict.get? id h'.workers = some w' ∧
      h.Later (· ≠ id) k h' ∧ h'.ready = [] := by
  rw [ask_eq hw] at ha
  obtain ⟨h₁, h₁d, ht⟩ := Option.bind_eq_some_iff.1 ha
  obtain ⟨hl₁, hn₁, -⟩ := makeRoom_spec hs hn hfit h₁d
  obtain ⟨u, hu, hlater⟩ := hl₁.fore trivial hw
  obtain ⟨w', hq, hw', hl, hr⟩ := takeTurns_spec (h := { h₁ with ready := [] })
    (nodup_turnsFor hn₁) (mem_turnsFor.2 (.inr rfl))
    (hl₁.sorted hs) (fun i _ => hl₁.all Worker.Later.fit (fun i _ => hfit i) i trivial) hu ht
  have hl' : h₁.Later (· ≠ id) k h' := ⟨hl.settings, hl.registry, hl.supply, hl.keys, hl.workers⟩
  exact ⟨u, w', hlater, hq, hw', (hl₁.mono fun _ _ => trivial).trans hl', hr⟩

theorem isSome_ask (hs : (Dict.keys h.workers).Pairwise (· < ·)) (hn : h.ready.Nodup)
    (hprompt : ∀ i w, Dict.get? i h.workers = some w → w.Prompt fixed n k)
    (hw : Dict.get? id h.workers = some w)
    (hq : ∀ u, w.Later k u → (question u).isSome = true) : (h.ask id question n).isSome = true := by
  rw [ask_eq hw]
  have hroom : (h.makeRoom id w n).isSome = true := isSome_makeRoom hs hprompt
  obtain ⟨h₁, h₁d⟩ := Option.isSome_iff_exists.1 hroom
  obtain ⟨hl₁, hn₁, -⟩ := makeRoom_spec hs hn (fun i w hw => (hprompt i w hw).fit) h₁d
  obtain ⟨u, hu, hlater⟩ := hl₁.fore trivial hw
  rw [h₁d, Option.bind_some]
  exact isSome_takeTurns (h := { h₁ with ready := [] }) (hq u hlater) (nodup_turnsFor hn₁)
    (hl₁.sorted hs) (fun i _ => hl₁.all Worker.Later.prompt (fun i _ => hprompt i) i trivial) hu

end Asking

/-! ### The one who is told -/

section Telling

variable {e : Event} {r : Except HostError Unit}

theorem send_eq (hw : Dict.get? id h.workers = some w) : h.send id e n =
    (h.makeRoom id w n).bind fun h =>
      match Dict.get? id h.workers with
      | none => some (.error (.instanceNotFound id), h)
      | some w => (w.send e n).map fun x =>
        (x.1, { h.update id w x.2 with ready := h.turnsFor id }) := by
  have hmap {h : Host} {w : Worker} : (w.send e n).map (fun x =>
      (x.1, { h.update id w x.2 with ready := h.turnsFor id })) = (w.send e n).bind fun x =>
        some (x.1, { h.update id w x.2 with ready := h.turnsFor id }) := Option.map_eq_bind
  simp only [hmap]
  rw [send, hw, makeRoom]
  dsimp only
  split <;> rfl

/-- A worker that is told something has only worked since, and has one more event that waits. -/
theorem send_spec (hs : (Dict.keys h.workers).Pairwise (· < ·)) (hn : h.ready.Nodup)
    (hfit : ∀ i w, Dict.get? i h.workers = some w → w.Fit fixed n k)
    (hw : Dict.get? id h.workers = some w) (hsound : w.Sound fixed id)
    (ha : h.send id e n = some (r, h')) :
    r = .ok () ∧ ∃ u, w.Later k u ∧ Dict.get? id h'.workers = some (u.told e) ∧
      h.Later (· ≠ id) k h' ∧ h'.ready.Nodup ∧ ∀ i ∈ h'.ready, i ∈ h.ready ∨ i = id := by
  rw [send_eq hw] at ha
  obtain ⟨h₁, h₁d, ht⟩ := Option.bind_eq_some_iff.1 ha
  obtain ⟨hl₁, hn₁, hsub⟩ := makeRoom_spec hs hn hfit h₁d
  obtain ⟨w₁, hw₁, hlater₁⟩ := hl₁.fore trivial hw
  rw [hw₁] at ht
  obtain ⟨⟨r', w'⟩, hsend, heq⟩ := Option.map_eq_some_iff.1 ht
  cases heq
  obtain ⟨rfl, u, hlater, rfl⟩ := Worker.send_spec (hlater₁.sound hsound) hsend
    (hlater₁.fit (hfit id w hw)).2
  have hup : h₁.Later (· ≠ id) k (h₁.update id w₁ (u.told e)) :=
    later_update (hl₁.sorted hs) hw₁ (absurd rfl)
  refine ⟨rfl, u, hlater₁.trans hlater, Dict.get?_insert_self .., (hl₁.mono fun _ _ => trivial).trans
    ⟨hup.settings, hup.registry, hup.supply, hup.keys, hup.workers⟩, (nodup_turnsFor hn₁),
    fun i hi => ?_⟩
  exact (mem_turnsFor.1 hi).imp_left (hsub i)

theorem isSome_send (hs : (Dict.keys h.workers).Pairwise (· < ·)) (hn : h.ready.Nodup)
    (hprompt : ∀ i w, Dict.get? i h.workers = some w → w.Prompt fixed n k)
    (hw : Dict.get? id h.workers = some w) (hsound : w.Sound fixed id) :
    (h.send id e n).isSome = true := by
  rw [send_eq hw]
  have hroom : (h.makeRoom id w n).isSome = true := isSome_makeRoom hs hprompt
  obtain ⟨h₁, h₁d⟩ := Option.isSome_iff_exists.1 hroom
  obtain ⟨hl₁, -, -⟩ := makeRoom_spec hs hn (fun i w hw => (hprompt i w hw).fit) h₁d
  obtain ⟨w₁, hw₁, hlater₁⟩ := hl₁.fore trivial hw
  obtain ⟨-, hfuture, hlt⟩ := hlater₁.prompt (hprompt id w hw)
  obtain ⟨m, hm⟩ := Option.isSome_iff_exists.1 hfuture
  rw [h₁d, Option.bind_some, hw₁, Option.isSome_map]
  exact Worker.isSome_send (hlater₁.sound hsound) hm hlt

end Telling

end Host
end Statechart
