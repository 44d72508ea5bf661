import Statechart.Proofs.Handover
import Statechart.Proofs.Refinement

/-! What is answered about one machine.

    The machine of a name is started on the chart that is found, and from then on it meets only what is
    sent to it. So what a fleet answers about it depends on nothing else: two fleets that are asked the
    same about it give the same answers, whatever they are asked about the others in between. What a
    machine is given from outside is the name of its session, which its content can read, and the
    time. -/

namespace Statechart

/-- What of a request matters to the machine of a name: of a start, the chart that is found. -/
inductive Concern where
  | start (found : Except HostError Chart)
  | send (e : Event)
  | status
  | snapshot
  | stop
  | shutdown

namespace Request

/-- What of a request matters to the machine of a name. -/
def concern? (id : String) (registry : Registry) : Request → Option Concern
  | .put .. | .ids => none
  | .start i chart version => if i = id then some (.start (registry.get chart version)) else none
  | .send i e => if i = id then some (.send e) else none
  | .status i => if i = id then some .status else none
  | .snapshot i => if i = id then some .snapshot else none
  | .stop i => if i = id then some .stop else none
  | .shutdown => some .shutdown

/-- What is registered after a request. -/
def registered (registry : Registry) : Request → Registry
  | .put name version definition => (registry.enter name version definition).2
  | _ => registry

/-- What matters to the machine of a name, of one request after the other. -/
def concerns (id : String) : Registry → List Request → List Concern
  | _, [] => []
  | registry, r :: rs => (r.concern? id registry).toList ++ concerns id (r.registered registry) rs

/-- The answers to what matters to the machine of a name. -/
def answersFor (id : String) (as : List (Request × Answer)) : List Answer :=
  as.filterMap fun x => (x.1.concern? id []).map fun _ => x.2

/-- The session that was started under a name, if one was. -/
def session? (id : String) : Request × Answer → Option String
  | (.start i .., .status (.ok s)) => if i = id then some s.sessionId else none
  | _ => none

/-- The sessions that were started under a name. -/
def sessionsFor (id : String) (as : List (Request × Answer)) : List String :=
  as.filterMap (session? id)

/-- A request that matters to the machine of a name, and what of it matters. -/
inductive About (id : String) (registry : Registry) : Request → Concern → Prop where
  | start {chart : String} {version : Nat} {found : Except HostError Chart}
      (h : registry.get chart version = found) :
    About id registry (.start id chart version) (.start found)
  | send (e : Event) : About id registry (.send id e) (.send e)
  | status : About id registry (.status id) .status
  | snapshot : About id registry (.snapshot id) .snapshot
  | stop : About id registry (.stop id) .stop
  | shutdown : About id registry .shutdown .shutdown

variable {id : String} {registry registry' : Registry} {r : Request} {q : Concern} {a : Answer}
  {rs : List Request} {as : List (Request × Answer)}

theorem about_of_concern? (h : r.concern? id registry = some q) : About id registry r q := by
  cases r with
  | put | ids => cases h
  | shutdown =>
    cases h
    exact .shutdown
  | start i chart version =>
    rw [concern?, Option.ite_none_right_eq_some] at h
    obtain ⟨rfl, h⟩ := h
    cases h
    exact .start rfl
  | send i | status i | snapshot i | stop i =>
    rw [concern?, Option.ite_none_right_eq_some] at h
    obtain ⟨rfl, h⟩ := h
    cases h
    constructor

theorem ne_of_none {i : String} (h : (if i = id then some q else none) = none) : id ≠ i := by
  rintro rfl
  rw [if_pos rfl] at h
  cases h

/-- Whether a request matters to a machine does not depend on what is registered. -/
theorem isSome_concern? (registry registry' : Registry) :
    (r.concern? id registry).isSome = (r.concern? id registry').isSome := by
  cases r with
  | start =>
    rw [concern?, concern?]
    split <;> rfl
  | _ => rfl

theorem concerns_of_none (h : r.concern? id registry = none) :
    concerns id registry (r :: rs) = concerns id (r.registered registry) rs := by
  rw [concerns, h]
  rfl

theorem concerns_of_some (h : r.concern? id registry = some q) :
    concerns id registry (r :: rs) = q :: concerns id (r.registered registry) rs := by
  rw [concerns, h]
  rfl

theorem answersFor_of_none (h : r.concern? id registry = none) :
    answersFor id ((r, a) :: as) = answersFor id as := by
  have hnone : r.concern? id [] = none := by
    rw [← Option.isNone_iff_eq_none, ← Option.not_isSome, isSome_concern? [] registry, h]
    rfl
  rw [answersFor, List.filterMap_cons_none (by rw [hnone]; rfl)]
  rfl

theorem answersFor_of_some (h : r.concern? id registry = some q) :
    answersFor id ((r, a) :: as) = a :: answersFor id as := by
  obtain ⟨q', hq'⟩ : ∃ q', r.concern? id [] = some q' := by
    rw [← Option.isSome_iff_exists, isSome_concern? [] registry, h]
    rfl
  rw [answersFor, List.filterMap_cons_some (by rw [hq']; rfl)]
  rfl

theorem session?_of_none (h : r.concern? id registry = none) : session? id (r, a) = none := by
  unfold session?
  split
  · rename_i heq
    cases heq
    rw [concern?] at h
    split at h
    · cases h
    · rename_i hi
      exact if_neg hi
  · rfl

theorem sessionsFor_cons {x x' : Request × Answer} {as' : List (Request × Answer)}
    (hsome : (session? id x').isSome = (session? id x).isSome)
    (h : sessionsFor id (x' :: as') = sessionsFor id (x :: as)) :
    session? id x' = session? id x ∧ sessionsFor id as' = sessionsFor id as := by
  unfold sessionsFor at h ⊢
  rw [List.filterMap_cons, List.filterMap_cons] at h
  cases hx : session? id x <;> cases hx' : session? id x' <;> rw [hx, hx'] at hsome h
  · exact ⟨rfl, h⟩
  · cases hsome
  · cases hsome
  · rw [List.cons.injEq] at h
    exact ⟨congrArg some h.1, h.2⟩

end Request

/-! ### Machines that do the same -/

namespace Machine

variable {m m' u u' : Machine} {e : Event} {n n' : Nat}

/-- A session that has written and delivered nothing. -/
def blank : Session := .fresh none (.ofSeed 0 0)

/-- Whether two machines hold the same and have written and delivered the same. -/
def Twin (m m' : Machine) : Prop := Abreast blank blank m m'

theorem delivered_blank : Delivered blank := fun _ hd => absurd hd List.not_mem_nil

namespace Twin

theorem statusAs (h : m.Twin m') (id : String) : m'.statusAs id = m.statusAs id := by
  have hs := h.session
  simp only [Machine.statusAs, Machine.running, leafNames, activeNames, hs.store, hs.running, hs.chart]

theorem snapshot (h : m.Twin m') : m'.snapshot = m.snapshot := by
  have hs := h.session
  simp only [Machine.snapshot, Machine.running, hs.store, hs.running, hs.chart]

/-- Two machines that do the same work off an event in the same way, however long each is given. -/
theorem trigger (h : m.Twin m') (hm : (m.trigger e n).map Prod.fst = some u)
    (hm' : (m'.trigger e n').map Prod.fst = some u') : u.Twin u' := by
  obtain ⟨⟨u, error⟩, hu, rfl⟩ := Option.map_eq_some_iff.1 hm
  obtain ⟨⟨u', error'⟩, hu', rfl⟩ := Option.map_eq_some_iff.1 hm'
  have hsame : (m.enqueue e).Twin (m'.enqueue e) := ⟨h.session, congrArg (EventQueue.push e) h.inbox⟩
  have hrel := hsame.triggerEvents delivered_blank delivered_blank (max n n')
  rw [triggerEvents_of_le (Nat.le_max_left n n') hu,
    triggerEvents_of_le (Nat.le_max_right n n') hu'] at hrel
  cases hrel with
  | some h => exact h

theorem halted (h : m.Twin m') (hm : m.halted n = some u) (hm' : m'.halted n' = some u') :
    u.Twin u' := by
  have hrunning : m'.running = m.running := h.session.running
  unfold Machine.halted at hm hm'
  rw [hrunning] at hm'
  split at hm
  · rename_i hr
    rw [if_pos hr] at hm'
    exact h.trigger hm hm'
  · rename_i hr
    rw [if_neg hr] at hm'
    cases hm
    cases hm'
    exact h

end Twin
end Machine

namespace Fleet

open Request

variable {fixed : (Nat → String) × Int} {c : Chart} {k k' n n' : Nat} {f f' g g' : Fleet} {id : String}
  {m m' : Machine} {e e' : Option MachineError}

/-! ### Machines that start on the same chart -/

theorem chart_engine (f : Fleet) : (f.engine c).session.chart = some c := by
  unfold engine
  dsimp only
  split <;> rfl

theorem restart_engine (hc : c.Compiles) (hf : f.supply.fixed = fixed) :
    (f.engine c).session.restart c = { (f.engine c).session with
      queue := []
      store := .start c f.supply.nextSession.1 f.supply.now
      initialized := true
      running := true
      supply := f.supply.nextSession.2 } := by
  have hlone : ({ (f.engine c).session with running := false } : Session).Lone fixed :=
    (f.alone_engine hc hf).lone.congr rfl rfl rfl rfl
  rw [Session.restart, hlone.cancelAll, engine]
  dsimp only
  split <;> rfl

theorem abreast_restart (hc : c.Compiles) (hf : f.supply.fixed = fixed) (hg : g.supply.fixed = fixed)
    (hsettings : g.settings = f.settings) (hname : g.supply.nextSession.1 = f.supply.nextSession.1) :
    Session.Abreast Machine.blank Machine.blank ((f.engine c).session.restart c)
      ((g.engine c).session.restart c) := by
  have hfixed : g.supply.fixed = f.supply.fixed := hg.trans hf.symm
  have hnow : g.supply.now = f.supply.now := congrArg Prod.snd hfixed
  rw [restart_engine hc hf, restart_engine hc hg, hname, hnow, engine, engine, hsettings]
  dsimp only
  split <;> exact ⟨rfl, rfl, rfl, rfl, rfl, rfl, rfl, rfl, rfl, rfl, ⟨[], rfl, rfl⟩, ⟨[], rfl, rfl⟩,
    congrFun (congrArg Prod.fst hfixed), nofun, nofun⟩

/-- A machine that is started runs under the next name. -/
theorem go_engine (hc : c.Compiles) (hf : f.supply.fixed = fixed) (h : (f.engine c).go n = some (m, e)) :
    e = none ∧ m.session.store.sessionId = f.supply.nextSession.1 := by
  obtain ⟨name, version, d, hcompile⟩ := hc
  rw [Machine.go_eq (chart_engine f)] at h
  obtain ⟨s, hs, heq⟩ := Option.map_eq_some_iff.1 h
  cases heq
  have hakin := Session.akin_firstStep (Chart.wellFormed_of_compile hcompile) hs
  rw [restart_engine ⟨name, version, d, hcompile⟩ hf] at hakin
  rw [Machine.absorb_eq]
  exact ⟨rfl, hakin.2⟩

/-- Machines that start on the same chart under the same name do the same. -/
theorem twin_go (hc : c.Compiles) (hf : f.supply.fixed = fixed) (hg : g.supply.fixed = fixed)
    (hsettings : g.settings = f.settings) (hm : (f.engine c).go n = some (m, e))
    (hm' : (g.engine c).go n' = some (m', e'))
    (hname : m'.session.store.sessionId = m.session.store.sessionId) : m.Twin m' := by
  rw [(go_engine hc hf hm).2, (go_engine hc hg hm').2] at hname
  have hrel := (abreast_restart hc hf hg hsettings hname).takeAndSettle (c := c) (max n n') none
    [c.initial]
  rw [Machine.go_eq (chart_engine f)] at hm
  rw [Machine.go_eq (chart_engine g)] at hm'
  obtain ⟨s, hs, heq⟩ := Option.map_eq_some_iff.1 hm
  cases heq
  obtain ⟨s', hs', heq⟩ := Option.map_eq_some_iff.1 hm'
  cases heq
  obtain ⟨t, ht, rfl⟩ := Option.map_eq_some_iff.1 (Session.firstStep_of_le (Nat.le_max_left n n') hs)
  obtain ⟨t', ht', rfl⟩ := Option.map_eq_some_iff.1 (Session.firstStep_of_le (Nat.le_max_right n n') hs')
  rw [ht, ht'] at hrel
  cases hrel with
  | some h =>
    exact Machine.Abreast.absorb Machine.delivered_blank Machine.delivered_blank ⟨h.finalStep, rfl⟩

/-! ### What a request leaves as it is -/

/-- Whether every chart is one that a definition compiles to, and what stays of the supply. -/
structure Sound (fixed : (Nat → String) × Int) (f : Fleet) : Prop where
  compiles : ∀ name version c, f.registry.get name version = .ok c → c.Compiles
  fixed_eq : f.supply.fixed = fixed

/-- Whether a fleet is what a request may make of another: no machine that the request does not matter to
    is another one. -/
structure After (r : Request) (f f' : Fleet) : Prop where
  settings : f'.settings = f.settings
  registry : f'.registry = r.registered f.registry
  fixed_eq : f'.supply.fixed = f.supply.fixed
  others : ∀ id registry, r.concern? id registry = none →
    Dict.get? id f'.machines = Dict.get? id f.machines

/-- The outcomes of a start on a chart that was found or not. -/
inductive Started (id : String) (f : Fleet) :
    Except HostError Chart → Except HostError Status → Fleet → Prop where
  | missing {e : HostError} : Started id f (.error e) (.error e) f
  | taken {c : Chart} (h : Dict.has id f.machines = true) :
    Started id f (.ok c) (.error (.instanceExists id)) f
  | new {c : Chart} {m : Machine} {n : Nat} (hc : c.Compiles) (h : Dict.has id f.machines = false)
      (hgo : (f.engine c).go n = some (m, none)) :
    Started id f (.ok c) (.ok (m.statusAs id)) { f with
      machines := Dict.insert id (some m) f.machines
      supply := m.session.supply }

theorem started_of_start {chart : String} {version : Nat} {b : Except HostError Status}
    (hs : f.Sound fixed) (h : f.start id chart version k = some (b, f')) :
    Started id f (f.registry.get chart version) b f' := by
  unfold start at h
  split at h
  · rename_i hget
    cases h
    exact hget ▸ .missing
  · rename_i c hget
    have hc := hs.compiles _ _ _ hget
    rw [hget]
    split at h
    · rename_i hhas
      cases h
      exact .taken hhas
    · rename_i hhas
      obtain ⟨⟨m, error⟩, hgo, heq⟩ := Option.map_eq_some_iff.1 h
      cases (go_engine hc hs.fixed_eq hgo).1
      cases heq
      exact .new hc (Bool.eq_false_iff.2 hhas) hgo

theorem after_reply {r : Request} {a : Answer} (hs : f.Sound fixed) (h : f.reply k r = some (a, f')) :
    After r f f' := by
  cases replied_of_reply h with
  | put | ids => exact ⟨rfl, rfl, rfl, fun _ _ _ => rfl⟩
  | @start i chart version _ _ h =>
    generalize hfound : f.registry.get chart version = found
    have hst := started_of_start hs h
    rw [hfound] at hst
    cases hst with
    | missing | taken => exact ⟨rfl, rfl, rfl, fun _ _ _ => rfl⟩
    | new hc hnew hgo =>
      have hm := (f.alone_engine hc hs.fixed_eq).reset hgo
      exact ⟨rfl, rfl, hm.lone.supply.trans hs.fixed_eq.symm, fun id registry hid =>
        Dict.get?_insert_of_ne (ne_of_none hid) _ _⟩
  | send i e =>
    unfold send
    split
    · exact ⟨rfl, rfl, rfl, fun _ _ _ => rfl⟩
    · exact ⟨rfl, rfl, rfl, fun id registry hid => Dict.get?_insert_of_ne (ne_of_none hid) _ _⟩
  | status h | snapshot h =>
    cases eq_of_ask h
    exact ⟨rfl, rfl, rfl, fun _ _ _ => rfl⟩
  | stop h =>
    rw [eq_of_stop h]
    exact ⟨rfl, rfl, rfl, fun id registry hid => Dict.get?_erase_of_ne (ne_of_none hid) _⟩
  | shutdown h =>
    rw [eq_of_shutdown h]
    exact ⟨rfl, rfl, rfl, nofun⟩

theorem After.sound {r : Request} (h : After r f f') (hs : f.Sound fixed) : f'.Sound fixed := by
  refine ⟨?_, h.fixed_eq.trans hs.fixed_eq⟩
  rw [h.registry]
  cases r with
  | put => exact Registry.compiles_enter hs.compiles
  | _ => exact hs.compiles

/-! ### Two fleets that are asked the same about a machine -/

/-- Whether two fleets have a machine of a name that does the same, or neither has one. Nothing is said
    of a machine that never came to rest, since nothing more is answered about it. -/
structure Beside (id : String) (f g : Fleet) : Prop where
  settings : g.settings = f.settings
  taken : Dict.has id g.machines = Dict.has id f.machines
  twins : ∀ m m', Dict.get? id f.machines = some (some m) → Dict.get? id g.machines = some (some m') →
    m.Twin m'

namespace Beside

variable {a a' : Answer} {r r' : Request} {q : Concern}

/-- What matters to neither machine leaves them as they are. -/
theorem after (h : Beside id f g) {registry : Registry} (hr : r.concern? id registry = none)
    (hf : After r f f') : Beside id f' g where
  settings := h.settings.trans hf.settings.symm
  taken := by
    rw [h.taken, Dict.has, Dict.has, hf.others id registry hr]
  twins := by
    rw [hf.others id registry hr]
    exact h.twins

theorem symm_after (h : Beside id f g) {registry : Registry} (hr : r.concern? id registry = none)
    (hg : After r g g') : Beside id f g' where
  settings := hg.settings.trans h.settings
  taken := by
    rw [← h.taken, Dict.has, Dict.has, hg.others id registry hr]
  twins := by
    rw [hg.others id registry hr]
    exact h.twins

/-- There is a machine in both fleets or in neither. -/
theorem seats (h : Beside id f g) :
    Dict.get? id f.machines = none ∧ Dict.get? id g.machines = none ∨
      ∃ x y, Dict.get? id f.machines = some x ∧ Dict.get? id g.machines = some y := by
  have htaken := h.taken
  unfold Dict.has at htaken
  cases hx : Dict.get? id f.machines with
  | none =>
    rw [hx] at htaken
    exact .inl ⟨rfl, Option.isNone_iff_eq_none.1 (by rw [← Option.not_isSome, htaken]; rfl)⟩
  | some x =>
    rw [hx] at htaken
    obtain ⟨y, hy⟩ := Option.isSome_iff_exists.1 htaken
    exact .inr ⟨x, y, rfl, hy⟩

theorem ask {α : Type} {answer : Machine → Except HostError α} {b b' : Except HostError α}
    (h : Beside id f g) (hanswer : ∀ {m m' : Machine}, m.Twin m' → answer m' = answer m)
    (ha : f.ask id answer = some (b, f')) (ha' : g.ask id answer = some (b', g')) :
    b' = b ∧ Beside id f' g' := by
  cases eq_of_ask ha
  cases eq_of_ask ha'
  refine ⟨?_, h⟩
  unfold Fleet.ask at ha ha'
  obtain ⟨hx, hy⟩ | ⟨x, y, hx, hy⟩ := h.seats
  · rw [hx] at ha
    rw [hy] at ha'
    cases ha
    cases ha'
    rfl
  · rw [hx] at ha
    rw [hy] at ha'
    obtain ⟨m, rfl, heq⟩ := Option.map_eq_some_iff.1 ha
    cases heq
    obtain ⟨m', rfl, heq⟩ := Option.map_eq_some_iff.1 ha'
    cases heq
    exact hanswer (h.twins m m' hx hy)

theorem send (h : Beside id f g) (e : Event) (k k' : Nat) : (g.send id e k').1 = (f.send id e k).1 ∧
    Beside id (f.send id e k).2 (g.send id e k').2 := by
  unfold Fleet.send
  obtain ⟨hx, hy⟩ | ⟨x, y, hx, hy⟩ := h.seats
  · rw [hx, hy]
    exact ⟨rfl, h⟩
  · rw [hx, hy]
    refine ⟨rfl, h.settings, ?_, fun m m' hm hm' => ?_⟩
    · rw [Dict.has, Dict.has, Dict.get?_insert_self, Dict.get?_insert_self]
      rfl
    · rw [Dict.get?_insert_self, Option.some_inj] at hm hm'
      obtain ⟨u, rfl, hu⟩ := Option.bind_eq_some_iff.1 hm
      obtain ⟨u', rfl, hu'⟩ := Option.bind_eq_some_iff.1 hm'
      exact (h.twins u u' hx hy).trigger hu hu'

/-- Where there is no machine of a name, fleets with the same settings have the same. -/
theorem of_none (hsettings : g.settings = f.settings) (hf : Dict.get? id f.machines = none)
    (hg : Dict.get? id g.machines = none) : Beside id f g := by
  refine ⟨hsettings, by rw [Dict.has, Dict.has, hf, hg], fun m m' hm _ => ?_⟩
  rw [hf] at hm
  cases hm

theorem stop {b b' : Except HostError Status} (h : Beside id f g) (ha : f.stop id k = some (b, f'))
    (ha' : g.stop id k' = some (b', g')) : b' = b ∧ Beside id f' g' := by
  refine ⟨?_, ?_⟩
  · unfold Fleet.stop at ha ha'
    obtain ⟨hx, hy⟩ | ⟨x, y, hx, hy⟩ := h.seats
    · rw [hx] at ha
      rw [hy] at ha'
      cases ha
      cases ha'
      rfl
    · rw [hx] at ha
      rw [hy] at ha'
      obtain ⟨u, hu, heq⟩ := Option.map_eq_some_iff.1 ha
      cases heq
      obtain ⟨u', hu', heq⟩ := Option.map_eq_some_iff.1 ha'
      cases heq
      obtain ⟨m, rfl, hm⟩ := Option.bind_eq_some_iff.1 hu
      obtain ⟨m', rfl, hm'⟩ := Option.bind_eq_some_iff.1 hu'
      rw [((h.twins m m' hx hy).halted hm hm').statusAs]
  · rw [eq_of_stop ha, eq_of_stop ha']
    exact of_none h.settings (Dict.get?_erase_self ..) (Dict.get?_erase_self ..)

/-- Two starts on the same chart either both bring a session into being or neither does. -/
theorem start {found : Except HostError Chart} {b b' : Except HostError Status}
    {chart chart' : String} {version version' : Nat} (hf : f.Sound fixed) (hg : g.Sound fixed)
    (h : Beside id f g) (ha : Started id f found b f') (ha' : Started id g found b' g') :
    (session? id (.start id chart' version', .status b')).isSome =
        (session? id (.start id chart version, .status b)).isSome ∧
      (session? id (.start id chart' version', .status b') =
        session? id (.start id chart version, .status b) → b' = b ∧ Beside id f' g') := by
  cases ha with
  | missing =>
    cases ha'
    exact ⟨rfl, fun _ => ⟨rfl, h⟩⟩
  | taken hhas =>
    cases ha' with
    | taken => exact ⟨rfl, fun _ => ⟨rfl, h⟩⟩
    | new hc hnew hgo => rw [h.taken, hhas] at hnew; cases hnew
  | new hc hnew hgo =>
    cases ha' with
    | taken hhas => rw [h.taken, hnew] at hhas; cases hhas
    | new _ hnew' hgo' =>
      simp only [session?, if_pos]
      refine ⟨rfl, fun hname => ?_⟩
      have htwin := twin_go hc hf.fixed_eq hg.fixed_eq h.settings hgo hgo' (Option.some_inj.1 hname)
      refine ⟨by rw [htwin.statusAs], h.settings, ?_, fun m m' hm hm' => ?_⟩
      · rw [Dict.has, Dict.has, Dict.get?_insert_self, Dict.get?_insert_self]
        rfl
      · rw [Dict.get?_insert_self, Option.some_inj, Option.some_inj] at hm hm'
        exact hm ▸ hm' ▸ htwin

/-- What is asked about a machine is answered in the same way, if the sessions have the same names. -/
theorem reply (hf : f.Sound fixed) (hg : g.Sound fixed) (h : Beside id f g)
    (hr : About id f.registry r q) (hr' : About id g.registry r' q)
    (ha : f.reply k r = some (a, f')) (ha' : g.reply k' r' = some (a', g')) :
    (session? id (r', a')).isSome = (session? id (r, a)).isSome ∧
      (session? id (r', a') = session? id (r, a) → a' = a ∧ Beside id f' g') := by
  cases hr with
  | start hfound =>
    cases hr' with
    | start hfound' =>
      cases replied_of_reply ha with | start ha =>
      cases replied_of_reply ha' with | start ha' =>
      obtain ⟨hsome, hsame⟩ := h.start hf hg (hfound ▸ started_of_start hf ha)
        (hfound' ▸ started_of_start hg ha')
      refine ⟨hsome, fun hname => ?_⟩
      obtain ⟨rfl, hbeside⟩ := hsame hname
      exact ⟨rfl, hbeside⟩
  | send e =>
    cases hr'
    cases replied_of_reply ha
    cases replied_of_reply ha'
    obtain ⟨hsame, hbeside⟩ := h.send e k k'
    exact ⟨rfl, fun _ => ⟨congrArg Answer.sent hsame, hbeside⟩⟩
  | status =>
    cases hr'
    cases replied_of_reply ha with | status ha =>
    cases replied_of_reply ha' with | status ha' =>
    obtain ⟨rfl, hbeside⟩ := h.ask (fun htwin => by rw [htwin.statusAs]) ha ha'
    exact ⟨rfl, fun _ => ⟨rfl, hbeside⟩⟩
  | snapshot =>
    cases hr'
    cases replied_of_reply ha with | snapshot ha =>
    cases replied_of_reply ha' with | snapshot ha' =>
    obtain ⟨rfl, hbeside⟩ := h.ask (fun htwin => by rw [htwin.snapshot]) ha ha'
    exact ⟨rfl, fun _ => ⟨rfl, hbeside⟩⟩
  | stop =>
    cases hr'
    cases replied_of_reply ha with | stop ha =>
    cases replied_of_reply ha' with | stop ha' =>
    obtain ⟨rfl, hbeside⟩ := h.stop ha ha'
    exact ⟨rfl, fun _ => ⟨rfl, hbeside⟩⟩
  | shutdown =>
    cases hr'
    cases replied_of_reply ha with | shutdown ha =>
    cases replied_of_reply ha' with | shutdown ha' =>
    rw [eq_of_shutdown ha, eq_of_shutdown ha']
    exact ⟨rfl, fun _ => ⟨rfl, of_none h.settings rfl rfl⟩⟩

end Beside

/-! ### One request after the other -/

theorem play_cons {r : Request} {rs : List Request} {as : List (Request × Answer)}
    (h : f.play k (r :: rs) = some (as, f')) : ∃ a f₁ rest, f.reply k r = some (a, f₁) ∧
      f₁.play k rs = some (rest, f') ∧ as = (r, a) :: rest := by
  obtain ⟨⟨a, f₁⟩, h₁, h⟩ := Option.bind_eq_some_iff.1 h
  obtain ⟨⟨rest, f₂⟩, h₂, heq⟩ := Option.map_eq_some_iff.1 h
  cases heq
  exact ⟨a, f₁, rest, h₁, h₂, rfl⟩

/-- A request that does not matter to a machine is one that might as well not be there. -/
theorem skip {r : Request} {rs : List Request} {as : List (Request × Answer)} (hs : f.Sound fixed)
    (hr : r.concern? id f.registry = none) (h : f.play k (r :: rs) = some (as, f')) :
    ∃ f₁ rest, After r f f₁ ∧ f₁.play k rs = some (rest, f') ∧
      concerns id f.registry (r :: rs) = concerns id f₁.registry rs ∧
      answersFor id as = answersFor id rest ∧ sessionsFor id as = sessionsFor id rest := by
  obtain ⟨a, f₁, rest, h₁, h₂, rfl⟩ := play_cons h
  have hafter := after_reply hs h₁
  refine ⟨f₁, rest, hafter, h₂, ?_, answersFor_of_none hr, ?_⟩
  · rw [concerns_of_none hr, hafter.registry]
  · rw [sessionsFor, List.filterMap_cons_none (session?_of_none hr)]
    rfl

/-- Two requests of which the same matters to a machine are answered in the same way. -/
theorem meet {r r' : Request} {q : Concern} {rs rs' : List Request} {as as' : List (Request × Answer)}
    (hf : f.Sound fixed) (hg : g.Sound fixed) (hb : Beside id f g)
    (hr : r.concern? id f.registry = some q) (hr' : r'.concern? id g.registry = some q)
    (h : f.play k (r :: rs) = some (as, f')) (h' : g.play k' (r' :: rs') = some (as', g'))
    (hn : sessionsFor id as' = sessionsFor id as) :
    ∃ f₁ g₁ a rest rest', After r f f₁ ∧ After r' g g₁ ∧ f₁.play k rs = some (rest, f') ∧
      g₁.play k' rs' = some (rest', g') ∧ Beside id f₁ g₁ ∧
      sessionsFor id rest' = sessionsFor id rest ∧ answersFor id as = a :: answersFor id rest ∧
      answersFor id as' = a :: answersFor id rest' := by
  obtain ⟨a, f₁, rest, h₁, h₂, rfl⟩ := play_cons h
  obtain ⟨a', g₁, rest', h₁', h₂', rfl⟩ := play_cons h'
  obtain ⟨hsome, hsame⟩ := hb.reply hf hg (about_of_concern? hr) (about_of_concern? hr') h₁ h₁'
  obtain ⟨hname, hns⟩ := sessionsFor_cons hsome hn
  obtain ⟨rfl, hb⟩ := hsame hname
  exact ⟨f₁, g₁, a', rest, rest', after_reply hf h₁, after_reply hg h₁', h₂, h₂', hb, hns,
    answersFor_of_some hr, answersFor_of_some hr'⟩

/-- What two fleets answer about a machine is the same, if what they are asked about it is the same and
    its sessions have the same names. -/
theorem answersFor_eq {rs rs' : List Request} {f g f' g' : Fleet} {as as' : List (Request × Answer)}
    (hf : f.Sound fixed) (hg : g.Sound fixed) (hb : Beside id f g) (h : f.play k rs = some (as, f'))
    (h' : g.play k' rs' = some (as', g'))
    (hq : concerns id g.registry rs' = concerns id f.registry rs)
    (hn : sessionsFor id as' = sessionsFor id as) : answersFor id as' = answersFor id as := by
  -- What does not matter is skipped, on one side and on the other, until both have come to what does.
  cases rs with
  | nil =>
    cases rs' with
    | nil =>
      cases h
      cases h'
      rfl
    | cons r' rs' =>
      cases hr' : r'.concern? id g.registry with
      | none =>
        obtain ⟨g₁, rest, hafter, h', hqs, has, hns⟩ := skip hg hr' h'
        rw [has]
        exact answersFor_eq hf (hafter.sound hg) (hb.symm_after hr' hafter) h h' (hqs ▸ hq) (hns ▸ hn)
      | some q =>
        rw [concerns_of_some hr'] at hq
        cases hq
  | cons r rs =>
    cases hr : r.concern? id f.registry with
    | none =>
      obtain ⟨f₁, rest, hafter, h, hqs, has, hns⟩ := skip hf hr h
      rw [has]
      exact answersFor_eq (hafter.sound hf) hg (hb.after hr hafter) h h' (hqs ▸ hq) (hns ▸ hn)
    | some q =>
      cases rs' with
      | nil =>
        rw [concerns_of_some hr] at hq
        cases hq
      | cons r' rs' =>
        cases hr' : r'.concern? id g.registry with
        | none =>
          obtain ⟨g₁, rest, hafter, h', hqs, has, hns⟩ := skip hg hr' h'
          rw [has]
          exact answersFor_eq hf (hafter.sound hg) (hb.symm_after hr' hafter) h h' (hqs ▸ hq) (hns ▸ hn)
        | some q' =>
          rw [concerns_of_some hr, concerns_of_some hr', List.cons.injEq] at hq
          obtain ⟨rfl, hq⟩ := hq
          obtain ⟨f₁, g₁, a, rest, rest', hafter, hafter', h, h', hb, hns, has, has'⟩ :=
            meet hf hg hb hr hr' h h' hn
          rw [← hafter.registry, ← hafter'.registry] at hq
          rw [has, has', answersFor_eq (hafter.sound hf) (hafter'.sound hg) hb h h' hq hns]
termination_by rs.length + rs'.length

end Fleet

namespace Host

open Request

/-- A host answers like a fleet, whenever its workers get to what waits for them: where it answers, the
    fleet gives the same answers, and where the fleet answers and no machine runs for ever, so does the
    host. And what is answered about a machine depends only on what is asked about it, on the charts that
    its starts find, on the names of its sessions and on the time. -/
theorem play_like_fleet (settings : Settings) (supply : Supply) (os : List Occasion) :
    (∀ n as h, (Host.fresh settings supply).play n os = some (as, h) →
      (Fleet.fresh settings supply).play n (Occasion.calls os) = some (as, h.fleet n)) ∧
    (∀ k as f, (Fleet.fresh settings supply).play k (Occasion.calls os) = some (as, f) → f.Healthy →
      ∀ n, k + (Occasion.calls os).length < n →
        ∃ h, (Host.fresh settings supply).play n os = some (as, h) ∧ h.fleet k = f) ∧
    ∀ n as h, (Host.fresh settings supply).play n os = some (as, h) →
      ∀ supply' os' n' as' h', supply'.fixed = supply.fixed →
        (Host.fresh settings supply').play n' os' = some (as', h') →
        ∀ id, concerns id [] (Occasion.calls os') = concerns id [] (Occasion.calls os) →
          sessionsFor id as' = sessionsFor id as → answersFor id as' = answersFor id as := by
  have hlike {supply n os as h} (ha : (Host.fresh settings supply).play n os = some (as, h)) :
      (Fleet.fresh settings supply).play n (Occasion.calls os) = some (as, h.fleet n) :=
    (play_stands sound_fresh ha).1
  refine ⟨fun n as h => hlike, fun k as f hf hh n hlt => ?_, ?_⟩
  · have hb : (Host.fresh settings supply).Backlog 0 := fun _ _ hw => nomatch hw
    exact play_of_fleet hh sound_fresh hb hlt hf
  · intro n as h ha supply' os' n' as' h' hfixed ha' id hq hn
    have hs (supply : Supply) : (Fleet.fresh settings supply).Sound supply.fixed :=
      ⟨fun _ _ _ hget => (by cases hget), rfl⟩
    have hs' : (Fleet.fresh settings supply').Sound supply.fixed := hfixed ▸ hs supply'
    have hb : Fleet.Beside id (Fleet.fresh settings supply) (Fleet.fresh settings supply') :=
      .of_none rfl rfl rfl
    exact Fleet.answersFor_eq (hs supply) hs' hb (hlike ha) (hlike ha') hq hn

/-- A lamp on a desk and one in a hall. -/
def deskFirst : List Occasion := [
  .call (.put "lamp" 1 Session.lamp), .call (.start "desk" "lamp" 1),
  .call (.send "desk" (.signal "push")), .call (.start "hall" "lamp" 1), .work "desk" 1,
  .call (.send "hall" (.signal "push")), .call (.status "desk"), .call (.stop "desk"),
  .call (.status "desk"), .call .shutdown]

/-- The two lamps, the one in the hall first. -/
def hallFirst : List Occasion := [
  .call (.status "hall"), .call (.put "lamp" 1 Session.lamp), .call (.start "hall" "lamp" 1),
  .call (.start "desk" "lamp" 1), .call (.send "desk" (.signal "push")), .call (.stop "hall"),
  .call (.status "desk"), .call .ids, .call (.stop "desk"), .call (.status "desk"), .work "hall" 1,
  .call .shutdown]

/-- Names in another order: the second is the one that a supply counting up from zero gives out first. -/
def shifted : Supply :=
  { Supply.ofSeed 0 0 with sessionName := fun n => (Supply.ofSeed 0 0).sessionName (n - 1) }

theorem fixed_shifted : shifted.fixed = (Supply.ofSeed 0 0).fixed := by
  simp only [Supply.fixed, shifted]

/-- What a fleet with the lamps answers, and what becomes of it. -/
def answersDeskFirst : List (Request × Answer) × Fleet :=
  ((Fleet.fresh .default (.ofSeed 0 0)).play 10 (Occasion.calls deskFirst)).get (by decide +kernel)

/-- The same with the lamp in the hall first. -/
def answersHallFirst : List (Request × Answer) × Fleet :=
  ((Fleet.fresh .default shifted).play 10 (Occasion.calls hallFirst)).get (by decide +kernel)

/-- The lamp on the desk is what it is, whatever happens in the hall. -/
theorem play_lamps : ∃ h h',
    (Host.fresh .default (.ofSeed 0 0)).play 30 deskFirst = some (answersDeskFirst.1, h) ∧
    (Fleet.fresh .default (.ofSeed 0 0)).play 30 (Occasion.calls deskFirst) =
      some (answersDeskFirst.1, h.fleet 30) ∧
    (Host.fresh .default shifted).play 30 hallFirst = some (answersHallFirst.1, h') ∧
    answersFor "desk" answersHallFirst.1 = answersFor "desk" answersDeskFirst.1 ∧
    ((answersFor "desk" answersDeskFirst.1).filterMap fun
      | .status (.ok s) => some s.active
      | _ => none) = [["Off"], ["Dim", "Slow"], []] := by
  have hdesk : (Fleet.fresh .default (.ofSeed 0 0)).play 10 (Occasion.calls deskFirst) =
      some (answersDeskFirst.1, answersDeskFirst.2) := (Option.some_get _).symm
  have hhall : (Fleet.fresh .default shifted).play 10 (Occasion.calls hallFirst) =
      some (answersHallFirst.1, answersHallFirst.2) := (Option.some_get _).symm
  have hstopped : answersDeskFirst.2.machines = [] := List.isEmpty_iff.1 (by decide +kernel)
  have hstopped' : answersHallFirst.2.machines = [] := List.isEmpty_iff.1 (by decide +kernel)
  have healthy {f : Fleet} (hf : f.machines = []) : f.Healthy := by
    intro id hid
    rw [hf] at hid
    cases hid
  obtain ⟨hlike, hdone, hsame⟩ := play_like_fleet .default (.ofSeed 0 0) deskFirst
  obtain ⟨-, hdone', -⟩ := play_like_fleet .default shifted hallFirst
  obtain ⟨h, ha, -⟩ := hdone 10 _ _ hdesk (healthy hstopped) 30 (by decide)
  obtain ⟨h', ha', -⟩ := hdone' 10 _ _ hhall (healthy hstopped') 30 (by decide)
  have hconcerns : concerns "desk" [] (Occasion.calls hallFirst) =
      concerns "desk" [] (Occasion.calls deskFirst) := by
    simp only [hallFirst, deskFirst, Occasion.calls, List.filterMap_cons, List.filterMap_nil, concerns,
      registered]
    generalize (Registry.enter "lamp" 1 Session.lamp []).2 = registry
    simp [concern?]
  have hsessions : sessionsFor "desk" answersHallFirst.1 = sessionsFor "desk" answersDeskFirst.1 := by
    decide +kernel
  exact ⟨h, h', ha, hlike 30 _ h ha, ha',
    hsame 30 _ h ha shifted hallFirst 30 _ h' fixed_shifted ha' "desk" hconcerns hsessions,
    by decide +kernel⟩

end Host
end Statechart
