import Statechart.Proofs.RunTrace

/-! The lives of processes.

    What is done with the processes of one declaration is a row of lives, one after the other. Each is
    begun while none runs and ended at most once, by a call that stops it or by an event that says it is
    complete; after that nothing is done with it. A session that is started, or takes a store, begins a
    period with no process, and each period but the last ends with none. -/

namespace Statechart

namespace Deed

/-- Whether a deed starts a process of a declaration, or tries to. -/
def starts (i : InvokeId) : Deed → Bool
  | .began j _ _ _ => decide (j = i)
  | .refused j _ _ _ => decide (j = i)
  | _ => false

/-- Whether a deed has to do with a process of a declaration. -/
def concerns (i : InvokeId) : Deed → Bool
  | .began j _ _ _ => decide (j = i)
  | .refused j _ _ _ => decide (j = i)
  | .forwarded j _ _ => decide (j = i)
  | .stopped j _ => decide (j = i)
  | .completed j _ => decide (j = i)
  | _ => false

/-- The calls that a deed makes. -/
def calls : Deed → List (String × Call)
  | .began _ p source params => [(p.id, .start source params)]
  | .refused _ p source params => [(p.id, .start source params)]
  | .forwarded _ p e => [(p.id, .forward e)]
  | .stopped _ p => [(p.id, .stop)]
  | _ => []

end Deed

/-- The lives of the processes of a declaration, and the process that runs. -/
inductive Lives (i : InvokeId) : List Deed → Option Process → Prop where
  | none : Lives i [] none
  | refused {ds : List Deed} (h : Lives i ds none) (p : Process) (source : String) (params : Object) :
      Lives i (ds ++ [.refused i p source params]) none
  | began {ds : List Deed} (h : Lives i ds none) (p : Process) (source : String) (params : Object) :
      Lives i (ds ++ [.began i p source params]) (some p)
  | forwarded {ds : List Deed} {p : Process} (h : Lives i ds (some p)) (e : Event) :
      Lives i (ds ++ [.forwarded i p e]) (some p)
  | stopped {ds : List Deed} {p : Process} (h : Lives i ds (some p)) :
      Lives i (ds ++ [.stopped i p]) none
  | completed {ds : List Deed} {p : Process} (h : Lives i ds (some p)) :
      Lives i (ds ++ [.completed i p]) none

/-- From when a session is started, or takes a store, until its processes are gone: its chart, the
    states that are active from the outset, and what is done. -/
structure Period where
  chart : Chart
  opening : NodeSet
  deeds : List Deed

/-- The calls of a period. -/
def Period.calls (q : Period) : List (String × Call) := q.deeds.flatMap Deed.calls

/-- The call that an entry tells of. -/
def Entry.call? : Entry → Option (String × Call)
  | .called process call => some (process, call)
  | _ => none

namespace Session

variable {c : Chart} {s t u : Session} {x y z : Scene} {d : Deed} {as bs ds es : List Deed}
  {i : InvokeId} {p : Process} {source : String} {params : Object} {n : NodeId} {A : NodeSet}
  {q : Period} {qs : List Period}

/-- The calls so far. -/
def calls (s : Session) : List (String × Call) := s.journal.toList.filterMap Entry.call?

theorem filterMap_marks (ls : Listeners) (d : Deed) :
    (d.marks c ls).filterMap Entry.call? = d.calls := by
  have untold (ks : List Listener) (notice : Notice) :
      (ks.map fun k => Entry.noticed k notice).filterMap Entry.call? = [] := by
    refine List.filterMap_eq_nil_iff.2 fun e he => ?_
    obtain ⟨k, -, rfl⟩ := List.mem_map.1 he
    rfl
  cases d with
  | exited n => simp only [Deed.marks, Listeners.tell, List.filterMap_append, untold]; rfl
  | entered n => simp only [Deed.marks, Listeners.tell, List.filterMap_append, untold]; rfl
  | took i source target event =>
    simp only [Deed.marks, Listeners.tell, List.filterMap_append, untold]
    rfl
  | _ => rfl

/-- The journal tells of every call. -/
theorem calls_of_does (h : Does c x s ds y t) : t.calls = s.calls ++ ds.flatMap Deed.calls := by
  have hread := h.read (f := Entry.call?) fun e he => by
    cases e with
    | called process call => cases he
    | _ => rfl
  simp only [filterMap_marks] at hread
  exact hread

/-! ### One life after the other -/

theorem lives_of_turn (h : Turn c x d y) (hl : Lives i ds (Dict.get? i x.live)) :
    Lives i (ds ++ [d].filter (Deed.concerns i)) (Dict.get? i y.live) := by
  -- a deed with the processes of another declaration changes nothing for this one
  have other {live : Dict InvokeId Process} (hd : d.concerns i = false)
      (he : Dict.get? i live = Dict.get? i x.live) :
      Lives i (ds ++ [d].filter (Deed.concerns i)) (Dict.get? i live) := by
    rw [he, List.filter_cons_of_neg (by simp [hd]), List.filter_nil, List.append_nil]
    exact hl
  cases h with
  | @began j p source params hidle hfree howner =>
    by_cases e : j = i
    · subst e
      rw [Dict.get?_eq_none_iff.2 hfree] at hl
      rw [Dict.get?_insert_self]
      simpa [Deed.concerns] using hl.began p source params
    · exact other (by simp [Deed.concerns, e]) (Dict.get?_insert_of_ne (Ne.symm e) p x.live)
  | @refused j p source params hidle hfree howner =>
    by_cases e : j = i
    · subst e
      rw [Dict.get?_eq_none_iff.2 hfree] at hl ⊢
      simpa [Deed.concerns] using hl.refused p source params
    · exact other (by simp [Deed.concerns, e]) rfl
  | @forwarded j p e hlive hhand =>
    by_cases e' : j = i
    · subst e'
      rw [hlive] at hl ⊢
      simpa [Deed.concerns] using hl.forwarded e
    · exact other (by simp [Deed.concerns, e']) rfl
  | @stopped j p hlive hcause =>
    by_cases e : j = i
    · subst e
      rw [hlive] at hl
      rw [Dict.get?_erase_self]
      simpa [Deed.concerns] using hl.stopped
    · exact other (by simp [Deed.concerns, e]) (Dict.get?_erase_of_ne (Ne.symm e) x.live)
  | @completed j p e hlive hhand hdone =>
    by_cases e' : j = i
    · subst e'
      rw [hlive] at hl
      rw [Dict.get?_erase_self]
      simpa [Deed.concerns] using hl.completed
    · exact other (by simp [Deed.concerns, e']) (Dict.get?_erase_of_ne (Ne.symm e') x.live)
  | _ => exact other rfl rfl

theorem lives_of_turns : ∀ (ds : List Deed) {x : Scene} {as : List Deed}, Turns c x ds y →
    Lives i as (Dict.get? i x.live) →
    Lives i (as ++ ds.filter (Deed.concerns i)) (Dict.get? i y.live)
  | [], x, as, h, hl => by
    cases h
    simpa using hl
  | d :: ds, x, as, ⟨z, hd, hds⟩, hl => by
    have hone := lives_of_turns ds hds (lives_of_turn hd hl)
    rwa [List.append_assoc, ← List.filter_append, List.singleton_append] at hone

/-! ### What must have been done in between -/

/-- If something has become the case that only one deed brings about, that deed was done. -/
theorem mem_of_turns {P : Scene → Prop} {e : Deed}
    (h : ∀ {x d y}, Turn c x d y → ¬P x → P y → d = e) : ∀ (ds : List Deed) {x : Scene},
    Turns c x ds y → ¬P x → P y → e ∈ ds
  | [], x, hd, hx, hy => by
    cases hd
    exact absurd hy hx
  | d :: ds, x, ⟨z, hd, hds⟩, hx, hy => by
    by_cases hz : P z
    · exact h hd hx hz ▸ List.mem_cons_self
    · exact List.mem_cons_of_mem _ (mem_of_turns h ds hds hz hy)

theorem exited_of_turns (h : Turns c x ds y) (hx : n ∈ x.present) (hy : n ∉ y.present) :
    .exited n ∈ ds := by
  refine mem_of_turns (P := fun x => n ∉ x.present) (fun {x d y} h hx hy => ?_) ds h
    (not_not_intro hx) hy
  cases h with
  | @exited m hm hp =>
    by_cases e : n = m
    · rw [e]
    · exact absurd (fun hn => hy (NodeSet.mem_erase.2 ⟨hn, e⟩)) hx
  | entered hm hp => exact absurd (fun hn => hy (NodeSet.mem_insert.2 (.inr hn))) hx
  | _ => exact absurd hy hx

theorem entered_of_turns (h : Turns c x ds y) (hx : n ∉ x.present) (hy : n ∈ y.present) :
    .entered n ∈ ds := by
  refine mem_of_turns (P := fun x => n ∈ x.present) (fun {x d y} h hx hy => ?_) ds h hx hy
  cases h with
  | exited hm hp => exact absurd (NodeSet.mem_erase.1 hy).1 hx
  | @entered m hm hp =>
    rcases NodeSet.mem_insert.1 hy with e | hn
    · rw [e]
    · exact absurd hn hx
  | _ => exact absurd hy hx

theorem closed_of_turns (h : Turns c x ds y) (hx : x.closing = false) (hy : y.closing = true) :
    .closed ∈ ds := by
  refine mem_of_turns (P := fun x => x.closing = true) (fun {x d y} h hx hy => ?_) ds h (by simp [hx]) hy
  cases h with
  | closed => rfl
  | _ => exact absurd hy hx

theorem given_of_turns {e : Event} (h : Turns c x ds y) (hx : x.hand = none) (hy : y.hand = some e) :
    .given e ∈ ds := by
  refine mem_of_turns (P := fun x => x.hand = some e) (fun {x d y} h hx hy => ?_) ds h (by simp [hx]) hy
  cases h with
  | given e' =>
    cases hy
    rfl
  | told => cases hy
  | _ => exact absurd hy hx

theorem starts_of_turn (h : Turn c x d y) (hd : d.starts i = true) :
    (c.invoke i).owner ∈ x.present := by
  cases h with
  | began p source params hidle hfree howner =>
    simp only [Deed.starts, decide_eq_true_eq] at hd
    exact hd ▸ howner
  | refused p source params hidle hfree howner =>
    simp only [Deed.starts, decide_eq_true_eq] at hd
    exact hd ▸ howner
  | _ => cases hd

/-- What can be said of the deeds of a period, in terms of what is known at its end. A process is
    started only while its state is present; it is stopped only when its state was left or everything
    was to end, and completed only by an event from outside that says so, after its start. -/
structure Accounted (q : Period) (y : Scene) : Prop where
  turns : Turns q.chart (.opening q.opening) q.deeds y
  lives : ∀ i, Lives i (q.deeds.filter (Deed.concerns i)) (Dict.get? i y.live)
  opened : ∀ {as es d i}, q.deeds = as ++ d :: es → d.starts i = true →
    (q.chart.invoke i).owner ∈ q.opening ∨ .entered (q.chart.invoke i).owner ∈ as
  reopened : ∀ {as bs es d i}, q.deeds = as ++ .exited (q.chart.invoke i).owner :: (bs ++ d :: es) →
    d.starts i = true → .entered (q.chart.invoke i).owner ∈ bs
  stopped : ∀ {as bs es i p source params},
    q.deeds = as ++ .began i p source params :: (bs ++ .stopped i p :: es) →
    .exited (q.chart.invoke i).owner ∈ bs ∨ .closed ∈ bs
  completed : ∀ {as bs es i p source params},
    q.deeds = as ++ .began i p source params :: (bs ++ .completed i p :: es) →
    ∃ e, .given e ∈ bs ∧ Trigger.reportsCompletion p.id e.name = true

theorem accounted_of_turns (h : Turns q.chart (.opening q.opening) q.deeds y) : Accounted q y where
  turns := h
  lives i := lives_of_turns q.deeds h .none
  opened := by
    intro as es d i e hd
    rw [e] at h
    obtain ⟨x₁, has, x₂, hx₁, -⟩ := (turns_append as).1 h
    by_cases ho : (q.chart.invoke i).owner ∈ q.opening
    · exact .inl ho
    · exact .inr (entered_of_turns has ho (starts_of_turn hx₁ hd))
  reopened := by
    intro as bs es d i e hd
    rw [e] at h
    obtain ⟨x₁, -, x₂, hx₁, hrest⟩ := (turns_append as).1 h
    obtain ⟨x₃, hbs, x₄, hx₃, -⟩ := (turns_append bs).1 hrest
    refine entered_of_turns hbs ?_ (starts_of_turn hx₃ hd)
    cases hx₁
    exact fun hm => (NodeSet.mem_erase.1 hm).2 rfl
  stopped := by
    intro as bs es i p source params e
    rw [e] at h
    obtain ⟨x₁, -, x₂, hx₁, hrest⟩ := (turns_append as).1 h
    obtain ⟨x₃, hbs, x₄, hx₃, -⟩ := (turns_append bs).1 hrest
    cases hx₁ with
    | began p source params hidle hfree howner =>
      cases hx₃ with
      | stopped hlive hcause =>
        exact hcause.imp (exited_of_turns hbs howner) (closed_of_turns hbs hidle.2)
  completed := by
    intro as bs es i p source params e
    rw [e] at h
    obtain ⟨x₁, -, x₂, hx₁, hrest⟩ := (turns_append as).1 h
    obtain ⟨x₃, hbs, x₄, hx₃, -⟩ := (turns_append bs).1 hrest
    cases hx₁ with
    | began p source params hidle hfree howner =>
      cases hx₃ with
      | @completed _ _ ev hlive hhand hdone => exact ⟨ev, given_of_turns hbs hidle.1 hhand, hdone⟩

/-! ### One period after the other -/

/-- Deeds one after the other, while others may change anything but processes and journal whenever the
    session is at rest. -/
inductive Lasts (c : Chart) (x : Scene) (s : Session) : List Deed → Scene → Session → Prop where
  | refl (h : x.live = s.live) : Lasts c x s [] x s
  | does {ds es : List Deed} {y z : Scene} {t u : Session} (h : Lasts c x s ds y t)
      (hd : Does c y t es z u) : Lasts c x s (ds ++ es) z u
  | rest {ds : List Deed} {y : Scene} {t u : Session} (h : Lasts c x s ds y t)
      (hl : u.live = t.live) (hj : u.journal = t.journal) : Lasts c x s ds y u

namespace Lasts

theorem live (h : Lasts c x s ds y t) : y.live = t.live := by
  induction h with
  | refl h => exact h
  | does _ hd _ => exact hd.live
  | rest _ hl _ ih => exact ih.trans hl.symm

theorem turns (h : Lasts c x s ds y t) : Turns c x ds y := by
  induction h with
  | refl => rfl
  | does _ hd ih => exact (turns_append _).2 ⟨_, ih, hd.turns⟩
  | rest _ _ _ ih => exact ih

theorem calls (h : Lasts c x s ds y t) : t.calls = s.calls ++ ds.flatMap Deed.calls := by
  induction h with
  | refl => simp
  | does _ hd ih => rw [calls_of_does hd, ih, List.flatMap_append, List.append_assoc]
  | rest _ _ hj ih => rw [Session.calls, hj, ← Session.calls, ih]

end Lasts

/-- What has happened to the processes of a session: period after period, each with no process in the end,
    and whether the last one is over. -/
inductive Tale : List Period → Bool → Session → Prop where
  | new {s : Session} (hl : s.live = []) (hc : s.calls = []) : Tale [] true s
  | period {qs : List Period} {c : Chart} {A : NodeSet} {ds : List Deed} {s t : Session} {y : Scene}
      (h : Tale qs true s) (hl : s.live = []) (hp : Lasts c (.opening A) s ds y t) :
      Tale (qs ++ [⟨c, A, ds⟩]) y.closing t

namespace Tale

variable {ended : Bool}

theorem rest (h : Tale qs ended s) (hl : t.live = s.live) (hj : t.journal = s.journal) :
    Tale qs ended t := by
  cases h with
  | new hl' hc =>
    refine .new (hl.trans hl') ?_
    rw [Session.calls, hj]
    exact hc
  | period h hl' hp => exact .period h hl' (hp.rest hl hj)

/-- When every process is stopped none is left. -/
theorem cancelAll (h : Tale qs ended s) : ∃ rs, Tale rs true s.cancelAll ∧ s.cancelAll.live = [] := by
  cases h with
  | new hl hc =>
    have e : s.cancelAll = s := by rw [Session.cancelAll, hl]; rfl
    rw [e]
    exact ⟨[], .new hl hc, hl⟩
  | period h hl hp =>
    obtain ⟨es, -, hd⟩ := shows_cancelAll hp.live
    exact ⟨_, .period h hl (hp.does hd), hd.live.symm⟩

/-- The journal tells of the calls of all periods, and of no others. Each period can be accounted for: it
    is over and no process is left, unless it is the last. -/
theorem accounts (h : Tale qs ended s) : s.calls = qs.flatMap Period.calls ∧
    ∀ q ∈ qs, ∃ y, Accounted q y ∧ (y.closing = true ∧ y.live = [] ∨
      qs.getLast? = some q ∧ y.closing = ended ∧ y.live = s.live) := by
  induction h with
  | new hl hc => exact ⟨hc, fun q hq => absurd hq List.not_mem_nil⟩
  | @period qs c A ds s t y h hl hp ih =>
    obtain ⟨hcalls, hall⟩ := ih
    refine ⟨?_, fun q hq => ?_⟩
    · rw [hp.calls, hcalls, List.flatMap_append, List.flatMap_singleton]
      rfl
    · rcases List.mem_append.1 hq with hq | hq
      · obtain ⟨z, hz, hend⟩ := hall q hq
        exact ⟨z, hz, .inl (hend.elim id fun h => ⟨h.2.1, h.2.2.trans hl⟩)⟩
      · rw [List.mem_singleton.1 hq]
        exact ⟨y, accounted_of_turns hp.turns, .inr ⟨by simp, rfl, hp.live⟩⟩

end Tale

end Session
end Statechart
