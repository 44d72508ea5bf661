import Statechart.Machine.Basic

/-! More fuel changes nothing.

    Fuel only bounds how long one waits for a machine to come to rest. What comes to an end with some
    fuel comes to the same end with more, so what a machine comes to does not depend on it. -/

namespace Statechart

/-- What is come to with some fuel, and with any more, is the same with all fuel that suffices. -/
theorem lasting {α : Type} {f : Nat → Option α} {a : α} {n k : Nat}
    (hf : ∀ {n k : Nat} {a : α}, n ≤ k → f n = some a → f k = some a) (h : f n = some a)
    (hk : n ≤ k ∨ (f k).isSome = true) : f k = some a := by
  rcases Nat.le_total n k with hle | hle
  · exact hf hle h
  · obtain ⟨b, hb⟩ := Option.isSome_iff_exists.1 (hk.elim (fun hle => by rw [hf hle h]; rfl) id)
    rw [hb, ← hf hle hb, h]

namespace Session

variable {c : Chart} {s t : Session} {event : Option Event} {ts : List TransitionId} {e : Event}

theorem macroStep_of_le : ∀ {fuel fuel' : Nat} {s : Session}, fuel ≤ fuel' →
    s.macroStep c fuel = some t → s.macroStep c fuel' = some t
  | 0, _, _, _, h => by cases h
  | fuel + 1, 0, _, hle, _ => absurd hle (by omega)
  | fuel + 1, fuel' + 1, s, hle, h => by
    have hle : fuel ≤ fuel' := by omega
    rw [macroStep] at h ⊢
    split at h
    case isFalse hr =>
      rw [if_neg hr]
      exact h
    rename_i hr
    rw [if_pos hr]
    split at h
    · rename_i u _
      dsimp only at h ⊢
      generalize (if u.running then u.startPending c else u) = w at h ⊢
      split at h
      · rename_i hq
        rw [if_pos hq]
        exact macroStep_of_le hle h
      · rename_i hq
        rw [if_neg hq]
        exact h
    · split at h
      · cases h
      · exact macroStep_of_le hle h

variable {fuel fuel' : Nat} (hle : fuel ≤ fuel')

include hle

theorem takeAndSettle_of_le (h : s.takeAndSettle c fuel event ts = some t) :
    s.takeAndSettle c fuel' event ts = some t := by
  unfold takeAndSettle at h ⊢
  obtain ⟨u, hu, h⟩ := Option.bind_eq_some_iff.1 h
  obtain ⟨v, hv, h⟩ := Option.bind_eq_some_iff.1 h
  exact Option.bind_eq_some_iff.2 ⟨u, hu, Option.bind_eq_some_iff.2 ⟨v, macroStep_of_le hle hv, h⟩⟩

theorem firstStep_of_le (h : s.firstStep c fuel = some t) : s.firstStep c fuel' = some t := by
  obtain ⟨u, hu, rfl⟩ := Option.map_eq_some_iff.1 h
  exact Option.map_eq_some_iff.2 ⟨u, takeAndSettle_of_le hle hu, rfl⟩

theorem nextStep_of_le (h : s.nextStep c fuel e = some t) : s.nextStep c fuel' e = some t := by
  unfold nextStep at h ⊢
  split at h
  case isFalse hr =>
    rw [if_neg hr]
    exact h
  rename_i hr
  rw [if_pos hr]
  split at h
  · rename_i he
    rw [if_pos he]
    exact h
  · rename_i he
    rw [if_neg he]
    obtain ⟨u, hu, rfl⟩ := Option.map_eq_some_iff.1 h
    refine Option.map_eq_some_iff.2 ⟨u, ?_, rfl⟩
    unfold respond at hu ⊢
    dsimp only at hu ⊢
    split at hu
    · exact hu
    · exact takeAndSettle_of_le hle hu

end Session

namespace Machine

variable {c : Chart} {m m' : Machine} {error : Option MachineError} {e : Event}

theorem workOff_of_le : ∀ {fuel fuel' : Nat} {m : Machine}, fuel ≤ fuel' →
    m.workOff c fuel = some m' → m.workOff c fuel' = some m'
  | 0, _, _, _, h => by cases h
  | fuel + 1, 0, _, hle, _ => absurd hle (by omega)
  | fuel + 1, fuel' + 1, m, hle, h => by
    have hle : fuel ≤ fuel' := by omega
    rw [workOff] at h ⊢
    split at h
    case isFalse hr =>
      rw [if_neg hr]
      exact h
    rename_i hr
    rw [if_pos hr]
    split at h
    · exact h
    · split at h
      · cases h
      · rename_i s hs
        rw [Session.nextStep_of_le hle hs]
        exact workOff_of_le hle h

variable {fuel fuel' : Nat} (hle : fuel ≤ fuel')

include hle

theorem reset_of_le (h : m.reset fuel = some (m', error)) : m.reset fuel' = some (m', error) := by
  obtain ⟨⟨s, e⟩, hs, heq⟩ := Option.map_eq_some_iff.1 h
  refine Option.map_eq_some_iff.2 ⟨(s, e), ?_, heq⟩
  unfold Session.firstOwn Session.onChart at hs ⊢
  split at hs
  · exact hs
  · obtain ⟨t, ht, heq⟩ := Option.map_eq_some_iff.1 hs
    exact Option.map_eq_some_iff.2 ⟨t, Session.firstStep_of_le hle ht, heq⟩

theorem triggerEvents_of_le (h : m.triggerEvents fuel = some (m', error)) :
    m.triggerEvents fuel' = some (m', error) := by
  unfold triggerEvents at h ⊢
  split at h
  · exact h
  · obtain ⟨t, ht, heq⟩ := Option.map_eq_some_iff.1 h
    exact Option.map_eq_some_iff.2 ⟨t, workOff_of_le hle ht, heq⟩

theorem trigger_of_le (h : m.trigger e fuel = some (m', error)) :
    m.trigger e fuel' = some (m', error) := triggerEvents_of_le hle h

end Machine
end Statechart
