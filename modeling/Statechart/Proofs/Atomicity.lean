import Statechart.Chart.Compile
import Statechart.Proofs.Written
import Statechart.Session.Content

/-! What a failing action leaves behind.

    Every way in which an action can fail lies before the first thing it does, but one. An assignment
    walks along its location and adds each field that is missing as `null`; if the location goes on
    behind such a field, the walk fails there and the field stays. That is the gap of the assignment.
    Where there is none, a failing action leaves the session as it was, and where there is one, the
    session gets the field at the gap and nothing else. -/

namespace Statechart

namespace Dict

variable {κ α : Type} [DecidableEq κ] [LT κ] [DecidableLT κ] {k : κ} {a : α} {d : Dict κ α}

/-- Binding a key to what it is bound to changes nothing, in a map that is in order. -/
theorem insert_of_get? (hlt : ∀ a b : κ, a < b → ¬ b < a) (hd : (keys d).Pairwise (· < ·))
    (h : get? k d = some a) : insert k a d = d := by
  induction d with
  | nil => cases h
  | cons p d ih =>
    obtain ⟨k', a'⟩ := p
    obtain ⟨hk', hd⟩ := List.pairwise_cons.1 hd
    rw [get?] at h
    rw [insert]
    split at h
    · cases h
      rename_i e
      rw [if_pos e, e]
    · rename_i e
      have hk : k ∈ keys d := List.mem_map_of_mem (mem_of_get? h)
      rw [if_neg e, if_neg (hlt _ _ (hk' k hk)), ih hd h]

end Dict

namespace Value

variable {new v w : Value} {path gap : List String} {name : String} {fields : Object}

/-- The names up to the first field that an object on the way lacks, if the chain goes on behind it. -/
def gap? : List String → Value → Option (List String)
  | name :: path, .object fields =>
    match Dict.get? name fields with
    | some v => (gap? path v).map (name :: ·)
    | none => if path = [] then none else some [name]
  | _, _ => none

theorem gap?_of_get? (h : Dict.get? name fields = some w) :
    gap? (name :: path) (.object fields) = (gap? path w).map (name :: ·) := by
  rw [gap?, h]

theorem gap?_of_missing (h : Dict.get? name fields = none) :
    gap? (name :: path) (.object fields) = if path = [] then none else some [name] := by
  rw [gap?, h]

/-- A chain without a gap fails, if it does, at something that is no object, and then nothing was
    added on the way. -/
theorem writeAt_of_whole (hv : v.Ordered) (hg : gap? path v = none)
    (h : (new.writeAt path v).2 = false) : (new.writeAt path v).1 = v := by
  induction path generalizing v with
  | nil => cases h
  | cons name path ih =>
    cases v with
    | object fields =>
      rw [writeAt] at h ⊢
      cases hname : Dict.get? name fields with
      | some w =>
        rw [hname] at h
        rw [Option.getD_some] at h ⊢
        rw [gap?_of_get? hname, Option.map_eq_none_iff] at hg
        have hw : w.Ordered := orderedFields_iff.1 hv.2 _ (Dict.mem_of_get? hname)
        rw [ih hw hg h, Dict.insert_of_get? (fun _ _ => String.lt_asymm) hv.1 hname]
      | none =>
        -- the chain ends at the missing field, so that it is written and nothing fails
        have hpath : path = [] := by
          rw [gap?_of_missing hname] at hg
          split at hg
          · assumption
          · cases hg
        rw [hpath] at h
        cases h
    | _ => rfl

/-- A chain with a gap runs into it at a field that an object has, or right away. -/
theorem gap_cases (h : gap? (name :: path) v = some gap) : ∃ fields, v = .object fields ∧
    ((∃ w inner, Dict.get? name fields = some w ∧ gap? path w = some inner ∧ gap = name :: inner) ∨
      (Dict.get? name fields = none ∧ path ≠ [] ∧ gap = [name])) := by
  cases v with
  | object fields =>
    refine ⟨fields, rfl, ?_⟩
    cases hname : Dict.get? name fields with
    | some w =>
      rw [gap?_of_get? hname] at h
      obtain ⟨inner, hinner, rfl⟩ := Option.map_eq_some_iff.1 h
      exact .inl ⟨w, inner, rfl, hinner, rfl⟩
    | none =>
      rw [gap?_of_missing hname] at h
      split at h
      · cases h
      · rename_i hpath
        cases h
        exact .inr ⟨rfl, hpath, rfl⟩
  | _ => cases h

/-- A chain with a gap fails there, and leaves `null` in it. -/
theorem writeAt_of_gap (h : gap? path v = some gap) :
    new.writeAt path v = ((null.writeAt gap v).1, false) := by
  induction path generalizing v gap with
  | nil => cases h
  | cons name path ih =>
    obtain ⟨fields, rfl, ⟨w, inner, hname, hinner, rfl⟩ | ⟨hname, hpath, rfl⟩⟩ := gap_cases h
    · rw [writeAt, writeAt, hname, Option.getD_some, ih hinner]
    · obtain ⟨next, path, rfl⟩ := List.exists_cons_of_ne_nil hpath
      rw [writeAt, writeAt, hname]
      rfl

/-- Nothing is at a gap. -/
theorem vacant_of_gap (h : gap? path v = some gap) : v.follow? gap = none := by
  induction path generalizing v gap with
  | nil => cases h
  | cons name path ih =>
    obtain ⟨fields, rfl, ⟨w, inner, hname, hinner, rfl⟩ | ⟨hname, -, rfl⟩⟩ := gap_cases h
    · rw [follow?_cons, field?, hname, Option.bind_some]
      exact ih hinner
    · rw [follow?_cons, field?, hname, Option.bind_none]

/-- What is written at a gap arrives. -/
theorem writable_of_gap (h : gap? path v = some gap) : (new.writeAt gap v).2 = true := by
  induction path generalizing v gap with
  | nil => cases h
  | cons name path ih =>
    obtain ⟨fields, rfl, ⟨w, inner, hname, hinner, rfl⟩ | ⟨hname, -, rfl⟩⟩ := gap_cases h
    · rw [writeAt, hname, Option.getD_some]
      exact ih hinner
    · rw [writeAt, hname]
      rfl

theorem writeAt_ne_of_gap (hg : gap? path v = some gap) : (null.writeAt gap v).1 ≠ v := fun h => by
  have hsome : (null.writeAt gap v).1.follow? gap = some null := follow?_writeAt (writable_of_gap hg)
  rw [h, vacant_of_gap hg] at hsome
  cases hsome

end Value

/-- Where an assignment runs into a gap: a variable of a scope, and the fields of it up to the one that
    is missing. -/
structure Gap where
  scope : ScopeName
  root : String
  fields : List String
  deriving DecidableEq

namespace Store

variable {c : Chart} {owner : Option NodeId} {location : String} {s t : Store} {g : Gap}
  {scope : ScopeName} {root : String} {v : Value} {e : VariableError}

/-- The maps of a store are in order: the scopes by their states, the variables of each by their names,
    and so the fields of every object in them. -/
structure Sorted (s : Store) : Prop where
  globals : (Value.object s.globals).Ordered
  scopes : (Dict.keys s.contexts).Pairwise (· < ·)
  locals : ∀ n vars, Dict.get? n s.contexts = some vars → (Value.object vars).Ordered

/-- The gap that a location runs into. -/
def gap? (c : Chart) (owner : Option NodeId) (location : String) (s : Store) : Option Gap :=
  match Guard.pathSegments location with
  | [] => none
  | root :: path =>
    (s.holder? c owner root).bind fun scope =>
      (((Dict.get? root (s.varsOf scope)).getD .null).gap? path).map fun fields => ⟨scope, root, fields⟩

/-- Adds the missing field of a gap as `null`. -/
def fill (g : Gap) (s : Store) : Store :=
  s.setVars (Dict.insert g.root
    (Value.null.writeAt g.fields ((Dict.get? g.root (s.varsOf g.scope)).getD .null)).1
    (s.varsOf g.scope)) g.scope

theorem Sorted.vars (hs : s.Sorted) : ∀ scope, (Value.object (s.varsOf scope)).Ordered
  | .chart => hs.globals
  | .state n => by
    rw [varsOf]
    cases hn : Dict.get? n s.contexts with
    | some vars => exact hs.locals n vars hn
    | none => exact ⟨.nil, trivial⟩

/-- The scope that holds a variable declares it. -/
theorem has_of_holder (h : s.holder? c owner root = some scope) :
    Dict.has root (s.varsOf scope) = true := by
  unfold holder? at h
  split at h
  · rename_i n hn
    cases h
    exact List.find?_some (p := fun n => Dict.has root (s.varsOf (.state n))) hn
  · split at h
    · cases h
      assumption
    · cases h

/-- A scope that declares something stays as it is when its variables are replaced by themselves. -/
theorem setVars_self (hs : s.Sorted) (h : Dict.has root (s.varsOf scope) = true) :
    s.setVars (s.varsOf scope) scope = s := by
  cases scope with
  | chart => rfl
  | state n =>
    rw [varsOf] at h ⊢
    cases hn : Dict.get? n s.contexts with
    | some vars =>
      rw [setVars, Option.getD_some,
        Dict.insert_of_get? (fun _ _ => Nat.lt_asymm) hs.scopes hn]
    | none =>
      rw [hn] at h
      cases h

/-- An assignment without a gap that fails leaves the store as it was. -/
theorem assign_of_whole (hs : s.Sorted) (hg : s.gap? c owner location = none)
    (h : (s.assign c owner location v).2 = some e) : (s.assign c owner location v).1 = s := by
  unfold assign at h ⊢
  unfold gap? at hg
  cases hsegments : Guard.pathSegments location with
  | nil => rfl
  | cons root path =>
    simp only [hsegments] at h hg ⊢
    cases hscope : s.holder? c owner root with
    | none => rfl
    | some scope =>
      simp only [hscope, Option.bind_some, Option.map_eq_none_iff] at h hg ⊢
      have hhas := has_of_holder hscope
      obtain ⟨value, hvalue⟩ := Option.isSome_iff_exists.1 hhas
      have hordered := hs.vars scope
      rw [hvalue, Option.getD_some] at h hg ⊢
      have hflag : (v.writeAt path value).2 = false := by
        cases hw : (v.writeAt path value).2 with
        | false => rfl
        | true =>
          rw [hw] at h
          cases h
      rw [Value.writeAt_of_whole (Value.orderedFields_iff.1 hordered.2 _ (Dict.mem_of_get? hvalue))
        hg hflag, Dict.insert_of_get? (fun _ _ => String.lt_asymm) hordered.1 hvalue]
      exact setVars_self hs hhas

/-- An assignment with a gap fails, whatever is assigned, and fills it. -/
theorem assign_of_gap (hg : s.gap? c owner location = some g) :
    s.assign c owner location v = (s.fill g, some (.notAnObject location)) := by
  unfold gap? at hg
  unfold assign
  cases hsegments : Guard.pathSegments location with
  | nil => simp [hsegments] at hg
  | cons root path =>
    simp only [hsegments] at hg ⊢
    obtain ⟨scope, hscope, hg⟩ := Option.bind_eq_some_iff.1 hg
    obtain ⟨fields, hfields, rfl⟩ := Option.map_eq_some_iff.1 hg
    simp only [hscope, Value.writeAt_of_gap hfields]
    rfl

/-- Filling a gap changes the store. -/
theorem fill_ne (hg : s.gap? c owner location = some g) : s.fill g ≠ s := fun h => by
  unfold gap? at hg
  split at hg
  · cases hg
  rename_i root path _
  obtain ⟨scope, -, hg⟩ := Option.bind_eq_some_iff.1 hg
  obtain ⟨fields, hfields, rfl⟩ := Option.map_eq_some_iff.1 hg
  refine Value.writeAt_ne_of_gap hfields ?_
  have hvalue := congrArg (fun s => (Dict.get? root (s.varsOf scope)).getD .null) h
  simpa [fill] using hvalue

end Store

namespace Session

variable {c : Chart} {owner : Option NodeId} {a : Action} {s t : Session} {e : ActionError}

/-- The gap that an action runs into. -/
def gap? (c : Chart) (owner : Option NodeId) (s : Session) : Action → Option Gap
  | .assign location expr =>
    match s.evaluate c owner expr with
    | .ok _ => s.store.gap? c owner location
    | .error _ => none
  | _ => none

/-- A failing action leaves the session as it was, all but an assignment with a gap, which fills it:
    not the store and not the queue is touched otherwise, and nothing is told, sent or withdrawn. -/
theorem perform_of_failure (hs : s.store.Sorted) (h : s.perform c owner a = (t, some e)) :
    (s.gap? c owner a = none → t = s) ∧
      ∀ g, s.gap? c owner a = some g →
        t = { s with store := s.store.fill g } ∧ t.store ≠ s.store := by
  cases a with
  | log label expr =>
    refine ⟨fun _ => ?_, nofun⟩
    cases expr with
    | none => cases h
    | some expr =>
      rw [perform] at h
      split at h <;> cases h
      rfl
  | raise event => cases h
  | cancel sendId => cases h
  | send id target kind event delay params =>
    refine ⟨fun _ => ?_, nofun⟩
    rw [perform] at h
    split at h
    · split at h <;> cases h
    · cases h
      rfl
  | assign location expr =>
    rw [perform] at h
    rw [gap?]
    cases hv : s.evaluate c owner expr with
    | error e =>
      rw [hv] at h
      cases h
      exact ⟨fun _ => rfl, nofun⟩
    | ok v =>
      have h : ({ s with store := (s.store.assign c owner location v).1 },
          (s.store.assign c owner location v).2.map .variable) = (t, some e) := by
        rw [hv] at h
        exact h
      obtain ⟨rfl, hfailure⟩ := Prod.mk.inj h
      obtain ⟨failure, hfailure, -⟩ := Option.map_eq_some_iff.1 hfailure
      refine ⟨fun hg => ?_, fun g hg => ?_⟩
      · rw [Store.assign_of_whole hs hg hfailure]
      · rw [Store.assign_of_gap hg]
        exact ⟨rfl, Store.fill_ne hg⟩

/-- A shop in which an order has no address yet. -/
def shop : Value :=
  .object [("datamodel", .object [("order", .object [])]),
    ("states", .array [.object [("id", .string "Open")]])]

/-- The chart of the shop. -/
def shopChart : Chart := (Chart.load "shop" 1 shop).toOption.get (by decide +kernel)

/-- The shop with its variables. -/
def openShop : Session :=
  (Session.fresh (some shopChart) (.ofSeed 0 0)).mapStore fun store =>
    { store with globals := [("order", .object [])] }

theorem sorted_openShop : openShop.store.Sorted where
  globals := ⟨List.pairwise_singleton .., ⟨.nil, trivial⟩, trivial⟩
  scopes := .nil
  locals := nofun

/-- Writing the city of the order fails and leaves an address behind. -/
theorem half_addressed_openShop :
    ∃ t, openShop.perform shopChart none (.assign "order.address.city" "1") =
        (t, some (.variable (.notAnObject "order.address.city"))) ∧
      t = { openShop with store := openShop.store.fill ⟨.chart, "order", ["address"]⟩ } ∧
      t.store ≠ openShop.store := by
  have hfails : openShop.perform shopChart none (.assign "order.address.city" "1") =
      (_, some (.variable (.notAnObject "order.address.city"))) := Prod.ext rfl (by decide +kernel)
  have hgap : openShop.gap? shopChart none (.assign "order.address.city" "1") =
      some ⟨.chart, "order", ["address"]⟩ := by decide +kernel
  exact ⟨_, hfails, (perform_of_failure sorted_openShop hfails).2 _ hgap⟩

end Session
end Statechart
