import Statechart.Proofs.Atomicity

/-! Reading and writing variables agree on whose they are.

    A variable is read by searching outward from its owner, the view of an owner puts scope over scope
    from the chart inward, and an assignment searches and then writes. All three mean the nearest scope
    that declares the root of the name: what is read is what the view shows, and an assignment that
    succeeds is seen by both, at its own path and nowhere else. -/

namespace Statechart

namespace Value

variable {new v : Value} {path q : List String}

/-- Writing along a path leaves alone what lies neither on the way nor behind its end. -/
theorem follow?_writeAt_of_apart (hq : ¬ q <+: path) (hpath : ¬ path <+: q)
    (h : (new.writeAt path v).2 = true) : (new.writeAt path v).1.follow? q = v.follow? q := by
  induction path generalizing q v with
  | nil => exact absurd List.nil_prefix hpath
  | cons name path ih =>
    cases q with
    | nil => exact absurd List.nil_prefix hq
    | cons other q =>
      cases v with
      | object fields =>
        rw [writeAt] at h ⊢
        simp only [follow?_cons, field?]
        by_cases hname : other = name
        · subst hname
          rw [List.cons_prefix_cons, not_and] at hq hpath
          rw [Dict.get?_insert_self, Option.bind_some, ih (hq rfl) (hpath rfl) h]
          cases hfield : Dict.get? other fields with
          | some w => rfl
          | none =>
            -- a missing field is written only at the end of the path, which is a prefix of all
            rw [hfield, Option.getD_none] at h
            cases path with
            | nil => exact absurd List.nil_prefix (hpath rfl)
            | cons => cases h
        · rw [Dict.get?_insert_of_ne hname]
      | _ => cases h

end Value

namespace Store

variable {c : Chart} {owner : Option NodeId} {name root : String} {path : List String}
  {s t : Store} {scope other : ScopeName} {new : Value}

/-- The names of the system variables. -/
def systemNames : List String := ["_event", "_sessionid", "_name", "_all_states"]

/-- The scopes that an owner sees, innermost first. -/
def scopes (c : Chart) (owner : Option NodeId) : List ScopeName :=
  (chain c owner).map .state ++ [.chart]

/-- Whether a scope is the nearest one to an owner that declares a variable. -/
def Nearest (c : Chart) (owner : Option NodeId) (root : String) (s : Store) (scope : ScopeName) :
    Prop :=
  ∃ nearer farther, scopes c owner = nearer ++ scope :: farther ∧
    root ∈ Dict.keys (s.varsOf scope) ∧ ∀ a ∈ nearer, root ∉ Dict.keys (s.varsOf a)

theorem holder?_eq_find? (c : Chart) (owner : Option NodeId) (root : String) (s : Store) :
    s.holder? c owner root = (scopes c owner).find? fun a => Dict.has root (s.varsOf a) := by
  rw [holder?, scopes, List.find?_append, List.find?_map, List.find?_singleton]
  simp only [Function.comp_def]
  cases (chain c owner).find? fun n => Dict.has root (s.varsOf (.state n)) <;> rfl

/-- The search from inside out ends at the nearest scope. -/
theorem holder?_eq_some_iff : s.holder? c owner root = some scope ↔ s.Nearest c owner root scope := by
  rw [holder?_eq_find?, List.find?_eq_some_iff_append]
  simp only [Nearest, Dict.has_iff, Bool.not_eq_true', ← Bool.not_eq_true]
  constructor
  · rintro ⟨hroot, nearer, farther, hsplit, hnearer⟩
    exact ⟨nearer, farther, hsplit, hroot, hnearer⟩
  · rintro ⟨nearer, farther, hsplit, hroot, hnearer⟩
    exact ⟨hroot, nearer, farther, hsplit, hnearer⟩

/-- The names that a scope declares are in order. -/
theorem Sorted.pairwise_keys (hs : s.Sorted) (scope : ScopeName) :
    (Dict.keys (s.varsOf scope)).Pairwise (· < ·) := (hs.vars scope).1

/-- Whether every scope declares its variables once each. -/
def Distinct (s : Store) : Prop := ∀ scope, (Dict.keys (s.varsOf scope)).Nodup

theorem Sorted.distinct (hs : s.Sorted) : s.Distinct := fun scope =>
  Dict.nodup_of_sorted (hs.pairwise_keys scope)

/-- Scope over scope from the chart inward shows a variable of the innermost one that declares it. -/
theorem get?_visible (hs : s.Distinct) : Dict.get? root (s.visible c owner) =
    (s.holder? c owner root).bind fun scope => Dict.get? root (s.varsOf scope) := by
  rw [visible, List.foldl_reverse, holder?_eq_find?, scopes]
  induction chain c owner with
  | nil =>
    rw [List.map_nil, List.nil_append, List.find?_singleton]
    split
    · rfl
    · rename_i h
      exact Option.not_isSome_iff_eq_none.1 h
  | cons n ns ih =>
    rw [List.foldr_cons, Dict.get?_insertAll (hs (.state n)), ih, List.map_cons, List.cons_append,
      List.find?_cons]
    cases h : Dict.has root (s.varsOf (.state n)) with
    | true =>
      obtain ⟨v, hv⟩ := Option.isSome_iff_exists.1 h
      rw [Option.bind_some, hv, Option.some_or]
    | false => rw [Option.not_isSome_iff_eq_none.1 (ne_true_of_eq_false h), Option.none_or]

/-- The system variables hide nothing but themselves. -/
theorem field?_scopeView (h : root ∉ systemNames) :
    (s.scopeView c owner).field? root = Dict.get? root (s.visible c owner) := by
  have hnodup : (Dict.keys (s.systemVariables c)).Nodup := by
    show systemNames.Nodup
    decide
  have hnone : Dict.get? root (s.systemVariables c) = none := Dict.get?_eq_none_iff.2 h
  rw [scopeView, Value.field?, Dict.get?_insertAll hnodup, hnone, Option.none_or]

/-- What is read is what the view shows. -/
theorem lookup_eq_follow? (hs : s.Distinct) (hn : Guard.pathSegments name = root :: path)
    (hroot : root ∉ systemNames) :
    s.lookup c owner name = (s.scopeView c owner).follow? (root :: path) := by
  rw [Value.follow?_cons, field?_scopeView hroot, get?_visible hs]
  simp only [lookup, hn]
  cases s.holder? c owner root <;> rfl

/-- An assignment that succeeds has written along the path in the nearest scope, which declares what it
    declared before. -/
theorem of_assign (hs : s.Sorted) (hn : Guard.pathSegments name = root :: path)
    (h : s.assign c owner name new = (t, none)) : ∃ scope vars, s.Nearest c owner root scope ∧
      t = s.setVars vars scope ∧ Dict.keys vars = Dict.keys (s.varsOf scope) ∧
      new.writeAt (root :: path) (.object (s.varsOf scope)) = (.object vars, true) := by
  simp only [assign, hn] at h
  cases hscope : s.holder? c owner root with
  | none =>
    rw [hscope] at h
    cases h
  | some scope =>
    rw [hscope] at h
    obtain ⟨ht, hok⟩ := Prod.mk.inj h
    have hroot : root ∈ Dict.keys (s.varsOf scope) := Dict.has_iff.1 (has_of_holder hscope)
    refine ⟨scope, _, holder?_eq_some_iff.1 hscope, ht.symm,
      Dict.keys_insert_of_mem (fun _ _ => String.lt_asymm) (hs.pairwise_keys scope) hroot,
      Prod.ext rfl ?_⟩
    split at hok
    · assumption
    · cases hok

/-- Writing a scope that is there keeps which scopes there are and, with the same names, what each of
    them declares. -/
theorem keys_setVars {vars : Object} (hs : s.Sorted) (hroot : root ∈ Dict.keys (s.varsOf scope))
    (hvars : Dict.keys vars = Dict.keys (s.varsOf scope)) :
    Dict.keys (s.setVars vars scope).contexts = Dict.keys s.contexts ∧
      ∀ other, Dict.keys ((s.setVars vars scope).varsOf other) = Dict.keys (s.varsOf other) := by
  refine ⟨?_, fun other => ?_⟩
  · cases scope with
    | chart => rfl
    | state n =>
      refine Dict.keys_insert_of_mem (fun _ _ => Nat.lt_asymm) hs.scopes ?_
      refine Decidable.not_not.1 fun hn => ?_
      rw [varsOf, Dict.get?_eq_none_iff.2 hn] at hroot
      cases hroot
  · by_cases ho : other = scope
    · rw [ho, vars_setVars_self, hvars]
    · rw [vars_setVars_of_ne ho]

/-- The nearest scope depends on what is declared where alone. -/
theorem Nearest.congr (h : s.Nearest c owner root scope)
    (hkeys : ∀ other, Dict.keys (t.varsOf other) = Dict.keys (s.varsOf other)) :
    t.Nearest c owner root scope := by
  obtain ⟨nearer, farther, hsplit, hroot, hnearer⟩ := h
  refine ⟨nearer, farther, hsplit, ?_, fun a ha => ?_⟩
  · rwa [hkeys]
  · rw [hkeys]
    exact hnearer a ha

/-- A name is looked up along its path in the nearest scope. -/
theorem lookup_of_nearest (hn : Guard.pathSegments name = root :: path)
    (h : s.Nearest c owner root scope) :
    s.lookup c owner name = (Value.object (s.varsOf scope)).follow? (root :: path) := by
  simp only [lookup, hn, holder?_eq_some_iff.2 h]
  rfl

/-- Searching for a variable and looking into the view of its owner find the same. An assignment that
    succeeds is found by both. It is made in the nearest scope that declares the variable, nothing else
    of the store changes, every scope declares what it declared, and in that scope every path leads
    where it led that is neither on the way to what was assigned nor goes on behind it. -/
theorem lookup_agrees (hs : s.Sorted) (hn : Guard.pathSegments name = root :: path)
    (hroot : root ∉ systemNames) :
    s.lookup c owner name = (s.scopeView c owner).follow? (root :: path) ∧
    ∀ new t, s.assign c owner name new = (t, none) →
      t.lookup c owner name = some new ∧
      (t.scopeView c owner).follow? (root :: path) = some new ∧
      ∃ scope vars, s.Nearest c owner root scope ∧ t = s.setVars vars scope ∧
        (∀ other ≠ scope, t.varsOf other = s.varsOf other) ∧
        Dict.keys t.contexts = Dict.keys s.contexts ∧
        (∀ other, Dict.keys (t.varsOf other) = Dict.keys (s.varsOf other)) ∧
        ∀ q, ¬ q <+: root :: path → ¬ root :: path <+: q →
          (Value.object (t.varsOf scope)).follow? q = (Value.object (s.varsOf scope)).follow? q := by
  refine ⟨lookup_eq_follow? hs.distinct hn hroot, fun new t h => ?_⟩
  obtain ⟨scope, vars, hnear, rfl, hvars, hwrite⟩ := of_assign hs hn h
  have hdeclares : root ∈ Dict.keys (s.varsOf scope) := hnear.choose_spec.choose_spec.2.1
  obtain ⟨hcontexts, hkeys⟩ := keys_setVars hs hdeclares hvars
  have hdistinct : (s.setVars vars scope).Distinct := fun other => by
    rw [hkeys]
    exact hs.distinct other
  have hread : (s.setVars vars scope).lookup c owner name = some new := by
    have hfound : (new.writeAt (root :: path) (.object (s.varsOf scope))).1.follow? (root :: path) =
        some new := Value.follow?_writeAt (by rw [hwrite])
    rw [hwrite] at hfound
    rwa [lookup_of_nearest hn (hnear.congr hkeys), vars_setVars_self]
  refine ⟨hread, ?_, scope, vars, hnear, rfl, fun other hne => vars_setVars_of_ne hne vars s,
    hcontexts, hkeys, fun q hq hpath => ?_⟩
  · rw [← lookup_eq_follow? hdistinct hn hroot, hread]
  · have hkept := Value.follow?_writeAt_of_apart hq hpath (congrArg Prod.snd hwrite)
    rw [hwrite] at hkept
    rwa [vars_setVars_self]

/-- A room with a light of its own, and a desk in it. -/
def room : Value :=
  .object [("datamodel", .object [("light", .object [("colour", .string "white")])]),
    ("states", .array [.object [("datamodel", .object [("light", .object [("colour", .string "blue"),
        ("level", .ofNat 3)])]), ("id", .string "Room"),
      ("states", .array [.object [("id", .string "Desk")]])]])]

/-- The chart of the room. -/
def roomChart : Chart := (Chart.load "room" 1 room).toOption.get (by decide +kernel)

/-- The room when somebody sits at the desk, with the light in some colour. -/
def lit (colour : String) : Store :=
  { empty with
    leaves := [1], globals := [("light", .object [("colour", .string "white")])]
    contexts := [(0, [("light", .object [("colour", .string colour), ("level", .ofNat 3)])]), (1, [])] }

theorem sorted_lit (colour : String) : (lit colour).Sorted where
  globals := by simp [lit, Value.Ordered, Value.OrderedFields, Dict.keys]
  scopes := by simp [lit, Dict.keys]
  locals n vars h := by
    have hm := Dict.mem_of_get? h
    simp only [lit, List.mem_cons, Prod.mk.injEq, List.not_mem_nil, or_false] at hm
    rcases hm with ⟨-, rfl⟩ | ⟨-, rfl⟩
    · have hkeys : (["colour", "level"] : List String).Pairwise (· < ·) := by decide +kernel
      exact ⟨List.pairwise_singleton _ _, ⟨hkeys, trivial, trivial, trivial⟩, trivial⟩
    · exact ⟨.nil, trivial⟩

/-- Who sits at the desk sees the light of the room. Turning it red is seen at the desk, it stays as
    bright as it was, and the light outside stays white. -/
theorem reddened_room : ∃ t, (lit "blue").assign roomChart (some 1) "ctx.light.colour" (.string "red") =
      (t, none) ∧
    (lit "blue").lookup roomChart (some 1) "ctx.light.colour" =
      ((lit "blue").scopeView roomChart (some 1)).follow? ["light", "colour"] ∧
    t.lookup roomChart (some 1) "ctx.light.colour" = some (.string "red") ∧
    (t.scopeView roomChart (some 1)).follow? ["light", "colour"] = some (.string "red") ∧
    (Value.object (t.varsOf (.state 0))).follow? ["light", "level"] = some (.ofNat 3) ∧
    t.varsOf .chart = [("light", .object [("colour", .string "white")])] := by
  have hn : Guard.pathSegments "ctx.light.colour" = ["light", "colour"] := by decide +kernel
  have hroot : "light" ∉ systemNames := by decide
  have hroom : (lit "blue").holder? roomChart (some 1) "light" = some (.state 0) := by decide +kernel
  have hassign : (lit "blue").assign roomChart (some 1) "ctx.light.colour" (.string "red") =
      (lit "red", none) := by
    simp only [assign, hn, hroom]
    rfl
  obtain ⟨hagree, hall⟩ := @lookup_agrees roomChart (some 1) _ _ _ _ (sorted_lit "blue") hn hroot
  obtain ⟨hlookup, hview, scope, vars, hnear, -, hother, -, -, hapart⟩ := hall _ _ hassign
  have hscope : scope = .state 0 :=
    Option.some.inj ((holder?_eq_some_iff.2 hnear).symm.trans hroom)
  subst hscope
  refine ⟨_, hassign, hagree, hlookup, hview, ?_, hother .chart (by decide)⟩
  rw [hapart ["light", "level"] (by decide) (by decide)]
  rfl

end Store
end Statechart
