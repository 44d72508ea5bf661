import Statechart.Proofs.Spelling

/-! Which lists of actions a definition is searched for, and which of them are executable content.

    Before a definition is read, its value is searched for actions of unknown types by the names of
    fields alone: whatever stands in a field with the name of a list of actions is looked at, wherever
    the field stands, variables apart. Executable content is what reading makes of the value: the lists
    of actions in the own fields of its records. The two agree if every field is its record's own, or
    holds nothing that is searched. In a field that reading ignores they do not, and a definition that
    could be read is refused for an action that it does not have. -/

namespace Statechart

open Value

/-! ### What compiling reports -/

namespace ChartError

/-- Whether a check reports nothing about types of actions. -/
def Spares {α : Type} (r : Except ChartError α) : Prop := ∀ e, r = .error e → e.code ≠ .unknownAction

variable {α β : Type}

theorem spares_ok (a : α) : Spares (.ok a : Except ChartError α) := fun _ h => by cases h

theorem spares_error {e : ChartError} (h : e.code ≠ .unknownAction) :
    Spares (.error e : Except ChartError α) := fun _ h' => by
  cases h'
  exact h

theorem spares_bind {x : Except ChartError α} {f : α → Except ChartError β} (hx : Spares x)
    (hf : ∀ a, Spares (f a)) : Spares (x >>= f) := by
  cases x with
  | error e => exact spares_error (hx e rfl)
  | ok a => exact hf a

theorem spares_claimId (taken : List String) (id : String) : Spares (claimId taken id) := by
  unfold claimId
  split
  · exact spares_error (by simp [code])
  split
  · exact spares_error (by simp [code])
  · exact spares_ok _

theorem spares_histories : ∀ (hs : List HistoryDef) (taken : List String),
    Spares (HistoryDef.checkAll taken hs)
  | [], taken => spares_ok taken
  | h :: hs, taken => by
    have hcheck : Spares (h.check taken) := by
      unfold HistoryDef.check
      split
      · exact spares_error (by simp [code])
      · exact spares_claimId _ _
    rw [HistoryDef.checkAll]
    split
    · rename_i e he
      exact spares_error (hcheck e he)
    · exact spares_histories hs _

theorem spares_invokes (owner : String) : ∀ is : List InvokeDef, Spares (InvokeDef.checkAll owner is)
  | [] => spares_ok ()
  | i :: is => by
    have hcheck : Spares (i.check owner) := by
      unfold InvokeDef.check
      split
      · exact spares_error (by simp [code])
      · exact spares_error (by simp [code])
      · exact spares_error (by simp [code])
      · exact spares_ok ()
    rw [InvokeDef.checkAll]
    split
    · rename_i e he
      exact spares_error (hcheck e he)
    · exact spares_invokes owner is

theorem spares_checkOwn (taken : List String) (s : StateDef) : Spares (s.checkOwn taken) := by
  have hshape : Spares s.checkShape := by
    unfold StateDef.checkShape
    repeat' split
    all_goals first | exact spares_ok () | exact spares_error (by simp [code])
  unfold StateDef.checkOwn
  exact spares_bind hshape fun _ => spares_bind (spares_claimId _ _) fun _ =>
    spares_bind (spares_histories _ _) fun _ => spares_bind (spares_invokes _ _) fun _ => spares_ok _

mutual

/-- The checks of a state report nothing about types of actions. -/
theorem spares_check : ∀ (s : StateDef) (taken : List String), Spares (s.check taken)
  | ⟨_, _, _, _, _, states, _, _, _, _, _⟩, taken => by
    rw [StateDef.check_eq]
    split
    · rename_i e he
      exact spares_error (spares_checkOwn _ _ e he)
    · exact spares_checkAll states _

/-- Nor do those of states one after the other. -/
theorem spares_checkAll : ∀ (ss : List StateDef) (taken : List String),
    Spares (StateDef.checkAll taken ss)
  | [], taken => spares_ok taken
  | s :: ss, taken => by
    rw [StateDef.checkAll]
    split
    · rename_i e he
      exact spares_error (spares_check s taken e he)
    · exact spares_checkAll ss _

end

theorem spares_resolveFrom {nodes : NodeTable} : ∀ (ids : List String) (found : List NodeId),
    Spares (Arrow.resolveFrom nodes found ids)
  | [], found => spares_ok found
  | id :: ids, found => by
    rw [Arrow.resolveFrom]
    split
    · exact spares_error (by simp [code])
    · exact spares_resolveFrom ids _

theorem spares_resolveAll {nodes : NodeTable} : ∀ as : List Arrow, Spares (resolveAll nodes as)
  | [] => spares_ok []
  | a :: as => by
    rw [resolveAll]
    split
    · rename_i e he
      exact spares_error (spares_resolveFrom _ _ e he)
    split
    · rename_i e he
      exact spares_error (spares_resolveAll as e he)
    · exact spares_ok _

theorem code_of_targetError? {nodes : NodeTable} {a : Arrow} {targets : List NodeId} {e : ChartError}
    (h : nodes.targetError? a targets = some e) : e.code ≠ .unknownAction := by
  simp only [NodeTable.targetError?] at h
  split at h
  · rename_i e' he
    cases h
    split at he
    · split at he
      · cases he
        simp [code]
      · cases he
    · obtain ⟨x, -, rfl⟩ := Option.map_eq_some_iff.1 he
      simp [code]
    · cases he
    · cases he
  · split at h
    · cases h
      simp [code]
    · cases h

/-- What validation finds wrong is not the type of an action. -/
theorem code_of_firstError? {nodes : NodeTable} {arrows : List (Arrow × List NodeId)}
    {invokes : List Invoke} {e : ChartError} (h : firstError? nodes arrows invokes = some e) :
    e.code ≠ .unknownAction := by
  simp only [firstError?] at h
  split at h
  · rename_i e' he
    cases h
    obtain ⟨⟨a, targets⟩, -, ha⟩ := List.exists_of_findSome?_eq_some he
    exact code_of_targetError? ha
  split at h
  · rename_i e' he
    cases h
    obtain ⟨n, -, hn⟩ := List.exists_of_findSome?_eq_some he
    unfold NodeTable.historyError? at hn
    split at hn
    · obtain ⟨x, -, rfl⟩ := Option.map_eq_some_iff.1 hn
      simp [code]
    · cases hn
  · obtain ⟨id, -, rfl⟩ := Option.map_eq_some_iff.1 h
    simp [code]

/-- Compiling reports nothing about types of actions. -/
theorem spares_compile (name : String) (version : Nat) (d : Definition) :
    Spares (Chart.compile name version d) := by
  unfold Chart.compile
  split
  · exact spares_error (by simp [code])
  split
  · rename_i e he
    exact spares_error (spares_checkAll _ _ e he)
  dsimp only
  split
  · rename_i e he
    exact spares_error (spares_resolveAll _ e he)
  split
  · rename_i e he
    exact spares_error (code_of_firstError? he)
  · exact spares_ok _

end ChartError

/-! ### What is searched -/

/-- Whether an object has an unknown type of action as its type. -/
def UnknownAction (type : String) (a : Value) : Prop :=
  ∃ fs, a = .object fs ∧ Dict.get? "type" fs = some (.string type) ∧ type ∉ actionTypes

/-- The lists of actions that a value is searched for: those in fields with the name of such a list,
    however deep, outside variables and other such lists. -/
inductive Searched : Value → List Value → Prop where
  | list {fs : Object} {name : String} {as : List Value} (hf : (name, .array as) ∈ fs)
      (hname : name ∈ actionLists) : Searched (.object fs) as
  | field {fs : Object} {name : String} {v : Value} {as : List Value} (hf : (name, v) ∈ fs)
      (hdata : name ≠ "datamodel") (hlist : ∀ vs, v = .array vs → name ∉ actionLists)
      (hv : Searched v as) : Searched (.object fs) as
  | item {vs : List Value} {v : Value} {as : List Value} (hv : v ∈ vs) (h : Searched v as) :
      Searched (.array vs) as

theorem unknownType?_eq_some_iff {a : Value} {type : String} :
    unknownType? a = some type ↔ UnknownAction type a := by
  unfold unknownType? UnknownAction
  cases a with
  | object fs =>
    cases h : Dict.get? "type" fs with
    | none => simp [field?, h]
    | some v =>
      cases v with
      | string s =>
        by_cases hs : s ∈ actionTypes
        · simp [field?, h, string?, hs]
          rintro rfl
          exact hs
        · simp [field?, h, string?, hs]
          rintro rfl
          exact hs
      | _ => simp [field?, h, string?]
  | _ => simp [field?]

/-- In a field that is no list of actions the search goes on inside. -/
theorem unknownIn?_of_not_list {name : String} {v : Value}
    (h : ∀ vs, v = .array vs → name ∉ actionLists) : unknownIn? name v = firstUnknown? v := by
  cases v with
  | array vs =>
    rw [unknownIn?, if_neg (by simpa using h vs rfl)]
    rfl
  | _ => rfl

theorem unknownIn?_of_list {name : String} {as : List Value} (h : name ∈ actionLists) :
    unknownIn? name (.array as) = as.findSome? unknownType? := by
  rw [unknownIn?, if_pos (by simpa using h)]

namespace Searched

variable {as : List Value}

/-- More fields are searched for more lists. -/
theorem mono {fs gs : Object} (h : ∀ f ∈ fs, f ∈ gs) (hs : Searched (.object fs) as) :
    Searched (.object gs) as := by
  cases hs with
  | list hf hname => exact .list (h _ hf) hname
  | field hf hdata hlist hv => exact .field (h _ hf) hdata hlist hv

/-- More items are searched for more lists. -/
theorem mono_items {vs ws : List Value} (h : ∀ v ∈ vs, v ∈ ws) (hs : Searched (.array vs) as) :
    Searched (.array ws) as := by
  cases hs with
  | item hv hs => exact .item (h _ hv) hs

mutual

/-- An unknown type that is found is that of an action in a list that is searched. -/
theorem of_firstUnknown? {type : String} : ∀ {v : Value}, firstUnknown? v = some type →
    ∃ as, Searched v as ∧ ∃ a ∈ as, UnknownAction type a
  | .object fs, h => of_firstUnknownField? h
  | .array vs, h => of_firstUnknownItem? h
  | .null, h => by cases h
  | .bool _, h => by cases h
  | .number _, h => by cases h
  | .string _, h => by cases h

theorem of_firstUnknownField? {type : String} : ∀ {fs : List (String × Value)},
    firstUnknownField? fs = some type → ∃ as, Searched (.object fs) as ∧ ∃ a ∈ as, UnknownAction type a
  | [], h => by cases h
  | (name, v) :: fs, h => by
    have later (h : firstUnknownField? fs = some type) :
        ∃ as, Searched (.object ((name, v) :: fs)) as ∧ ∃ a ∈ as, UnknownAction type a := by
      obtain ⟨as, hs, ha⟩ := of_firstUnknownField? h
      exact ⟨as, hs.mono fun f => List.mem_cons_of_mem _, ha⟩
    rw [firstUnknownField?_cons] at h
    split at h
    · exact later h
    rename_i hdata
    cases hin : unknownIn? name v with
    | none =>
      rw [hin] at h
      exact later h
    | some found =>
      rw [hin] at h
      cases h
      by_cases hlist : ∀ vs, v = .array vs → name ∉ actionLists
      · rw [unknownIn?_of_not_list hlist] at hin
        obtain ⟨as, hs, ha⟩ := of_firstUnknown? hin
        exact ⟨as, .field List.mem_cons_self hdata hlist hs, ha⟩
      · push Not at hlist
        obtain ⟨vs, rfl, hname⟩ := hlist
        rw [unknownIn?_of_list hname] at hin
        obtain ⟨a, ha, hunknown⟩ := List.exists_of_findSome?_eq_some hin
        exact ⟨vs, .list List.mem_cons_self hname, a, ha, unknownType?_eq_some_iff.1 hunknown⟩

theorem of_firstUnknownItem? {type : String} : ∀ {vs : List Value},
    firstUnknownItem? vs = some type → ∃ as, Searched (.array vs) as ∧ ∃ a ∈ as, UnknownAction type a
  | [], h => by cases h
  | v :: vs, h => by
    rw [firstUnknownItem?] at h
    split at h
    · rename_i found hv
      cases h
      obtain ⟨as, hs, ha⟩ := of_firstUnknown? hv
      exact ⟨as, .item List.mem_cons_self hs, ha⟩
    · obtain ⟨as, hs, ha⟩ := of_firstUnknownItem? h
      exact ⟨as, hs.mono_items fun v => List.mem_cons_of_mem _, ha⟩

end

/-- No action of an unknown type in a list that is searched is missed. -/
theorem known_of_firstUnknown? {v a : Value} {type : String} (hs : Searched v as)
    (h : firstUnknown? v = none) (ha : a ∈ as) : ¬UnknownAction type a := by
  induction hs with
  | list hf hname =>
    have h := (firstUnknownField?_eq_none.1 h _ hf).resolve_left (by rintro rfl; revert hname; decide)
    rw [unknownIn?_of_list hname] at h
    intro hunknown
    rw [← unknownType?_eq_some_iff, List.findSome?_eq_none_iff.1 h a ha] at hunknown
    cases hunknown
  | field hf hdata hlist _ ih =>
    have h := (firstUnknownField?_eq_none.1 h _ hf).resolve_left hdata
    rw [unknownIn?_of_not_list hlist] at h
    exact ih h ha
  | item hv _ ih => exact ih (firstUnknownItem?_eq_none.1 h _ hv) ha

end Searched

namespace Chart

/-- A definition is refused for an action of an unknown type if and only if it has one in a list that is
    searched. -/
theorem refused_iff {name : String} {version : Nat} {j : Value} :
    (∃ e, load name version j = .error (.invalidChart e) ∧ e.code = .unknownAction) ↔
      ∃ as, Searched j as ∧ ∃ a ∈ as, ∃ type, UnknownAction type a := by
  constructor
  · rintro ⟨e, h, hcode⟩
    unfold load at h
    split at h
    · rename_i type hfound
      obtain ⟨as, hs, a, ha, hunknown⟩ := Searched.of_firstUnknown? hfound
      exact ⟨as, hs, a, ha, type, hunknown⟩
    split at h
    · cases h
    split at h
    · rename_i hcompile
      cases h
      exact absurd hcode (ChartError.spares_compile _ _ _ e hcompile)
    · cases h
  · rintro ⟨as, hs, a, ha, type, hunknown⟩
    cases hfound : firstUnknown? j with
    | none => exact absurd hunknown (hs.known_of_firstUnknown? hfound ha)
    | some found => exact ⟨.unknownAction found, by rw [load, hfound], rfl⟩

end Chart

/-! ### What is executable -/

/-- The fields of a value as a record, one that is written as an array having them in their order. -/
def Record.opened (r : Record) : Value → Option Object
  | .object fs => some fs
  | .array items => readRecord ((r.fields items.head?).map Field.name) (.array items)
  | _ => none

/-- Whether a value can be read as a record. -/
def Record.Reads : Record → Value → Prop
  | .chart, v => (Definition.read? v).isSome
  | .state, v => (StateDef.read? v).isSome
  | .transition, v => (TransitionDef.read? v).isSome
  | .history, v => (HistoryDef.read? v).isSome
  | .block, v => (Block.read? v).isSome
  | .invoke, v => (InvokeDef.read? v).isSome
  | .action, v => (Action.read? v).isSome
  | .param, v => (Param.read? v).isSome

/-- The records in a definition, itself and the items of the own fields of its records, actions
    apart. -/
inductive Found (j : Value) : Record → Value → Prop where
  | whole : Found j .chart j
  | inner {r r' : Record} {v w : Value} {fs : Object} {f : Field} {vs : List Value} (hv : Found j r v)
      (hopened : r.opened v = some fs) (hf : f ∈ r.own fs) (hcontent : f.content = .records r')
      (hr' : r' ≠ .action) (hvs : Dict.get? f.name fs = some (.array vs)) (hw : w ∈ vs) :
      Found j r' w

/-- The executable content of a definition: the lists of actions in the own fields of its records. -/
def Executable (j : Value) (as : List Value) : Prop :=
  ∃ r v fs, Found j r v ∧ r.opened v = some fs ∧ ∃ f ∈ r.own fs,
    f.content = .records .action ∧ Dict.get? f.name fs = some (.array as)

/-- Whether a field is read when its record is: all items of a list of records are. -/
def Field.ReadsIn (fs : Object) (f : Field) : Prop :=
  ∀ r vs, f.content = .records r → Dict.get? f.name fs = some (.array vs) → ∀ w ∈ vs, r.Reads w

section

variable {α : Type} {read : Value → Option α} {fs : Object} {f : Field} {r : Record} {name : String}

theorem isSome_of_mapM : ∀ {vs : List Value} {as : List α}, vs.mapM read = some as →
    ∀ v ∈ vs, (read v).isSome
  | [], _, _, _, hv => nomatch hv
  | v :: vs, as, h, w, hw => by
    rw [List.mapM_cons] at h
    obtain ⟨a, ha, h⟩ := Option.bind_eq_some_iff.1 h
    obtain ⟨bs, hbs, -⟩ := Option.bind_eq_some_iff.1 h
    rcases List.mem_cons.1 hw with rfl | hw
    · exact Option.isSome_of_mem ha
    · exact isSome_of_mapM hbs w hw

theorem Field.readsIn_of_plain (h : ∀ r, f.content ≠ .records r) : f.ReadsIn fs :=
  fun r _ hr => absurd hr (h r)

theorem Field.readsIn_list {as d : List α} (h : Value.defaulted fs name d (readList read) = some as)
    (hread : ∀ {w}, (read w).isSome → r.Reads w) : (Field.list name r).ReadsIn fs := by
  intro r' vs hr hvs w hw
  cases hr
  rw [Value.defaulted, show Dict.get? name fs = some (.array vs) from hvs] at h
  exact hread (isSome_of_mapM h w hw)

/-- What can be read has its lists of records read. -/
theorem Record.readsIn (hr : r ≠ .action) (h : r.Reads (.object fs)) : ∀ f ∈ r.own fs, f.ReadsIn fs := by
  have plain {f : Field} (h : f.content = .plain ∨ f.content = .names) : f.ReadsIn fs :=
    Field.readsIn_of_plain fun r e => by rw [e] at h; simp at h
  cases r with
  | chart =>
    obtain ⟨d, h⟩ := Option.isSome_iff_exists.1 h
    simp only [Definition.read?, readRecord, Option.bind_eq_bind, Option.bind_some,
      Option.bind_eq_some_iff] at h
    obtain ⟨-, -, -, -, -, -, -, -, states, hstates, -⟩ := h
    simp only [Record.own, Record.fields, List.forall_mem_cons]
    refine ⟨plain (.inl rfl), plain (.inl rfl), plain (.inr rfl), plain (.inl rfl), ?_, by simp⟩
    intro r' vs hr' hvs w hw
    cases hr'
    rw [Value.required, show Dict.get? "states" fs = some (.array vs) from hvs, Option.bind_some,
      StateDef.readStates?_eq_readList] at hstates
    exact isSome_of_mapM hstates w hw
  | state =>
    obtain ⟨d, h⟩ := Option.isSome_iff_exists.1 h
    simp only [StateDef.read?_object, StateDef.readWith?, Option.bind_eq_bind,
      Option.bind_eq_some_iff] at h
    obtain ⟨states, hstates, -, -, -, -, -, -, actions, hactions, -, -, transitions, htransitions, onEntry,
      honEntry, onExit, honExit, history, hhistory, invoke, hinvoke, -⟩ := h
    simp only [Record.own, Record.fields, List.forall_mem_cons]
    exact ⟨plain (.inl rfl), plain (.inl rfl), plain (.inr rfl), Field.readsIn_list hactions id,
      plain (.inl rfl), Field.readsIn_list hstates id, Field.readsIn_list htransitions id,
      Field.readsIn_list honEntry id, Field.readsIn_list honExit id, Field.readsIn_list hhistory id,
      Field.readsIn_list hinvoke id, by simp⟩
  | transition =>
    obtain ⟨d, h⟩ := Option.isSome_iff_exists.1 h
    simp only [TransitionDef.read?, readRecord, Option.bind_eq_bind, Option.bind_some,
      Option.bind_eq_some_iff] at h
    obtain ⟨-, -, -, -, -, -, -, -, actions, hactions, -⟩ := h
    simp only [Record.own, Record.fields, List.forall_mem_cons]
    exact ⟨plain (.inl rfl), plain (.inl rfl), plain (.inr rfl), plain (.inl rfl),
      Field.readsIn_list hactions id, by simp⟩
  | history =>
    obtain ⟨d, h⟩ := Option.isSome_iff_exists.1 h
    simp only [HistoryDef.read?, readRecord, Option.bind_eq_bind, Option.bind_some,
      Option.bind_eq_some_iff] at h
    obtain ⟨-, -, -, -, -, -, actions, hactions, -⟩ := h
    simp only [Record.own, Record.fields, List.forall_mem_cons]
    exact ⟨plain (.inl rfl), plain (.inl rfl), plain (.inr rfl), Field.readsIn_list hactions id, by simp⟩
  | block =>
    obtain ⟨d, h⟩ := Option.isSome_iff_exists.1 h
    simp only [Block.read?, readRecord, Option.bind_eq_bind, Option.bind_some,
      Option.bind_eq_some_iff] at h
    obtain ⟨-, -, actions, hactions, -⟩ := h
    simp only [Record.own, Record.fields, List.forall_mem_cons]
    exact ⟨plain (.inl rfl), Field.readsIn_list hactions id, by simp⟩
  | invoke =>
    obtain ⟨d, h⟩ := Option.isSome_iff_exists.1 h
    simp only [InvokeDef.read?, readRecord, Option.bind_eq_bind, Option.bind_some,
      Option.bind_eq_some_iff] at h
    obtain ⟨-, -, -, -, -, -, -, -, -, -, params, hparams, finalize, hfinalize, -⟩ := h
    simp only [Record.own, Record.fields, List.forall_mem_cons]
    exact ⟨plain (.inl rfl), plain (.inl rfl), plain (.inl rfl), plain (.inl rfl), plain (.inl rfl),
      Field.readsIn_list hparams id, Field.readsIn_list hfinalize id, by simp⟩
  | action => exact absurd rfl hr
  | param =>
    simp only [Record.own, Record.fields, List.forall_mem_cons]
    exact ⟨plain (.inl rfl), plain (.inl rfl), by simp⟩

end

namespace Record

variable {r r' : Record} {v w : Value} {fs : Object} {f : Field}

theorem Same.reads (h : r.Same v w) (hv : r.Reads v) : r.Reads w := by
  cases r <;> exact (congrArg Option.isSome h).symm.trans hv

/-- A record can be read from its fields. -/
theorem Reads.opened (h : r.Reads v) (hopened : r.opened v = some fs) : r.Reads (.object fs) := by
  cases v with
  | object gs =>
    cases hopened
    exact h
  | array items =>
    rw [Record.opened, readRecord] at hopened
    split at hopened
    · rename_i hlen
      cases hopened
      exact (same_listed (by simpa using hlen)).reads h
    · cases hopened
  | _ => cases hopened

/-- The lists of actions in a record are the lists of records with the name of one. -/
theorem mem_actionLists_iff (hr : r ≠ .action) (hf : f ∈ r.own fs) (h : f.content = .records r') :
    f.name ≠ "datamodel" ∧ (f.name ∈ actionLists ↔ r' = .action) := by
  revert h
  cases r with
  | action => exact absurd rfl hr
  | _ =>
    revert f
    simp [own, fields, Field.required, Field.optional, Field.defaulted, Field.names, Field.list,
      actionLists] <;> cases r' <;> simp

end Record

namespace Found

variable {j v : Value} {r : Record}

theorem ne_action (h : Found j r v) : r ≠ .action := by
  cases h with
  | whole => simp
  | inner _ _ _ _ hr' => exact hr'

/-- If a definition can be read, so can the records in it. -/
theorem reads (hj : (Definition.read? j).isSome) (h : Found j r v) : r.Reads v := by
  induction h with
  | whole => exact hj
  | inner hv hopened hf hcontent hr' hvs hw ih =>
    exact Record.readsIn hv.ne_action (ih.opened hopened) _ hf _ _ hcontent hvs _ hw

end Found

/-- A definition that can be read has no action of an unknown type in its executable content. -/
theorem known_of_read {j a : Value} {as : List Value} {type : String}
    (hj : (Definition.read? j).isSome) (h : Executable j as) (ha : a ∈ as) : ¬UnknownAction type a := by
  obtain ⟨r, v, fs, hv, hopened, f, hf, hcontent, hvs⟩ := h
  have hread : (Action.read? a).isSome :=
    Record.readsIn hv.ne_action ((hv.reads hj).opened hopened) f hf _ _ hcontent hvs a ha
  rintro ⟨gs, rfl, htype, hunknown⟩
  simp only [actionTypes, List.mem_cons, List.not_mem_nil, or_false, not_or] at hunknown
  obtain ⟨hlog, hraise, hassign, hsend, hcancel⟩ := hunknown
  simp [Action.read?, Value.required, htype, readText, string?, Action.readFields?, hlog, hraise, hassign,
    hsend, hcancel] at hread

/-! ### Where the search finds executable content and nothing else -/

/-- Whether the records in a definition are objects, and each of their fields is one of their lists of
    records or is searched for nothing. -/
def Proper (j : Value) : Prop :=
  ∀ r v, Found j r v → ∃ fs, v = .object fs ∧ ∀ p ∈ fs, (∀ as, ¬Searched (.object [p]) as) ∨
    ∃ f ∈ r.own fs, ∃ r' vs, f.content = .records r' ∧ p = (f.name, .array vs) ∧
      Dict.get? f.name fs = some (.array vs)

namespace Proper

variable {j v : Value} {r : Record} {as : List Value}

/-- What is searched in a record of a proper definition is executable; so is what is searched in an
    array of such records. -/
theorem executable_of_searched (hj : Proper j) (hs : Searched v as) :
    (∀ r, Found j r v → Executable j as) ∧
      ∀ vs r, v = .array vs → (∀ w ∈ vs, Found j r w) → Executable j as := by
  induction hs with
  | list hf hname =>
    refine ⟨fun r hr => ?_, fun vs r e => by cases e⟩
    obtain ⟨fs, e, h⟩ := hj r _ hr
    cases e
    rcases h _ hf with hquiet | ⟨f, hown, r', vs, hcontent, hp, hget⟩
    · exact absurd (.list (List.mem_singleton.2 rfl) hname) (hquiet _)
    · cases hp
      obtain rfl := (Record.mem_actionLists_iff hr.ne_action hown hcontent).2.1 hname
      exact ⟨r, _, _, hr, rfl, f, hown, hcontent, hget⟩
  | field hf hdata hlist hv ih =>
    refine ⟨fun r hr => ?_, fun vs r e => by cases e⟩
    obtain ⟨fs, e, h⟩ := hj r _ hr
    cases e
    rcases h _ hf with hquiet | ⟨f, hown, r', vs, hcontent, hp, hget⟩
    · exact absurd (.field (List.mem_singleton.2 rfl) hdata hlist hv) (hquiet _)
    · cases hp
      have hne : r' ≠ .action := fun e => hlist vs rfl
        ((Record.mem_actionLists_iff hr.ne_action hown hcontent).2.2 e)
      exact ih.2 vs r' rfl fun w hw => .inner hr rfl hown hcontent hne hget hw
  | item hv _ ih =>
    refine ⟨fun r hr => ?_, fun vs r e hall => ?_⟩
    · obtain ⟨fs, e, -⟩ := hj r _ hr
      cases e
    · cases e
      exact ih.1 r (hall _ hv)

/-- What is searched in a record of a proper definition is searched in the definition. -/
theorem searched_of_found (hj : Proper j) (h : Found j r v) (hs : Searched v as) : Searched j as := by
  induction h with
  | whole => exact hs
  | inner hv hopened hf hcontent hr' hvs hw ih =>
    obtain ⟨fs, rfl, -⟩ := hj _ _ hv
    cases hopened
    obtain ⟨hdata, hlist⟩ := Record.mem_actionLists_iff hv.ne_action hf hcontent
    exact ih (.field (Dict.mem_of_get? hvs) hdata (fun _ _ hname => hr' (hlist.1 hname)) (.item hw hs))

/-- In a proper definition the lists that are searched are the executable content. -/
theorem searched_iff (hj : Proper j) : Searched j as ↔ Executable j as := by
  constructor
  · exact fun hs => (hj.executable_of_searched hs).1 _ .whole
  · rintro ⟨r, v, fs, hv, hopened, f, hf, hcontent, hget⟩
    obtain ⟨fs, rfl, -⟩ := hj _ _ hv
    cases hopened
    refine hj.searched_of_found hv (.list (Dict.mem_of_get? hget) ?_)
    exact (Record.mem_actionLists_iff hv.ne_action hf hcontent).2.2 rfl

end Proper

namespace Chart

/-- A definition is refused for an action of an unknown type if and only if one is in a list that is
    searched. If every field that is searched is its record's own, those lists are the executable
    content; but in any case no definition with such an action in its executable content loads. -/
theorem refuses_unknown (name : String) (version : Nat) (j : Value) :
    ((∃ e, load name version j = .error (.invalidChart e) ∧ e.code = .unknownAction) ↔
      ∃ as, Searched j as ∧ ∃ a ∈ as, ∃ type, UnknownAction type a) ∧
    (Proper j → ∀ as, Searched j as ↔ Executable j as) ∧
    ∀ as, Executable j as → (∃ a ∈ as, ∃ type, UnknownAction type a) → ∀ c, load name version j ≠ .ok c := by
  refine ⟨refused_iff, fun hj as => hj.searched_iff, ?_⟩
  rintro as has ⟨a, ha, type, hunknown⟩ c hload
  refine known_of_read ?_ has ha hunknown
  rw [(of_load hload).2.1]
  rfl

/-- A wink. -/
def wink : Value := .object [("type", .string "wink")]

/-- A door with a note beside its states, in which something looks like a list of actions. -/
def notedDoor : Value :=
  .object [("note", .object [("actions", .array [wink])]),
    ("states", .array [.object [("id", .string "Door")]])]

/-- A block of content that winks. -/
def winkingBlock : Value := .object [("actions", .array [wink])]

/-- A door that winks when it is entered, as a state. -/
def winkingState : Value := .object [("id", .string "Door"), ("on_entry", .array [winkingBlock])]

/-- A door that winks when it is entered. -/
def winkingDoor : Value := .object [("states", .array [winkingState])]

theorem found_winkingDoor {r : Record} {v : Value} (h : Found winkingDoor r v) :
    (r = .chart ∧ v = winkingDoor) ∨ (r = .state ∧ v = winkingState) ∨ (r = .block ∧ v = winkingBlock) := by
  induction h with
  | whole => exact .inl ⟨rfl, rfl⟩
  | @inner r r' v w fs f vs hv hopened hf hcontent hr' hvs hw ih =>
    revert f
    rcases ih with ⟨rfl, rfl⟩ | ⟨rfl, rfl⟩ | ⟨rfl, rfl⟩ <;> cases hopened
    · simp [Record.own, Record.fields, Field.optional, Field.defaulted, Field.names, Dict.get?]
      grind
    · simp [Record.own, Record.fields, Field.required, Field.defaulted, Field.names, Field.list,
        Dict.get?]
      grind
    · simp [Record.own, Record.fields, Field.defaulted, Field.list, Dict.get?]
      grind

theorem proper_winkingDoor : Proper winkingDoor := by
  have text (name s : String) (as : List Value) : ¬Searched (.object [(name, .string s)]) as := by
    rintro (⟨hf, -⟩ | ⟨hf, -, -, hs⟩)
    · simp at hf
    · obtain ⟨-, rfl⟩ : _ ∧ _ := by simpa using hf
      cases hs
  intro r v h
  rcases found_winkingDoor h with ⟨rfl, rfl⟩ | ⟨rfl, rfl⟩ | ⟨rfl, rfl⟩
  · refine ⟨_, rfl, ?_⟩
    simp [Record.own, Record.fields, Field.optional, Field.defaulted, Field.names, Dict.get?]
  · refine ⟨_, rfl, ?_⟩
    simp [Record.own, Record.fields, Field.required, Field.defaulted, Field.names, Field.list, Dict.get?, text]
  · refine ⟨_, rfl, ?_⟩
    simp [Record.own, Record.fields, Field.defaulted, Field.list, Dict.get?]

/-- The door with the note is refused although nothing it would execute is of an unknown type; the one
    that winks is proper and refused for its wink. -/
theorem refuses_notedDoor :
    ((∃ e, load "door" 1 notedDoor = .error (.invalidChart e) ∧ e.code = .unknownAction) ∧
      ∀ as, Executable notedDoor as → ∀ a ∈ as, ∀ type, ¬UnknownAction type a) ∧
    Proper winkingDoor ∧ Executable winkingDoor [wink] ∧ ∀ c, load "door" 1 winkingDoor ≠ .ok c := by
  have hwink : UnknownAction "wink" wink := ⟨_, rfl, rfl, by decide⟩
  have hnoted : Searched notedDoor [wink] :=
    .field List.mem_cons_self (by decide) (fun _ h => by cases h)
      (.list List.mem_cons_self (by decide))
  have hblock : Searched winkingBlock [wink] := .list List.mem_cons_self (by decide)
  have hstate : Searched winkingState [wink] :=
    .field (List.mem_cons_of_mem _ List.mem_cons_self) (by decide)
      (fun _ _ => by decide) (.item List.mem_cons_self hblock)
  have hdoor : Searched winkingDoor [wink] :=
    .field List.mem_cons_self (by decide) (fun _ _ => by decide)
      (.item List.mem_cons_self hstate)
  obtain ⟨hrefused, -, -⟩ := refuses_unknown "door" 1 notedDoor
  obtain ⟨-, hproper, hloads⟩ := refuses_unknown "door" 1 winkingDoor
  have hexec : Executable winkingDoor [wink] := (hproper proper_winkingDoor _).1 hdoor
  refine ⟨⟨hrefused.2 ⟨_, hnoted, _, List.mem_cons_self, _, hwink⟩, fun as has a ha type => ?_⟩,
    proper_winkingDoor, hexec, hloads _ hexec ⟨_, List.mem_cons_self, _, hwink⟩⟩
  exact known_of_read (by decide +kernel) has ha

end Chart
end Statechart
