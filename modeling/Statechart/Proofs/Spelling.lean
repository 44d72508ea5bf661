import Mathlib.Data.List.Nodup
import Statechart.Proofs.Reload
import Statechart.Proofs.WellFormed

/-! Ways to write the same definition.

    A record may be written in more ways than one: its fields in any order, fields that are not its
    own added, a default spelled out or left out, a list of names as one text or as an array, and the
    whole record as an array of its fields. Values that differ in such ways only, at any depth, are
    respellings of each other. They are read alike, so they load to the same chart with the same
    checksum, which is that of the written form of its definition. -/

namespace Statechart

open Value

/-- The records of a definition. -/
inductive Record where
  | chart
  | state
  | transition
  | history
  | block
  | invoke
  | action
  | param

/-- What a field of a record holds. -/
inductive Content where
  | plain
  | names
  | records (r : Record)

/-- A field of a record, with the value that stands for it when it is missing. -/
structure Field where
  name : String
  content : Content
  default : Option Value

namespace Field

/-- A field that must be there. -/
def required (name : String) : Field := ⟨name, .plain, none⟩

/-- A field for which `null` stands. -/
def optional (name : String) : Field := ⟨name, .plain, some .null⟩

/-- A field with a default. -/
def defaulted (name : String) (v : Value) : Field := ⟨name, .plain, some v⟩

/-- A list of names. -/
def names (name : String) : Field := ⟨name, .names, some (.array [])⟩

/-- A list of records. -/
def list (name : String) (r : Record) : Field := ⟨name, .records r, some (.array [])⟩

end Field

/-- The fields of an action of a type. -/
def Action.ownFields (type : String) : List Field :=
  if type = "log" then [.optional "label", .optional "expr"]
  else if type = "raise" then [.required "event"]
  else if type = "assign" then [.required "location", .required "expr"]
  else if type = "send" then
    [.optional "id", .optional "target", .optional "send_type", .required "event",
      .defaulted "delay_ms" (.ofNat 0), .list "params" .param]
  else if type = "cancel" then [.required "sendid"]
  else []

/-- The fields of a record in their order; which ones an action has depends on its type. -/
def Record.fields (type : Option Value) : Record → List Field
  | .chart =>
    [.optional "name", .optional "version", .names "initial", .defaulted "datamodel" (.object []),
      ⟨"states", .records .state, none⟩]
  | .state =>
    [.required "id", .defaulted "kind" (.string "state"), .names "initial",
      .list "initial_actions" .action, .defaulted "datamodel" (.object []), .list "states" .state,
      .list "transitions" .transition, .list "on_entry" .block, .list "on_exit" .block,
      .list "history" .history, .list "invoke" .invoke]
  | .transition =>
    [.optional "event", .optional "cond", .names "target", .defaulted "type" (.string "external"),
      .list "actions" .action]
  | .history =>
    [.required "id", .defaulted "type" (.string "shallow"), .names "target", .list "actions" .action]
  | .block => [.defaulted "raise_event" (.bool false), .list "actions" .action]
  | .invoke =>
    [.optional "id", .optional "type", .optional "src", .optional "srcexpr",
      .defaulted "autoforward" (.bool false), .list "params" .param, .list "finalize" .action]
  | .action => .required "type" :: ((type.bind string?).map Action.ownFields).getD []
  | .param => [.required "name", .optional "expr"]

/-- The fields that a record with given fields may have. -/
def Record.own (r : Record) (fs : Object) : List Field := r.fields (Dict.get? "type" fs)

/-- Two ways to write the same record. -/
inductive Respelled : Record → Value → Value → Prop where
  | refl (r : Record) (v : Value) : Respelled r v v
  | symm {r : Record} {v w : Value} : Respelled r v w → Respelled r w v
  | trans {r : Record} {u v w : Value} : Respelled r u v → Respelled r v w → Respelled r u w
  /-- The order of the fields does not matter. -/
  | reordered {r : Record} {fs gs : Object} : fs.Perm gs → (Dict.keys fs).Nodup →
      Respelled r (.object fs) (.object gs)
  /-- A field that is not the record's own is ignored. -/
  | ignored {r : Record} {fs : Object} {name : String} {v : Value} :
      (∀ f ∈ r.own fs, f.name ≠ name) → Respelled r (.object ((name, v) :: fs)) (.object fs)
  /-- A default may be spelled out. -/
  | spelled {r : Record} {fs : Object} {f : Field} {v : Value} : f ∈ r.own fs →
      f.name ∉ Dict.keys fs → f.default = some v →
      Respelled r (.object ((f.name, v) :: fs)) (.object fs)
  /-- A list of names is a text or the array of its words. -/
  | names {r : Record} {fs : Object} {f : Field} {s : String} : f ∈ r.own fs →
      f.content = .names →
      Respelled r (.object ((f.name, .string s) :: fs))
        (.object ((f.name, ofStrings (Text.words s)) :: fs))
  /-- A record in the record may be written in another way. -/
  | inside {r r' : Record} {fs : Object} {f : Field} {v w : Value} {before behind : List Value} :
      f ∈ r.own fs → f.content = .records r' → Respelled r' v w →
      Respelled r (.object ((f.name, .array (before ++ v :: behind)) :: fs))
        (.object ((f.name, .array (before ++ w :: behind)) :: fs))
  /-- A record is an array of its fields. -/
  | listed {r : Record} {items : List Value} :
      items.length ≤ (r.fields items.head?).length →
      Respelled r (.array items)
        (.object (((r.fields items.head?).map Field.name).zip items))

/-- Whether two values are read as the same record. -/
def Record.Same : Record → Value → Value → Prop
  | .chart, v, w => Definition.read? v = Definition.read? w
  | .state, v, w => StateDef.read? v = StateDef.read? w
  | .transition, v, w => TransitionDef.read? v = TransitionDef.read? w
  | .history, v, w => HistoryDef.read? v = HistoryDef.read? w
  | .block, v, w => Block.read? v = Block.read? w
  | .invoke, v, w => InvokeDef.read? v = InvokeDef.read? w
  | .action, v, w => Action.read? v = Action.read? w
  | .param, v, w => Param.read? v = Param.read? w

/-! ### Fields that are read alike -/

namespace Field

/-- Two contents of a field, or its absence, that are read alike. -/
inductive Alike (f : Field) : Option Value → Option Value → Prop where
  | refl (o : Option Value) : Alike f o o
  | spelled {v : Value} : f.default = some v → Alike f (some v) none
  | names {s : String} : f.content = .names →
      Alike f (some (.string s)) (some (ofStrings (Text.words s)))
  | inside {r : Record} {v w : Value} {before behind : List Value} : f.content = .records r →
      r.Same v w →
      Alike f (some (.array (before ++ v :: behind))) (some (.array (before ++ w :: behind)))

namespace Alike

variable {name : String} {fs gs : Object} {α : Type} {read : Value → Option α}

theorem get?_eq (h : (required name).Alike (Dict.get? name fs) (Dict.get? name gs)) :
    Dict.get? name fs = Dict.get? name gs := by
  generalize Dict.get? name fs = o, Dict.get? name gs = o' at h
  cases h with
  | refl => rfl
  | spelled h | names h | inside h => cases h

theorem required_eq (h : (required name).Alike (Dict.get? name fs) (Dict.get? name gs)) :
    Value.required fs name read = Value.required gs name read := by
  rw [Value.required, get?_eq h, Value.required]

theorem optional_eq (h : (optional name).Alike (Dict.get? name fs) (Dict.get? name gs)) :
    Value.optional fs name read = Value.optional gs name read := by
  simp only [Value.optional]
  generalize Dict.get? name fs = o, Dict.get? name gs = o' at h
  cases h with
  | refl => rfl
  | spelled h =>
    cases h
    rfl
  | names h | inside h => cases h

theorem defaulted_eq {v : Value} {d : α}
    (h : (defaulted name v).Alike (Dict.get? name fs) (Dict.get? name gs)) (read : Value → Option α)
    (hd : read v = some d) :
    Value.defaulted fs name d read = Value.defaulted gs name d read := by
  simp only [Value.defaulted]
  generalize Dict.get? name fs = o, Dict.get? name gs = o' at h
  cases h with
  | refl => rfl
  | spelled h =>
    cases h
    exact hd
  | names h | inside h => cases h

/-- The words of a text are read back from the array of them. -/
theorem readNames_words (s : String) :
    readNames (ofStrings (Text.words s)) = some (Text.words s) := by
  have h : ∀ ss : List String, (ss.map Value.string).mapM readText = some ss := by
    intro ss
    induction ss with
    | nil => rfl
    | cons s ss ih =>
      rw [List.map_cons, List.mapM_cons, ih]
      rfl
  exact h (Text.words s)

theorem names_eq (h : (Field.names name).Alike (Dict.get? name fs) (Dict.get? name gs)) :
    Value.defaulted fs name [] readNames = Value.defaulted gs name [] readNames := by
  simp only [Value.defaulted]
  generalize Dict.get? name fs = o, Dict.get? name gs = o' at h
  cases h with
  | refl => rfl
  | spelled h =>
    cases h
    rfl
  | names => exact (readNames_words _).symm
  | inside h => cases h

theorem readList_eq {v w : Value} {before behind : List Value} (h : read v = read w) :
    readList read (.array (before ++ v :: behind)) = readList read (.array (before ++ w :: behind)) := by
  simp [readList, h]

theorem list_eq {r : Record} (h : (list name r).Alike (Dict.get? name fs) (Dict.get? name gs))
    (hr : ∀ {v w}, r.Same v w → read v = read w) :
    Value.defaulted fs name [] (readList read) = Value.defaulted gs name [] (readList read) := by
  simp only [Value.defaulted]
  generalize Dict.get? name fs = o, Dict.get? name gs = o' at h
  cases h with
  | refl => rfl
  | spelled h =>
    cases h
    rfl
  | names h => cases h
  | inside h hs =>
    cases h
    exact readList_eq (hr hs)

theorem required_list_eq {r : Record}
    (h : (Field.mk name (.records r) none).Alike (Dict.get? name fs) (Dict.get? name gs))
    (hr : ∀ {v w}, r.Same v w → read v = read w) :
    Value.required fs name (readList read) = Value.required gs name (readList read) := by
  simp only [Value.required]
  generalize Dict.get? name fs = o, Dict.get? name gs = o' at h
  cases h with
  | refl => rfl
  | spelled h | names h => cases h
  | inside h hs =>
    cases h
    exact readList_eq (hr hs)

end Alike

end Field

/-! ### Records whose fields are read alike -/

section

variable {fs gs : Object} {r : Record}

/-- Whether every own field of a record is read alike from two lists of fields. -/
def Record.Alike (r : Record) (fs gs : Object) : Prop :=
  ∀ f ∈ r.own fs, f.Alike (Dict.get? f.name fs) (Dict.get? f.name gs)

theorem Param.read?_eq (h : Record.param.Alike fs gs) :
    Param.read? (.object fs) = Param.read? (.object gs) := by
  simp only [Record.Alike, Record.own, Record.fields, List.forall_mem_cons] at h
  obtain ⟨hname, hexpr, -⟩ := h
  simp only [Param.read?, readRecord, Option.bind_eq_bind, Option.bind_some, hname.required_eq,
    hexpr.optional_eq]

theorem Action.readFields?_eq {type : String}
    (h : ∀ f ∈ ownFields type, f.Alike (Dict.get? f.name fs) (Dict.get? f.name gs)) :
    readFields? type fs = readFields? type gs := by
  unfold readFields?
  unfold ownFields at h
  split
  · rename_i e
    rw [if_pos e, List.forall_mem_cons, List.forall_mem_cons] at h
    obtain ⟨hlabel, hexpr, -⟩ := h
    simp only [Option.bind_eq_bind, hlabel.optional_eq, hexpr.optional_eq]
  rename_i e
  rw [if_neg e] at h
  split
  · rename_i e
    rw [if_pos e, List.forall_mem_cons] at h
    rw [h.1.required_eq]
  rename_i e
  rw [if_neg e] at h
  split
  · rename_i e
    rw [if_pos e, List.forall_mem_cons, List.forall_mem_cons] at h
    obtain ⟨hlocation, hexpr, -⟩ := h
    simp only [Option.bind_eq_bind, hlocation.required_eq, hexpr.required_eq]
  rename_i e
  rw [if_neg e] at h
  split
  · rename_i e
    simp only [if_pos e, List.forall_mem_cons] at h
    obtain ⟨hid, htarget, hkind, hevent, hdelay, hparams, -⟩ := h
    have hzero : readNat bound64 (ofNat 0) = some 0 := by decide
    simp only [Option.bind_eq_bind, hid.optional_eq, htarget.optional_eq, hkind.optional_eq,
      hevent.required_eq, hdelay.defaulted_eq _ hzero, hparams.list_eq fun h => h]
  rename_i e
  rw [if_neg e] at h
  split
  · rename_i e
    rw [if_pos e, List.forall_mem_cons] at h
    rw [h.1.required_eq]
  · rfl

theorem Action.read?_eq (h : Record.action.Alike fs gs) :
    Action.read? (.object fs) = Action.read? (.object gs) := by
  simp only [Record.Alike, Record.own, Record.fields, List.forall_mem_cons] at h
  obtain ⟨htype, hown⟩ := h
  simp only [Action.read?, Option.bind_eq_bind, ← htype.required_eq]
  cases hget : Value.required fs "type" readText with
  | none => rfl
  | some type =>
    rw [Value.required] at hget
    rw [show (Dict.get? "type" fs).bind string? = some type from hget] at hown
    exact readFields?_eq hown

theorem Block.read?_eq (h : Record.block.Alike fs gs) :
    Block.read? (.object fs) = Block.read? (.object gs) := by
  simp only [Record.Alike, Record.own, Record.fields, List.forall_mem_cons] at h
  obtain ⟨hannounce, hactions, -⟩ := h
  simp only [Block.read?, readRecord, Option.bind_eq_bind, Option.bind_some,
    hannounce.defaulted_eq readBool rfl, Action.readAll?, hactions.list_eq fun h => h]

theorem TransitionDef.read?_eq (h : Record.transition.Alike fs gs) :
    TransitionDef.read? (.object fs) = TransitionDef.read? (.object gs) := by
  simp only [Record.Alike, Record.own, Record.fields, List.forall_mem_cons] at h
  obtain ⟨hevent, hcond, htarget, hkind, hactions, -⟩ := h
  simp only [TransitionDef.read?, readRecord, Option.bind_eq_bind, Option.bind_some,
    hevent.optional_eq, hcond.optional_eq, htarget.names_eq,
    hkind.defaulted_eq (readWord TransitionKind.words) rfl, Action.readAll?, hactions.list_eq fun h => h]

theorem HistoryDef.read?_eq (h : Record.history.Alike fs gs) :
    HistoryDef.read? (.object fs) = HistoryDef.read? (.object gs) := by
  simp only [Record.Alike, Record.own, Record.fields, List.forall_mem_cons] at h
  obtain ⟨hid, hkind, htarget, hactions, -⟩ := h
  simp only [HistoryDef.read?, readRecord, Option.bind_eq_bind, Option.bind_some, hid.required_eq,
    hkind.defaulted_eq (readWord HistoryKind.words) rfl, htarget.names_eq, Action.readAll?,
    hactions.list_eq fun h => h]

theorem InvokeDef.read?_eq (h : Record.invoke.Alike fs gs) :
    InvokeDef.read? (.object fs) = InvokeDef.read? (.object gs) := by
  simp only [Record.Alike, Record.own, Record.fields, List.forall_mem_cons] at h
  obtain ⟨hid, hkind, hsrc, hsrcexpr, hauto, hparams, hfinalize, -⟩ := h
  simp only [InvokeDef.read?, readRecord, Option.bind_eq_bind, Option.bind_some, hid.optional_eq,
    hkind.optional_eq, hsrc.optional_eq, hsrcexpr.optional_eq, hauto.defaulted_eq readBool rfl,
    hparams.list_eq fun h => h, Action.readAll?, hfinalize.list_eq fun h => h]

theorem StateDef.read?_eq (h : Record.state.Alike fs gs) :
    StateDef.read? (.object fs) = StateDef.read? (.object gs) := by
  simp only [Record.Alike, Record.own, Record.fields, List.forall_mem_cons] at h
  obtain ⟨hid, hkind, hinitial, hactions, hdatamodel, hstates, htransitions, honEntry, honExit,
    hhistory, hinvoke, -⟩ := h
  have hwith : StateDef.readWith? fs = StateDef.readWith? gs := by
    funext states
    simp only [StateDef.readWith?, Option.bind_eq_bind, hid.required_eq,
      hkind.defaulted_eq (readWord StateKind.words) rfl, hinitial.names_eq, Action.readAll?,
      hactions.list_eq fun h => h, hdatamodel.defaulted_eq readObject rfl,
      htransitions.list_eq fun h => h, honEntry.list_eq fun h => h, honExit.list_eq fun h => h,
      hhistory.list_eq fun h => h, hinvoke.list_eq fun h => h]
  rw [StateDef.read?_object, StateDef.read?_object, hwith, hstates.list_eq fun h => h]

theorem Definition.read?_eq (h : Record.chart.Alike fs gs) :
    Definition.read? (.object fs) = Definition.read? (.object gs) := by
  simp only [Record.Alike, Record.own, Record.fields, List.forall_mem_cons] at h
  obtain ⟨hname, hversion, hinitial, hdatamodel, hstates, -⟩ := h
  have hread : StateDef.readStates? = readList StateDef.read? :=
    funext StateDef.readStates?_eq_readList
  simp only [Definition.read?, readRecord, Option.bind_eq_bind, Option.bind_some, hname.optional_eq,
    hversion.optional_eq, hinitial.names_eq, hdatamodel.defaulted_eq readObject rfl, hread,
    hstates.required_list_eq fun h => h]

/-- A record whose fields are read alike is read alike. -/
theorem Record.Alike.same (h : r.Alike fs gs) : r.Same (.object fs) (.object gs) := by
  cases r with
  | chart => exact Definition.read?_eq h
  | state => exact StateDef.read?_eq h
  | transition => exact TransitionDef.read?_eq h
  | history => exact HistoryDef.read?_eq h
  | block => exact Block.read?_eq h
  | invoke => exact InvokeDef.read?_eq h
  | action => exact Action.read?_eq h
  | param => exact Param.read?_eq h

end

/-! ### Respellings are read alike -/

section

variable {r : Record} {fs gs : Object} {f g : Field} {type : Option Value}

theorem Action.nodup_ownFields (type : String) :
    ("type" :: (ownFields type).map Field.name).Nodup := by
  unfold ownFields
  split
  · decide
  split
  · decide
  split
  · decide
  split
  · decide
  split <;> decide

namespace Record

/-- No record has two fields of one name. -/
theorem nodup_names (type : Option Value) (r : Record) : ((r.fields type).map Field.name).Nodup := by
  cases r with
  | action =>
    rw [fields, List.map_cons]
    cases type.bind string? with
    | none => exact List.nodup_singleton _
    | some type => exact Action.nodup_ownFields type
  | chart => exact (by decide : ["name", "version", "initial", "datamodel", "states"].Nodup)
  | state => exact (by decide : StateDef.fieldNames.Nodup)
  | transition => exact (by decide : ["event", "cond", "target", "type", "actions"].Nodup)
  | history => exact (by decide : ["id", "type", "target", "actions"].Nodup)
  | block => exact (by decide : ["raise_event", "actions"].Nodup)
  | invoke =>
    exact (by decide : ["id", "type", "src", "srcexpr", "autoforward", "params", "finalize"].Nodup)
  | param => exact (by decide : ["name", "expr"].Nodup)

theorem eq_of_name (hf : f ∈ r.fields type) (hg : g ∈ r.fields type) (h : f.name = g.name) : f = g :=
  List.inj_on_of_nodup_map (nodup_names type r) hf hg h

/-- The type of an action is not written by a field that may be missing or is a list. -/
theorem own_cons {v : Value} (hf : f ∈ r.own fs) (hne : f ≠ .required f.name) :
    r.own ((f.name, v) :: fs) = r.own fs := by
  cases r with
  | action =>
    have htype : "type" ≠ f.name := by
      intro e
      have hf' : f = .required "type" := eq_of_name hf List.mem_cons_self e.symm
      exact hne (hf' ▸ rfl)
    rw [own, Dict.get?, if_neg htype, own]
  | chart | state | transition | history | block | invoke | param => rfl

/-- Two ways to write one field of a record are two ways to write the record. -/
theorem alike_cons {v : Value} (hf : f ∈ r.own fs) (hne : f ≠ .required f.name)
    (h : f.Alike (some v) (Dict.get? f.name gs))
    (hgs : ∀ {k}, k ≠ f.name → Dict.get? k gs = Dict.get? k fs) : r.Alike ((f.name, v) :: fs) gs := by
  intro g hg
  rw [own_cons hf hne] at hg
  rw [Dict.get?]
  split
  · rename_i e
    cases eq_of_name hg hf e
    exact h
  · rename_i e
    rw [hgs e]
    exact .refl _

theorem Same.refl (r : Record) (v : Value) : r.Same v v := by
  cases r <;> exact Eq.refl _

theorem Same.symm {v w : Value} (h : r.Same v w) : r.Same w v := by
  cases r <;> exact Eq.symm h

theorem Same.trans {u v w : Value} (h : r.Same u v) (h' : r.Same v w) : r.Same u w := by
  cases r <;> exact Eq.trans h h'

end Record

theorem StateDef.readNestedAt?_eq (names : List String) (vs : List Value) :
    readNestedAt? names vs = readNested? (names.zip vs) := by
  induction names generalizing vs with
  | nil => simp [readNestedAt?, readNested?]
  | cons name names ih =>
    cases vs with
    | nil => rfl
    | cons v vs => rw [readNestedAt?, List.zip_cons_cons, readNested?, ih]

theorem Action.fieldNames_eq (type : String) : fieldNames type = (ownFields type).map Field.name := by
  unfold fieldNames ownFields
  repeat' split
  all_goals rfl

theorem Action.read?_listed {items : List Value}
    (h : items.length ≤ (Record.action.fields items.head?).length) :
    read? (.array items) =
      read? (.object (((Record.action.fields items.head?).map Field.name).zip items)) := by
  cases items with
  | nil => rfl
  | cons type items =>
    cases htype : string? type with
    | none => simp [read?, Value.required, Record.fields, Field.required, Dict.get?, readText, htype]
    | some t =>
      have hfields : Record.action.fields (some type) = .required "type" :: ownFields t := by
        simp [Record.fields, htype]
      rw [List.head?_cons, hfields] at h ⊢
      have hlength : items.length ≤ (fieldNames t).length := by
        rw [fieldNames_eq]
        simpa using h
      have hbehind : readFields? t (("type", type) :: (fieldNames t).zip items) =
          readFields? t ((fieldNames t).zip items) := readFields?_eq fun f hf => by
        have hne : f.name ≠ "type" := fun e =>
          (List.nodup_cons.1 (nodup_ownFields t)).1 (e ▸ List.mem_map_of_mem hf)
        rw [Dict.get?, if_neg hne]
        exact .refl _
      have hget : Value.required (("type", type) :: (fieldNames t).zip items) "type" readText =
          some t := htype
      rw [List.map_cons, ← fieldNames_eq, List.zip_cons_cons, Field.required, read?, read?, hget]
      simp only [Option.bind_eq_bind, readText, htype, readRecord, if_pos hlength, Option.bind_some]
      exact hbehind.symm

/-- A record is read alike from the array of its fields. -/
theorem Record.same_listed {items : List Value}
    (h : items.length ≤ (r.fields items.head?).length) :
    r.Same (.array items) (.object (((r.fields items.head?).map Field.name).zip items)) := by
  have hread : readRecord ((r.fields items.head?).map Field.name) (.array items) =
      some (((r.fields items.head?).map Field.name).zip items) := by
    rw [readRecord, if_pos (by simpa using h)]
  cases r with
  | chart | transition | history | block | invoke | param => exact congrArg (· >>= _) hread
  | state =>
    have hread : readRecord StateDef.fieldNames (.array items) =
      some (StateDef.fieldNames.zip items) := hread
    change StateDef.read? (.array items) = StateDef.read? (.object (StateDef.fieldNames.zip items))
    rw [StateDef.read?, StateDef.read?, StateDef.readNestedAt?_eq, hread]
    cases StateDef.readNested? (StateDef.fieldNames.zip items) <;> rfl
  | action => exact Action.read?_listed h

/-- Values that are respellings of each other are read alike. -/
theorem Respelled.same {v w : Value} (h : Respelled r v w) : r.Same v w := by
  induction h with
  | refl r v => exact .refl r v
  | symm _ ih => exact ih.symm
  | trans _ _ ih ih' => exact ih.trans ih'
  | reordered hperm hnodup =>
    refine Record.Alike.same fun f _ => ?_
    rw [Dict.get?_eq_of_perm hperm hnodup]
    exact .refl _
  | @ignored r fs name v hname =>
    have hown : r.own ((name, v) :: fs) = r.own fs := by
      cases r with
      | action =>
        rw [Record.own, Dict.get?, if_neg (show "type" ≠ name from hname _ List.mem_cons_self),
          Record.own]
      | chart | state | transition | history | block | invoke | param => rfl
    refine Record.Alike.same fun f hf => ?_
    rw [Dict.get?, if_neg (hname f (hown ▸ hf))]
    exact .refl _
  | @spelled r fs f v hf hmissing hdefault =>
    have hne : f ≠ .required f.name := fun e => by
      rw [e] at hdefault
      cases hdefault
    have hget : Dict.get? f.name fs = none := by
      cases h : Dict.get? f.name fs with
      | none => rfl
      | some a => exact absurd (List.mem_map_of_mem (f := Prod.fst) (Dict.mem_of_get? h)) hmissing
    exact (Record.alike_cons hf hne (hget ▸ .spelled hdefault) fun _ => rfl).same
  | @names r fs f s hf hcontent =>
    have hne : f ≠ .required f.name := fun e => by
      rw [e] at hcontent
      cases hcontent
    refine (Record.alike_cons hf hne ?_ fun hk => by rw [Dict.get?, if_neg hk]).same
    rw [Dict.get?, if_pos rfl]
    exact .names hcontent
  | @inside r r' fs f v w before behind hf hcontent _ ih =>
    have hne : f ≠ .required f.name := fun e => by
      rw [e] at hcontent
      cases hcontent
    refine (Record.alike_cons hf hne ?_ fun hk => by rw [Dict.get?, if_neg hk]).same
    rw [Dict.get?, if_pos rfl]
    exact .inside hcontent ih
  | listed h => exact Record.same_listed h

end

namespace Chart

/-- A chart that loads is given again by its own definition. However else the value it was loaded from
    is written, it loads to the same chart if the actions of all fields, also of ignored ones, are of
    known types; and whatever name and version it is loaded with, the checksum stays the same. -/
theorem load_respelled {name : String} {version : Nat} {v : Value} {c : Chart} (hv : v.Ordered)
    (h : load name version v = .ok c) :
    load name version c.toValue = .ok c ∧
      (∀ w, Respelled .chart v w → firstUnknown? w = none → load name version w = .ok c) ∧
      ∀ w name' version' c', Respelled .chart v w → load name' version' w = .ok c' →
        c'.checksum = c.checksum := by
  refine ⟨load_toValue hv h, fun w hw hknown => ?_, fun w name' version' c' hw h' => ?_⟩
  · have hread : Definition.read? v = Definition.read? w := hw.same
    exact load_of_read h hknown (hread ▸ (of_load h).2.1)
  · have hread : Definition.read? v = Definition.read? w := hw.same
    obtain ⟨-, hd, -, hsum⟩ := of_load h
    obtain ⟨-, hd', -, hsum'⟩ := of_load h'
    have hdef : c'.definition = c.definition :=
      Option.some.inj (hd'.symm.trans (hread ▸ hd))
    rw [hsum, hsum', hdef]

/-- The states of a gate that rings a bell when it is pushed, the fields of the first one given. -/
def gateStates (fields : Object) : Value :=
  .array [.object (fields ++ [("id", .string "open"), ("transitions", .array [.object
      [("actions", .array [.object [("delay_ms", .ofNat 5), ("event", .string "bell"),
        ("type", .string "send")]]), ("event", .string "push"), ("target", .string "shut")]])]),
    .object [("id", .string "shut")]]

/-- A gate. -/
def gate : Value :=
  .object [("initial", .string "open"), ("states", gateStates []), ("version", .ofNat 2)]

/-- The gate with a field that means nothing, a list for a text and a kind that goes without saying. -/
def labelledGate : Value :=
  .object [("initial", ofStrings ["open"]), ("label", .null),
    ("states", gateStates [("kind", .string "state")]), ("version", .ofNat 2)]

theorem respelled_gate : Respelled .chart gate labelledGate := by
  have hinitial : Respelled .chart gate (.object [("initial", ofStrings ["open"]),
      ("states", gateStates []), ("version", .ofNat 2)]) :=
    .names (f := .names "initial") (by simp [Record.own, Record.fields]) rfl
  have hkind : Respelled .chart
      (.object [("states", gateStates []), ("initial", ofStrings ["open"]), ("version", .ofNat 2)])
      (.object [("states", gateStates [("kind", .string "state")]), ("initial", ofStrings ["open"]),
        ("version", .ofNat 2)]) :=
    @Respelled.inside _ _ _ ⟨"states", .records .state, none⟩ _ _ [] _
      (by simp [Record.own, Record.fields]) rfl
      (.symm (.spelled (f := .defaulted "kind" (.string "state"))
        (by simp [Record.own, Record.fields]) (by decide) rfl))
  have hlabel : Respelled .chart
      (.object [("label", .null), ("states", gateStates [("kind", .string "state")]),
        ("initial", ofStrings ["open"]), ("version", .ofNat 2)])
      (.object [("states", gateStates [("kind", .string "state")]), ("initial", ofStrings ["open"]),
        ("version", .ofNat 2)]) :=
    .ignored (by simp [Record.own, Record.fields, Field.optional, Field.names, Field.defaulted])
  exact hinitial.trans (.trans (.reordered (.swap _ _ _) (by decide)) (hkind.trans (hlabel.symm.trans
    (.reordered (@List.perm_middle _ _ [_, _] _) (by decide)))))

/-- The chart of the gate. -/
def gateChart : Chart := (load "gate" 1 gate).toOption.get (by decide +kernel)

theorem load_gate : load "gate" 1 gate = .ok gateChart ∧
    load "gate" 1 gateChart.toValue = .ok gateChart ∧
    load "gate" 1 labelledGate = .ok gateChart := by
  have hv : gate.Ordered := by
    simp only [gate, gateStates, Ordered, OrderedItems, OrderedFields, Dict.keys, ofNat,
      List.nil_append, List.map_cons, List.map_nil]
    decide +kernel
  have h : load "gate" 1 gate = .ok gateChart := load_eq_ok _
  obtain ⟨htwice, hrespelled, -⟩ := load_respelled hv h
  exact ⟨h, htwice, hrespelled _ respelled_gate (by decide +kernel)⟩

end Chart

end Statechart
