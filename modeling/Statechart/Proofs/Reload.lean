import Statechart.Proofs.WellFormed
import Statechart.Proofs.Written

/-! Reading back the definition of a chart.

    Whatever was read is kept: numbers are within their bounds and variables in order since they were
    read, and every field that the written form leaves out has the value that stands for a missing
    field. No written form holds an action of an unknown type, so the definition of a chart that loads
    is accepted again and gives the same chart. -/

namespace Statechart

namespace Value

/-! ### Types of actions in written records -/

/-- The first unknown type of an action in the value of a field. -/
def unknownIn? (name : String) : Value → Option String
  | .array items =>
    if actionLists.contains name then items.findSome? unknownType? else firstUnknownItem? items
  | v => firstUnknown? v

theorem firstUnknownField?_cons (name : String) (v : Value) (fs : List (String × Value)) :
    firstUnknownField? ((name, v) :: fs) =
      if name = "datamodel" then firstUnknownField? fs
      else match unknownIn? name v with
        | some type => some type
        | none => firstUnknownField? fs := by
  cases v <;> rfl

theorem firstUnknownField?_eq_none {fs : List (String × Value)} :
    firstUnknownField? fs = none ↔ ∀ f ∈ fs, f.1 = "datamodel" ∨ unknownIn? f.1 f.2 = none := by
  induction fs with
  | nil => exact ⟨fun _ _ hf => (nomatch hf), fun _ => rfl⟩
  | cons f fs ih =>
    obtain ⟨name, v⟩ := f
    rw [firstUnknownField?_cons, List.forall_mem_cons, ← ih]
    split
    · exact ⟨fun h => ⟨.inl ‹_›, h⟩, And.right⟩
    · cases unknownIn? name v <;> simp_all

theorem firstUnknownItem?_eq_none {vs : List Value} :
    firstUnknownItem? vs = none ↔ ∀ v ∈ vs, firstUnknown? v = none := by
  induction vs with
  | nil => simp [firstUnknownItem?]
  | cons v vs ih =>
    rw [firstUnknownItem?, List.forall_mem_cons, ← ih]
    cases firstUnknown? v <;> simp

/-- Whether what is written in a field, if anything, holds no action of an unknown type. -/
def Known (f : String × Option Value) : Prop :=
  ∀ v ∈ f.2, f.1 = "datamodel" ∨ unknownIn? f.1 v.sortFields = none

theorem known_text (name s : String) : Known (name, some (.string s)) :=
  fun _ hv => Option.some.inj hv ▸ .inr rfl

theorem known_texts (name : String) (o : Option String) : Known (name, o.map .string) := by
  cases o with
  | none => exact fun _ hv => nomatch hv
  | some s => exact known_text name s

theorem known_bool (name : String) (b : Bool) : Known (name, some (.bool b)) :=
  fun _ hv => Option.some.inj hv ▸ .inr rfl

theorem known_nats (name : String) (o : Option Nat) : Known (name, o.map .ofNat) := by
  cases o with
  | none => exact fun _ hv => nomatch hv
  | some n => exact fun _ hv => Option.some.inj hv ▸ .inr rfl

theorem known_full {items : List Value} (h : Known (name, some (.array items))) :
    Known (name, full items) := by
  intro v hv
  simp only [full] at hv
  split at hv
  · cases hv
  · exact h v hv

/-- Records that hold no unknown type hold none as the items of a field that is no list of actions. -/
theorem known_records {α : Type} {write : α → Value} {as : List α} (name : String)
    (hname : actionLists.contains name = false)
    (h : ∀ a ∈ as, firstUnknown? (write a).sortFields = none) :
    Known (name, some (.array (as.map write))) := by
  intro v hv
  cases hv
  refine .inr ?_
  rw [sortFields, unknownIn?, if_neg (Bool.eq_false_iff.1 hname), sortItems_eq_map,
    firstUnknownItem?_eq_none]
  simpa using h

theorem known_names {name : String} (hname : actionLists.contains name = false) (ss : List String) :
    Known (name, some (.array (ss.map .string))) :=
  known_records _ hname fun _ _ => rfl

theorem firstUnknown?_written {l : Dict String (Option Value)} (hl : (Dict.keys l).Nodup)
    (h : ∀ f ∈ l, Known f) : firstUnknown? (.object (written l)) = none := by
  refine firstUnknownField?_eq_none.2 fun f hf => ?_
  obtain ⟨v, hv, hf⟩ := mem_written hl hf
  rw [hf]
  exact h (f.1, some v) hv v rfl

end Value

open Value

namespace Param

/-- The fields of the written form. -/
def parts (p : Param) : Dict String (Option Value) :=
  [("name", some (.string p.name)), ("expr", p.expr.map .string)]

theorem nodup_parts (p : Param) : (Dict.keys p.parts).Nodup :=
  (by decide : ["name", "expr"].Nodup)

theorem document_eq (p : Param) : p.document = .object (present p.parts) := by
  simp [document, parts, present_cons, optionalField_eq]

theorem kept (p : Param) : Kept read? document p := by
  have hl := p.nodup_parts
  have hname : required (written p.parts) "name" readText = some p.name :=
    required_written hl rfl rfl
  have hexpr : optional (written p.parts) "expr" readText = some p.expr := optional_text hl rfl
  rw [Kept, document_eq, sortFields_present, read?]
  simp only [readRecord, Option.bind_eq_bind, Option.bind_some, hname, hexpr]

theorem firstUnknown?_document (p : Param) : firstUnknown? p.document.sortFields = none := by
  rw [document_eq, sortFields_present]
  refine firstUnknown?_written p.nodup_parts ?_
  simp [parts, known_text, known_texts]

end Param

namespace Action

/-- The word for the type of an action. -/
def word : Action → String
  | .log .. => "log"
  | .raise _ => "raise"
  | .assign .. => "assign"
  | .send .. => "send"
  | .cancel _ => "cancel"

/-- The fields of the written form behind the type. -/
def ownParts : Action → Dict String (Option Value)
  | .log label expr => [("label", label.map .string), ("expr", expr.map .string)]
  | .raise event => [("event", some (.string event))]
  | .assign location expr => [("location", some (.string location)), ("expr", some (.string expr))]
  | .send id target kind event delay params =>
    [("id", id.map .string), ("target", target.map .string), ("send_type", kind.map .string),
      ("event", some (.string event)), ("delay_ms", some (.ofNat delay)),
      ("params", full (params.map Param.document))]
  | .cancel sendId => [("sendid", some (.string sendId))]

/-- The fields of the written form. -/
def parts (a : Action) : Dict String (Option Value) := ("type", some (.string a.word)) :: a.ownParts

theorem keys_parts (a : Action) : Dict.keys a.parts = "type" :: fieldNames a.word := by
  cases a <;> rfl

theorem nodup_parts (a : Action) : (Dict.keys a.parts).Nodup := by
  rw [keys_parts]
  cases a <;> (simp only [word]; decide)

theorem document_eq (a : Action) : a.document = .object (present a.parts) := by
  cases a <;>
    simp [document, parts, ownParts, word, present_cons, optionalField_eq, listField_eq]

theorem required_type (a : Action) : required (written a.parts) "type" readText = some a.word :=
  required_written a.nodup_parts rfl rfl

theorem unknownType?_document (a : Action) : unknownType? a.document.sortFields = none := by
  have htype : Dict.get? "type" (written a.parts) = some (.string a.word) :=
    get?_written a.nodup_parts
  rw [document_eq, sortFields_present, unknownType?, field?, htype]
  cases a <;> rfl

/-- The fields of an action are read back. -/
theorem readFields?_parts {a : Action} (hdelay : ∀ {id target kind event delay params},
    a = .send id target kind event delay params → delay < bound64) :
    readFields? a.word (written a.parts) = some a := by
  have hl := a.nodup_parts
  cases a with
  | log label expr =>
    have hlabel : optional (written (parts _)) "label" readText = some label := optional_text hl rfl
    have hexpr : optional (written (parts _)) "expr" readText = some expr := optional_text hl rfl
    simp [readFields?, word, hlabel, hexpr]
  | raise event =>
    have hevent : required (written (parts _)) "event" readText = some event :=
      required_written hl rfl rfl
    simp [readFields?, word, hevent]
  | assign location expr =>
    have hlocation : required (written (parts _)) "location" readText = some location :=
      required_written hl rfl rfl
    have hexpr : required (written (parts _)) "expr" readText = some expr :=
      required_written hl rfl rfl
    simp [readFields?, word, hlocation, hexpr]
  | send id target kind event delay params =>
    have hid : optional (written (parts _)) "id" readText = some id := optional_text hl rfl
    have htarget : optional (written (parts _)) "target" readText = some target :=
      optional_text hl rfl
    have hkind : optional (written (parts _)) "send_type" readText = some kind :=
      optional_text hl rfl
    have hevent : required (written (parts _)) "event" readText = some event :=
      required_written hl rfl rfl
    have hdelay : defaulted (written (parts _)) "delay_ms" 0 (readNat bound64) = some delay :=
      defaulted_written hl rfl (readNat_ofNat (hdelay rfl) (Nat.le_refl _))
    have hparams : defaulted (written (parts _)) "params" [] (readList Param.read?) = some params :=
      list_written hl rfl fun p _ => p.kept
    simp [readFields?, word, hid, htarget, hkind, hevent, hdelay, hparams]
  | cancel sendId =>
    have hsend : required (written (parts _)) "sendid" readText = some sendId :=
      required_written hl rfl rfl
    simp [readFields?, word, hsend]

/-- The delay of a message that was read fits in 64 bits. -/
theorem delay_lt_of_readFields {type : String} {fields : Object} {id target kind : Option String}
    {event : String} {delay : Nat} {params : List Param}
    (h : readFields? type fields = some (.send id target kind event delay params)) :
    delay < bound64 := by
  unfold readFields? at h
  split at h
  · simp [Option.bind_eq_some_iff] at h
  split at h
  · simp at h
  split at h
  · simp [Option.bind_eq_some_iff] at h
  split at h
  · simp only [Option.bind_eq_bind, Option.bind_eq_some_iff] at h
    obtain ⟨_, -, _, -, _, -, _, -, _, hdelay, _, -, h⟩ := h
    cases h
    exact lt_of_defaulted (by decide) hdelay
  split at h
  · simp at h
  · cases h

theorem kept {v : Value} {a : Action} (h : read? v = some a) : Kept read? document a := by
  obtain ⟨type, fields, h⟩ : ∃ type fields, readFields? type fields = some a := by
    unfold read? at h
    split at h
    · obtain ⟨type, -, h⟩ := Option.bind_eq_some_iff.1 h
      exact ⟨type, _, h⟩
    · obtain ⟨type, -, h⟩ := Option.bind_eq_some_iff.1 h
      obtain ⟨fields, -, h⟩ := Option.bind_eq_some_iff.1 h
      exact ⟨type, fields, h⟩
    · cases h
  rw [Kept, document_eq, sortFields_present, read?]
  simp only [Option.bind_eq_bind, required_type, Option.bind_some]
  exact readFields?_parts fun e => delay_lt_of_readFields (e ▸ h)

/-- The actions of a field are kept. -/
theorem kept_of_readAll {fields : Object} {name : String} {as : List Action}
    (h : defaulted fields name [] readAll? = some as) : ∀ a ∈ as, Kept read? document a :=
  kept_of_defaulted h kept

/-- Actions are of known types wherever they may stand. -/
theorem known_actions {name : String} (hname : actionLists.contains name = true)
    (as : List Action) : Known (name, some (.array (as.map document))) := by
  intro v hv
  cases hv
  refine .inr ?_
  rw [sortFields, unknownIn?, if_pos hname, sortItems_eq_map, List.findSome?_eq_none_iff]
  simp [unknownType?_document]

end Action

namespace Block

/-- The fields of the written form. -/
def parts (b : Block) : Dict String (Option Value) :=
  [("raise_event", some (.bool b.announce)),
    ("actions", some (.array (b.actions.map Action.document)))]

theorem nodup_parts (b : Block) : (Dict.keys b.parts).Nodup :=
  (by decide : ["raise_event", "actions"].Nodup)

theorem document_eq (b : Block) : b.document = .object (present b.parts) := rfl

theorem kept {v : Value} {b : Block} (h : read? v = some b) : Kept read? document b := by
  simp only [read?, Option.bind_eq_bind, Option.bind_eq_some_iff] at h
  obtain ⟨fields, -, announce, -, actions, hactions, h⟩ := h
  cases h
  have hl := nodup_parts ⟨announce, actions⟩
  have hannounce : defaulted (written (parts _)) "raise_event" false readBool = some announce :=
    defaulted_written hl rfl rfl
  have hactions : defaulted (written (parts _)) "actions" [] Action.readAll? = some actions :=
    defaulted_written hl rfl (mapM_of_kept (Action.kept_of_readAll hactions))
  rw [Kept, document_eq, sortFields_present, read?]
  simp only [readRecord, Option.bind_eq_bind, Option.bind_some, hannounce, hactions]

theorem firstUnknown?_document (b : Block) : firstUnknown? b.document.sortFields = none := by
  rw [document_eq, sortFields_present]
  refine firstUnknown?_written b.nodup_parts ?_
  simp [parts, known_bool, Action.known_actions, actionLists]

end Block

namespace TransitionDef

/-- The fields of the written form. -/
def parts (t : TransitionDef) : Dict String (Option Value) :=
  [("event", t.event.map .string), ("cond", t.cond.map .string),
    ("target", full (t.target.map .string)), ("type", some (.string t.kind.word)),
    ("actions", full (t.actions.map Action.document))]

theorem nodup_parts (t : TransitionDef) : (Dict.keys t.parts).Nodup :=
  (by decide : ["event", "cond", "target", "type", "actions"].Nodup)

theorem document_eq (t : TransitionDef) : t.document = .object (present t.parts) := by
  simp [document, parts, present_cons, optionalField_eq, listField_eq]

theorem kept {v : Value} {t : TransitionDef} (h : read? v = some t) : Kept read? document t := by
  simp only [read?, Option.bind_eq_bind, Option.bind_eq_some_iff] at h
  obtain ⟨fields, -, event, -, cond, -, target, -, kind, -, actions, hactions, h⟩ := h
  cases h
  have hl := nodup_parts ⟨event, cond, target, kind, actions⟩
  have hevent : optional (written (parts _)) "event" readText = some event := optional_text hl rfl
  have hcond : optional (written (parts _)) "cond" readText = some cond := optional_text hl rfl
  have htarget : defaulted (written (parts _)) "target" [] readNames = some target :=
    names_written hl rfl
  have hkind : defaulted (written (parts _)) "type" .external (readWord TransitionKind.words) =
      some kind := defaulted_written hl rfl (by cases kind <;> rfl)
  have hactions : defaulted (written (parts _)) "actions" [] Action.readAll? = some actions :=
    list_written hl rfl (Action.kept_of_readAll hactions)
  rw [Kept, document_eq, sortFields_present, read?]
  simp only [readRecord, Option.bind_eq_bind, Option.bind_some, hevent, hcond, htarget, hkind, hactions]

theorem firstUnknown?_document (t : TransitionDef) : firstUnknown? t.document.sortFields = none := by
  rw [document_eq, sortFields_present]
  refine firstUnknown?_written t.nodup_parts ?_
  simp [parts, known_text, known_texts, known_full, known_names, Action.known_actions, actionLists]

end TransitionDef

namespace HistoryDef

/-- The fields of the written form. -/
def parts (h : HistoryDef) : Dict String (Option Value) :=
  [("id", some (.string h.id)), ("type", some (.string h.kind.word)),
    ("target", some (ofStrings h.target)), ("actions", full (h.actions.map Action.document))]

theorem nodup_parts (h : HistoryDef) : (Dict.keys h.parts).Nodup :=
  (by decide : ["id", "type", "target", "actions"].Nodup)

theorem document_eq (h : HistoryDef) : h.document = .object (present h.parts) := by
  simp [document, parts, present_cons, listField_eq]

theorem kept {v : Value} {y : HistoryDef} (h : read? v = some y) : Kept read? document y := by
  simp only [read?, Option.bind_eq_bind, Option.bind_eq_some_iff] at h
  obtain ⟨fields, -, id, -, kind, -, target, -, actions, hactions, h⟩ := h
  cases h
  have hl := nodup_parts ⟨id, kind, target, actions⟩
  have hid : required (written (parts _)) "id" readText = some id := required_written hl rfl rfl
  have hkind : defaulted (written (parts _)) "type" .shallow (readWord HistoryKind.words) =
      some kind := defaulted_written hl rfl (by cases kind <;> rfl)
  have htarget : defaulted (written (parts _)) "target" [] readNames = some target :=
    defaulted_written hl rfl (mapM_of_kept (show ∀ t ∈ target, Kept readText Value.string t
      from fun _ _ => rfl))
  have hactions : defaulted (written (parts _)) "actions" [] Action.readAll? = some actions :=
    list_written hl rfl (Action.kept_of_readAll hactions)
  rw [Kept, document_eq, sortFields_present, read?]
  simp only [readRecord, Option.bind_eq_bind, Option.bind_some, hid, hkind, htarget, hactions]

theorem firstUnknown?_document (h : HistoryDef) : firstUnknown? h.document.sortFields = none := by
  rw [document_eq, sortFields_present]
  refine firstUnknown?_written h.nodup_parts ?_
  simp [parts, known_text, known_full, ofStrings, known_names, Action.known_actions, actionLists]

end HistoryDef

namespace InvokeDef

/-- The fields of the written form. -/
def parts (i : InvokeDef) : Dict String (Option Value) :=
  [("id", i.id.map .string), ("type", i.kind.map .string), ("src", i.src.map .string),
    ("srcexpr", i.srcexpr.map .string), ("autoforward", some (.bool i.autoforward)),
    ("params", full (i.params.map Param.document)),
    ("finalize", full (i.finalize.map Action.document))]

theorem nodup_parts (i : InvokeDef) : (Dict.keys i.parts).Nodup :=
  (by decide : ["id", "type", "src", "srcexpr", "autoforward", "params", "finalize"].Nodup)

theorem document_eq (i : InvokeDef) : i.document = .object (present i.parts) := by
  simp [document, parts, present_cons, optionalField_eq, listField_eq]

theorem kept {v : Value} {i : InvokeDef} (h : read? v = some i) : Kept read? document i := by
  simp only [read?, Option.bind_eq_bind, Option.bind_eq_some_iff] at h
  obtain ⟨fields, -, id, -, kind, -, src, -, srcexpr, -, auto, -, params, -, finalize, hfinalize, h⟩ :=
    h
  cases h
  have hl := nodup_parts ⟨id, kind, src, srcexpr, auto, params, finalize⟩
  have hid : optional (written (parts _)) "id" readText = some id := optional_text hl rfl
  have hkind : optional (written (parts _)) "type" readText = some kind := optional_text hl rfl
  have hsrc : optional (written (parts _)) "src" readText = some src := optional_text hl rfl
  have hsrcexpr : optional (written (parts _)) "srcexpr" readText = some srcexpr :=
    optional_text hl rfl
  have hauto : defaulted (written (parts _)) "autoforward" false readBool = some auto :=
    defaulted_written hl rfl rfl
  have hparams : defaulted (written (parts _)) "params" [] (readList Param.read?) = some params :=
    list_written hl rfl fun p _ => p.kept
  have hfinalize : defaulted (written (parts _)) "finalize" [] Action.readAll? = some finalize :=
    list_written hl rfl (Action.kept_of_readAll hfinalize)
  rw [Kept, document_eq, sortFields_present, read?]
  simp only [readRecord, Option.bind_eq_bind, Option.bind_some, hid, hkind, hsrc, hsrcexpr, hauto,
    hparams, hfinalize]

theorem firstUnknown?_document (i : InvokeDef) : firstUnknown? i.document.sortFields = none := by
  have hparams : Known ("params", some (.array (i.params.map Param.document))) :=
    known_records _ (by decide) fun p _ => p.firstUnknown?_document
  rw [document_eq, sortFields_present]
  refine firstUnknown?_written i.nodup_parts ?_
  simp [parts, known_texts, known_bool, known_full, hparams, Action.known_actions, actionLists]

end InvokeDef

namespace StateDef

/-- The fields of the written form. -/
def parts (s : StateDef) : Dict String (Option Value) :=
  [("id", some (.string s.id)), ("kind", some (.string s.kind.word)),
    ("initial", full (s.initial.map .string)),
    ("initial_actions", full (s.initialActions.map Action.document)),
    ("datamodel", filled s.datamodel), ("states", full (s.states.map document)),
    ("transitions", full (s.transitions.map TransitionDef.document)),
    ("on_entry", full (s.onEntry.map Block.document)),
    ("on_exit", full (s.onExit.map Block.document)),
    ("history", full (s.history.map HistoryDef.document)),
    ("invoke", full (s.invoke.map InvokeDef.document))]

theorem nodup_parts (s : StateDef) : (Dict.keys s.parts).Nodup :=
  (by decide : fieldNames.Nodup)

theorem documents_eq_map (ss : List StateDef) : documents ss = ss.map document := by
  induction ss with
  | nil => rfl
  | cons s ss ih => rw [documents, ih, List.map_cons]

theorem document_eq (s : StateDef) : s.document = .object (present s.parts) := by
  cases s
  simp [document, parts, present_cons, documents_eq_map, listField_eq, mapField_eq]

theorem readItems?_eq_mapM (vs : List Value) : readItems? vs = vs.mapM read? := by
  induction vs with
  | nil => rfl
  | cons v vs ih =>
    rw [readItems?, ih, List.mapM_cons]
    cases read? v with
    | none => rfl
    | some s => cases List.mapM read? vs <;> rfl

theorem readStates?_eq_readList (v : Value) : readStates? v = readList read? v := by
  cases v with
  | array items => exact readItems?_eq_mapM items
  | null | bool | number | string | object => rfl

theorem readNested?_eq_defaulted (fields : Object) :
    readNested? fields = defaulted fields "states" [] (readList read?) := by
  induction fields with
  | nil => rfl
  | cons f fields ih =>
    obtain ⟨name, v⟩ := f
    rw [readNested?, ih, defaulted, defaulted, Dict.get?]
    by_cases hname : name = "states"
    · rw [if_pos hname, if_pos hname.symm, readStates?_eq_readList]
    · rw [if_neg hname, if_neg (Ne.symm hname)]

theorem read?_object (fields : Object) : read? (.object fields) =
    (defaulted fields "states" [] (readList read?)).bind (readWith? fields) := by
  rw [read?, readNested?_eq_defaulted]
  cases defaulted fields "states" [] (readList read?) <;> rfl

/-- A state is kept if the states in it are. -/
theorem kept_of_readWith {fields : Object} {states : List StateDef} {s : StateDef}
    (hf : OrderedFields fields) (hstates : ∀ s ∈ states, Kept read? document s)
    (h : readWith? fields states = some s) : Kept read? document s := by
  simp only [readWith?, Option.bind_eq_bind, Option.bind_eq_some_iff] at h
  obtain ⟨id, -, kind, -, initial, -, initialActions, hinitialActions, datamodel, hdatamodel,
    transitions, htransitions, onEntry, honEntry, onExit, honExit, history, hhistory, invoke, hinvoke,
    h⟩ := h
  cases h
  have hl := nodup_parts ⟨id, kind, initial, initialActions, datamodel, states, transitions, onEntry,
    onExit, history, invoke⟩
  have hid : required (written (parts _)) "id" readText = some id := required_written hl rfl rfl
  have hkind : defaulted (written (parts _)) "kind" .state (readWord StateKind.words) = some kind :=
    defaulted_written hl rfl (by cases kind <;> rfl)
  have hinitial : defaulted (written (parts _)) "initial" [] readNames = some initial :=
    names_written hl rfl
  have hinitialActions : defaulted (written (parts _)) "initial_actions" [] Action.readAll? =
      some initialActions := list_written hl rfl (Action.kept_of_readAll hinitialActions)
  have hdatamodel : defaulted (written (parts _)) "datamodel" [] readObject = some datamodel :=
    map_written hl rfl (ordered_of_defaulted hf hdatamodel)
  have hstates : defaulted (written (parts _)) "states" [] (readList read?) = some states :=
    list_written hl rfl hstates
  have htransitions : defaulted (written (parts _)) "transitions" [] (readList TransitionDef.read?) =
      some transitions := list_written hl rfl (kept_of_defaulted htransitions TransitionDef.kept)
  have honEntry : defaulted (written (parts _)) "on_entry" [] (readList Block.read?) = some onEntry :=
    list_written hl rfl (kept_of_defaulted honEntry Block.kept)
  have honExit : defaulted (written (parts _)) "on_exit" [] (readList Block.read?) = some onExit :=
    list_written hl rfl (kept_of_defaulted honExit Block.kept)
  have hhistory : defaulted (written (parts _)) "history" [] (readList HistoryDef.read?) =
      some history := list_written hl rfl (kept_of_defaulted hhistory HistoryDef.kept)
  have hinvoke : defaulted (written (parts _)) "invoke" [] (readList InvokeDef.read?) = some invoke :=
    list_written hl rfl (kept_of_defaulted hinvoke InvokeDef.kept)
  rw [Kept, document_eq, sortFields_present, read?_object, hstates]
  simp only [Option.bind_some, readWith?, Option.bind_eq_bind, hid, hkind, hinitial, hinitialActions,
    hdatamodel, htransitions, honEntry, honExit, hhistory, hinvoke]

mutual

/-- Every state that is read from a value in order is kept. -/
theorem kept : ∀ {v : Value} {s : StateDef}, v.Ordered → read? v = some s → Kept read? document s
  | .object fields, s, hv, h => by
    rw [read?] at h
    split at h
    · exact kept_of_readWith hv.2 (kept_of_readNested hv.2 ‹_›) h
    · cases h
  | .array items, s, hv, h => by
    rw [read?] at h
    split at h
    · exact kept_of_readWith (ordered_readRecord hv ‹_›) (kept_of_readNestedAt hv ‹_›) h
    · cases h
  | .null, _, _, h | .bool _, _, _, h | .number _, _, _, h | .string _, _, _, h => nomatch h

theorem kept_of_readNested : ∀ {fields : List (String × Value)} {ss : List StateDef},
    OrderedFields fields → readNested? fields = some ss → ∀ s ∈ ss, Kept read? document s
  | [], _, _, h => by
    cases h
    exact fun s hs => nomatch hs
  | (name, v) :: fields, _, hf, h => by
    rw [readNested?] at h
    split at h
    · exact kept_of_readStates hf.1 h
    · exact kept_of_readNested hf.2 h

theorem kept_of_readNestedAt : ∀ {names : List String} {vs : List Value} {ss : List StateDef},
    OrderedItems vs → readNestedAt? names vs = some ss → ∀ s ∈ ss, Kept read? document s
  | name :: names, v :: vs, _, hv, h => by
    rw [readNestedAt?] at h
    split at h
    · exact kept_of_readStates hv.1 h
    · exact kept_of_readNestedAt hv.2 h
  | [], _, _, _, h | _ :: _, [], _, _, h => by
    simp only [readNestedAt?, Option.some.injEq] at h
    subst h
    exact fun s hs => nomatch hs

theorem kept_of_readStates : ∀ {v : Value} {ss : List StateDef},
    v.Ordered → readStates? v = some ss → ∀ s ∈ ss, Kept read? document s
  | .array _, _, hv, h => kept_of_readItems hv h
  | .null, _, _, h | .bool _, _, _, h | .number _, _, _, h | .string _, _, _, h
  | .object _, _, _, h => nomatch h

theorem kept_of_readItems : ∀ {vs : List Value} {ss : List StateDef},
    OrderedItems vs → readItems? vs = some ss → ∀ s ∈ ss, Kept read? document s
  | [], _, _, h => by
    cases h
    exact fun s hs => nomatch hs
  | v :: vs, _, hv, h => by
    rw [readItems?] at h
    split at h
    · cases h
    split at h
    · cases h
    cases h
    exact List.forall_mem_cons.2 ⟨kept hv.1 ‹_›, kept_of_readItems hv.2 ‹_›⟩

end

mutual

/-- No state is written with an action of an unknown type in it. -/
theorem firstUnknown?_document : ∀ s : StateDef, firstUnknown? s.document.sortFields = none
  | ⟨id, kind, initial, initialActions, datamodel, states, transitions, onEntry, onExit, history,
      invoke⟩ => by
    have hdatamodel : Known ("datamodel", filled datamodel) := fun _ _ => .inl rfl
    have hstates : Known ("states", some (.array (states.map document))) :=
      known_records _ (by decide) (firstUnknown?_documents states)
    have htransitions := known_records "transitions" (by decide)
      fun t (_ : t ∈ transitions) => t.firstUnknown?_document
    have honEntry := known_records "on_entry" (by decide)
      fun b (_ : b ∈ onEntry) => b.firstUnknown?_document
    have honExit := known_records "on_exit" (by decide)
      fun b (_ : b ∈ onExit) => b.firstUnknown?_document
    have hhistory := known_records "history" (by decide)
      fun h (_ : h ∈ history) => h.firstUnknown?_document
    have hinvoke := known_records "invoke" (by decide)
      fun i (_ : i ∈ invoke) => i.firstUnknown?_document
    rw [document_eq, sortFields_present]
    refine firstUnknown?_written (nodup_parts _) ?_
    simp [parts, known_text, known_full, known_names, Action.known_actions, actionLists, hdatamodel,
      hstates, htransitions, honEntry, honExit, hhistory, hinvoke]

theorem firstUnknown?_documents :
    ∀ ss : List StateDef, ∀ s ∈ ss, firstUnknown? s.document.sortFields = none
  | [] => fun _ hs => nomatch hs
  | s :: ss => List.forall_mem_cons.2 ⟨firstUnknown?_document s, firstUnknown?_documents ss⟩

end

end StateDef

namespace Definition

/-- The fields of the written form. -/
def parts (d : Definition) : Dict String (Option Value) :=
  [("name", d.name.map .string), ("version", d.version.map .ofNat),
    ("initial", full (d.initial.map .string)), ("datamodel", filled d.datamodel),
    ("states", some (.array (d.states.map StateDef.document)))]

theorem nodup_parts (d : Definition) : (Dict.keys d.parts).Nodup :=
  (by decide : ["name", "version", "initial", "datamodel", "states"].Nodup)

theorem document_eq (d : Definition) : d.document = .object (present d.parts) := by
  obtain ⟨name, _ | version, initial, datamodel, states⟩ := d <;>
    simp [document, parts, present_cons, StateDef.documents_eq_map, optionalField_eq, listField_eq,
      mapField_eq]

/-- Every definition that is read from a value in order is kept. -/
theorem kept {v : Value} {d : Definition} (hv : v.Ordered) (h : read? v = some d) :
    Kept read? document d := by
  simp only [read?, Option.bind_eq_bind, Option.bind_eq_some_iff] at h
  obtain ⟨fields, hfields, name, -, version, hversion, initial, -, datamodel, hdatamodel, states,
    hstates, h⟩ := h
  cases h
  have hf := ordered_readRecord hv hfields
  have hl := nodup_parts ⟨name, version, initial, datamodel, states⟩
  have hname : optional (written (parts _)) "name" readText = some name := optional_text hl rfl
  have hversion : optional (written (parts _)) "version" (readNat bound32) = some version :=
    optional_written hl rfl rfl fun n hn =>
      readNat_ofNat (lt_of_optional hversion n hn) (by decide)
  have hinitial : defaulted (written (parts _)) "initial" [] readNames = some initial :=
    names_written hl rfl
  have hdatamodel : defaulted (written (parts _)) "datamodel" [] readObject = some datamodel :=
    map_written hl rfl (ordered_of_defaulted hf hdatamodel)
  have hkept : ∀ s ∈ states, Kept StateDef.read? StateDef.document s := by
    obtain ⟨w, hw, hstates⟩ := Option.bind_eq_some_iff.1 hstates
    exact StateDef.kept_of_readStates (orderedFields_iff.1 hf _ (Dict.mem_of_get? hw)) hstates
  have hstates : required (written (parts _)) "states" StateDef.readStates? = some states :=
    required_written hl rfl ((StateDef.readStates?_eq_readList _).trans (mapM_of_kept hkept))
  rw [Kept, document_eq, sortFields_present, read?]
  simp only [readRecord, Option.bind_eq_bind, Option.bind_some, hname, hversion, hinitial, hdatamodel,
    hstates]

theorem firstUnknown?_document (d : Definition) : firstUnknown? d.document.sortFields = none := by
  have hdatamodel : Known ("datamodel", filled d.datamodel) := fun _ _ => .inl rfl
  have hstates := known_records "states" (by decide)
    fun s (_ : s ∈ d.states) => s.firstUnknown?_document
  rw [document_eq, sortFields_present]
  refine firstUnknown?_written d.nodup_parts ?_
  simp [parts, known_texts, known_nats, known_full, known_names, actionLists, hdatamodel, hstates]

end Definition

namespace Chart

variable {name : String} {version : Nat} {v : Value} {c : Chart}

theorem of_compile {d : Definition} (h : compile name version d = .ok c) :
    c.definition = d ∧ c.checksum = Checksum.ofText d.document.text := by
  obtain ⟨o, k, targets, hb⟩ := built_of_compile h
  exact ⟨hb.definition, hb.checksum⟩

/-- A chart that loads is compiled from the definition that is read. -/
theorem of_load (h : load name version v = .ok c) :
    firstUnknown? v = none ∧ Definition.read? v = some c.definition ∧
      compile name version c.definition = .ok c ∧
        c.checksum = Checksum.ofText c.definition.document.text := by
  unfold load at h
  split at h
  · cases h
  split at h
  · cases h
  rename_i hv _ d hd
  split at h
  · cases h
  rename_i c' hc
  cases h
  obtain ⟨hdef, hsum⟩ := of_compile hc
  exact ⟨hv, hdef ▸ hd, hdef ▸ hc, hdef ▸ hsum⟩

/-- What is read as the definition of a chart that loads gives the same chart. -/
theorem load_of_read {w : Value} (h : load name version v = .ok c) (hw : firstUnknown? w = none)
    (hd : Definition.read? w = some c.definition) : load name version w = .ok c := by
  simp only [load, hw, hd, (of_load h).2.2.1]

/-- The definition of a chart that loads is read from its written form. -/
theorem read?_toValue (hv : v.Ordered) (h : load name version v = .ok c) :
    Definition.read? c.toValue = some c.definition := Definition.kept hv (of_load h).2.1

theorem load_toValue (hv : v.Ordered) (h : load name version v = .ok c) :
    load name version c.toValue = .ok c :=
  load_of_read h c.definition.firstUnknown?_document (read?_toValue hv h)

end Chart

end Statechart
