import Statechart.Definition.Basic
import Statechart.Value.Printer

/-! The written form of definitions.

    Every record lists its fields in one fixed order. Fields that are absent, and lists and maps that
    are empty, are left out, save the few that are always written; so two ways to write the same
    definition have one written form, from which the checksum is taken. -/

namespace Statechart

open Value (ofStrings)

/-- A field that is left out when it is absent. -/
def optionalField (name : String) : Option String → List (String × Value)
  | some s => [(name, .string s)]
  | none => []

/-- A list that is left out when it is empty. -/
def listField (name : String) (items : List Value) : List (String × Value) :=
  if items.isEmpty then [] else [(name, .array items)]

/-- A map that is left out when it is empty. -/
def mapField (name : String) (fields : Object) : List (String × Value) :=
  if fields.isEmpty then [] else [(name, .object fields)]

/-- The word for a kind of transition. -/
def TransitionKind.word : TransitionKind → String
  | .external => "external"
  | .internal => "internal"

/-- The word for a kind of history. -/
def HistoryKind.word : HistoryKind → String
  | .shallow => "shallow"
  | .deep => "deep"

/-- The word for a kind of state. -/
def StateKind.word : StateKind → String
  | .state => "state"
  | .parallel => "parallel"
  | .final => "final"

/-- A named argument. -/
def Param.document (p : Param) : Value :=
  .object ([("name", .string p.name)] ++ optionalField "expr" p.expr)

/-- An action, its type first. -/
def Action.document : Action → Value
  | .log label expr =>
    .object ([("type", .string "log")] ++ optionalField "label" label ++ optionalField "expr" expr)
  | .raise event => .object [("type", .string "raise"), ("event", .string event)]
  | .assign location expr =>
    .object [("type", .string "assign"), ("location", .string location), ("expr", .string expr)]
  | .send id target kind event delay params =>
    .object ([("type", .string "send")] ++ optionalField "id" id ++ optionalField "target" target ++
      optionalField "send_type" kind ++
      [("event", .string event), ("delay_ms", .ofNat delay)] ++
      listField "params" (params.map Param.document))
  | .cancel sendId => .object [("type", .string "cancel"), ("sendid", .string sendId)]

/-- A block of content. -/
def Block.document (b : Block) : Value :=
  .object [("raise_event", .bool b.announce), ("actions", .array (b.actions.map Action.document))]

/-- A transition. -/
def TransitionDef.document (t : TransitionDef) : Value :=
  .object (optionalField "event" t.event ++ optionalField "cond" t.cond ++
    listField "target" (t.target.map .string) ++
    [("type", .string t.kind.word)] ++ listField "actions" (t.actions.map Action.document))

/-- A history. -/
def HistoryDef.document (h : HistoryDef) : Value :=
  .object ([("id", .string h.id), ("type", .string h.kind.word), ("target", ofStrings h.target)] ++
    listField "actions" (h.actions.map Action.document))

/-- A process. -/
def InvokeDef.document (i : InvokeDef) : Value :=
  .object (optionalField "id" i.id ++ optionalField "type" i.kind ++ optionalField "src" i.src ++
    optionalField "srcexpr" i.srcexpr ++ [("autoforward", .bool i.autoforward)] ++
    listField "params" (i.params.map Param.document) ++
    listField "finalize" (i.finalize.map Action.document))

mutual

/-- A state. -/
def StateDef.document : StateDef → Value
  | { id, kind, initial, initialActions, datamodel, states, transitions, onEntry, onExit, history,
      invoke } =>
    .object ([("id", .string id), ("kind", .string kind.word)] ++
      listField "initial" (initial.map .string) ++
      listField "initial_actions" (initialActions.map Action.document) ++
      mapField "datamodel" datamodel ++
      listField "states" (StateDef.documents states) ++
      listField "transitions" (transitions.map TransitionDef.document) ++
      listField "on_entry" (onEntry.map Block.document) ++
      listField "on_exit" (onExit.map Block.document) ++
      listField "history" (history.map HistoryDef.document) ++
      listField "invoke" (invoke.map InvokeDef.document))

/-- States one after the other. -/
def StateDef.documents : List StateDef → List Value
  | [] => []
  | s :: ss => s.document :: StateDef.documents ss

end

/-- A chart. -/
def Definition.document (d : Definition) : Value :=
  .object (optionalField "name" d.name ++
    (match d.version with
      | some v => [("version", .ofNat v)]
      | none => []) ++
    listField "initial" (d.initial.map .string) ++
    mapField "datamodel" d.datamodel ++
    [("states", .array (StateDef.documents d.states))])

end Statechart
