import Statechart.Definition.Basic
import Statechart.Text.Blank
import Statechart.Value.Reader

/-! Reading definitions.

    Only the name of a state and the list of a chart's states are required; everything else has a
    default. Lists of targets are written as an array of names or as one text with blanks between the
    names. -/

namespace Statechart

open Value (readText readBool readNat readList readObject readWord readRecord required optional
  defaulted)

/-- A list of names. -/
def readNames : Value → Option (List String)
  | .string s => some (Text.words s)
  | v => readList readText v

/-- A named argument. -/
def Param.read? (v : Value) : Option Param := do
  let fields ← readRecord ["name", "expr"] v
  let name ← required fields "name" readText
  let expr ← optional fields "expr" readText
  some ⟨name, expr⟩

namespace Action

/-- The fields of an action of a type. -/
def readFields? (type : String) (fields : Object) : Option Action :=
  if type = "log" then do
    let label ← optional fields "label" readText
    let expr ← optional fields "expr" readText
    some (.log label expr)
  else if type = "raise" then (required fields "event" readText).map .raise
  else if type = "assign" then do
    let location ← required fields "location" readText
    let expr ← required fields "expr" readText
    some (.assign location expr)
  else if type = "send" then do
    let id ← optional fields "id" readText
    let target ← optional fields "target" readText
    let kind ← optional fields "send_type" readText
    let event ← required fields "event" readText
    let delay ← defaulted fields "delay_ms" 0 (readNat Value.bound64)
    let params ← defaulted fields "params" [] (readList Param.read?)
    some (.send id target kind event delay params)
  else if type = "cancel" then (required fields "sendid" readText).map .cancel
  else none

/-- The names of the fields of an action of a type in their order. -/
def fieldNames (type : String) : List String :=
  if type = "log" then ["label", "expr"]
  else if type = "raise" then ["event"]
  else if type = "assign" then ["location", "expr"]
  else if type = "send" then ["id", "target", "send_type", "event", "delay_ms", "params"]
  else if type = "cancel" then ["sendid"]
  else []

/-- An action, its type in the field `type` or in front of its other fields. -/
def read? : Value → Option Action
  | .object fields => do
    let type ← required fields "type" readText
    readFields? type fields
  | .array (type :: items) => do
    let type ← readText type
    let fields ← readRecord (fieldNames type) (.array items)
    readFields? type fields
  | _ => none

/-- A list of actions. -/
def readAll? : Value → Option (List Action) := readList read?

end Action

/-- A block of content. -/
def Block.read? (v : Value) : Option Block := do
  let fields ← readRecord ["raise_event", "actions"] v
  let announce ← defaulted fields "raise_event" false readBool
  let actions ← defaulted fields "actions" [] Action.readAll?
  some ⟨announce, actions⟩

/-- The words for the kinds of transitions. -/
def TransitionKind.words : List (String × TransitionKind) :=
  [("external", .external), ("internal", .internal)]

/-- The words for the kinds of histories. -/
def HistoryKind.words : List (String × HistoryKind) := [("shallow", .shallow), ("deep", .deep)]

/-- The words for the kinds of states. -/
def StateKind.words : List (String × StateKind) :=
  [("state", .state), ("parallel", .parallel), ("final", .final)]

/-- A transition. -/
def TransitionDef.read? (v : Value) : Option TransitionDef := do
  let fields ← readRecord ["event", "cond", "target", "type", "actions"] v
  let event ← optional fields "event" readText
  let cond ← optional fields "cond" readText
  let target ← defaulted fields "target" [] readNames
  let kind ← defaulted fields "type" .external (readWord TransitionKind.words)
  let actions ← defaulted fields "actions" [] Action.readAll?
  some ⟨event, cond, target, kind, actions⟩

/-- A history. -/
def HistoryDef.read? (v : Value) : Option HistoryDef := do
  let fields ← readRecord ["id", "type", "target", "actions"] v
  let id ← required fields "id" readText
  let kind ← defaulted fields "type" .shallow (readWord HistoryKind.words)
  let target ← defaulted fields "target" [] readNames
  let actions ← defaulted fields "actions" [] Action.readAll?
  some ⟨id, kind, target, actions⟩

/-- A process. -/
def InvokeDef.read? (v : Value) : Option InvokeDef := do
  let fields ← readRecord ["id", "type", "src", "srcexpr", "autoforward", "params", "finalize"] v
  let id ← optional fields "id" readText
  let kind ← optional fields "type" readText
  let src ← optional fields "src" readText
  let srcexpr ← optional fields "srcexpr" readText
  let autoforward ← defaulted fields "autoforward" false readBool
  let params ← defaulted fields "params" [] (readList Param.read?)
  let finalize ← defaulted fields "finalize" [] Action.readAll?
  some ⟨id, kind, src, srcexpr, autoforward, params, finalize⟩

namespace StateDef

/-- The names of the fields of a state in their order. -/
def fieldNames : List String :=
  ["id", "kind", "initial", "initial_actions", "datamodel", "states", "transitions", "on_entry",
    "on_exit", "history", "invoke"]

/-- A state whose children have been read. -/
def readWith? (fields : Object) (states : List StateDef) : Option StateDef := do
  let id ← required fields "id" readText
  let kind ← defaulted fields "kind" .state (readWord StateKind.words)
  let initial ← defaulted fields "initial" [] readNames
  let initialActions ← defaulted fields "initial_actions" [] Action.readAll?
  let datamodel ← defaulted fields "datamodel" [] readObject
  let transitions ← defaulted fields "transitions" [] (readList TransitionDef.read?)
  let onEntry ← defaulted fields "on_entry" [] (readList Block.read?)
  let onExit ← defaulted fields "on_exit" [] (readList Block.read?)
  let history ← defaulted fields "history" [] (readList HistoryDef.read?)
  let invoke ← defaulted fields "invoke" [] (readList InvokeDef.read?)
  some { id, kind, initial, initialActions, datamodel, states, transitions, onEntry, onExit,
         history, invoke }

mutual

/-- A state. -/
def read? : Value → Option StateDef
  | .object fields =>
    match readNested? fields with
    | some states => readWith? fields states
    | none => none
  | .array items =>
    match readNestedAt? fieldNames items, readRecord fieldNames (.array items) with
    | some states, some fields => readWith? fields states
    | _, _ => none
  | _ => none

/-- The states in the field `states` of a list of fields; none if the field is missing. -/
def readNested? : List (String × Value) → Option (List StateDef)
  | [] => some []
  | (name, v) :: fields => if name = "states" then readStates? v else readNested? fields

/-- The states in the item that stands in the place of the name `states`; none if there is no such
    item. -/
def readNestedAt? : List String → List Value → Option (List StateDef)
  | name :: names, v :: vs =>
    if name = "states" then readStates? v else readNestedAt? names vs
  | _, _ => some []

/-- An array of states. -/
def readStates? : Value → Option (List StateDef)
  | .array items => readItems? items
  | _ => none

/-- States one after the other. -/
def readItems? : List Value → Option (List StateDef)
  | [] => some []
  | v :: vs =>
    match read? v with
    | none => none
    | some s =>
      match readItems? vs with
      | none => none
      | some ss => some (s :: ss)

end

end StateDef

namespace Definition

/-- A chart. -/
def read? (v : Value) : Option Definition := do
  let fields ← readRecord ["name", "version", "initial", "datamodel", "states"] v
  let name ← optional fields "name" readText
  let version ← optional fields "version" (readNat Value.bound32)
  let initial ← defaulted fields "initial" [] readNames
  let datamodel ← defaulted fields "datamodel" [] readObject
  let states ← required fields "states" StateDef.readStates?
  some ⟨name, version, initial, datamodel, states⟩

end Definition
end Statechart
