import Statechart.Error
import Statechart.Text.Blank
import Statechart.Value.Basic

/-! What a definition must satisfy before its names are resolved.

    Two checks: no list of actions, wherever it stands, holds an action of an unknown type; and every
    state, in document order, has only the parts that its kind allows, a name of its own without blanks,
    default targets for its histories, and a type and one source for each of its processes. -/

namespace Statechart

/-- The types of actions. -/
def actionTypes : List String := ["log", "raise", "assign", "send", "cancel"]

/-- The fields that hold lists of actions. -/
def actionLists : List String := ["actions", "initial_actions", "finalize"]

/-- The type of an action if it is a text and not a known type. -/
def unknownType? (action : Value) : Option String :=
  match (action.field? "type").bind Value.string? with
  | some type => if actionTypes.contains type then none else some type
  | none => none

mutual

/-- The first unknown type of an action in a value. -/
def firstUnknown? : Value → Option String
  | .object fields => firstUnknownField? fields
  | .array items => firstUnknownItem? items
  | _ => none

/-- The first unknown type in the fields of an object; variables are data and not looked into. -/
def firstUnknownField? : List (String × Value) → Option String
  | [] => none
  | (name, v) :: fields =>
    if name = "datamodel" then firstUnknownField? fields
    else
      let found :=
        match v with
        | .array items =>
          if actionLists.contains name then items.findSome? unknownType? else firstUnknownItem? items
        | v => firstUnknown? v
      match found with
      | some type => some type
      | none => firstUnknownField? fields

/-- The first unknown type in the items of an array. -/
def firstUnknownItem? : List Value → Option String
  | [] => none
  | v :: vs =>
    match firstUnknown? v with
    | some type => some type
    | none => firstUnknownItem? vs

end

/-- The names taken so far and one more, if it is a name and not taken. -/
def claimId (taken : List String) (id : String) : Except ChartError (List String) :=
  if id = "" ∨ id.toList.any Text.isBlank then .error (.invalidId id)
  else if taken.contains id then .error (.duplicateId id)
  else .ok (id :: taken)

/-- A history has a default target and a name of its own. -/
def HistoryDef.check (taken : List String) (h : HistoryDef) : Except ChartError (List String) :=
  if h.target.isEmpty then .error (.historyWithoutTarget h.id) else claimId taken h.id

/-- Histories one after the other. -/
def HistoryDef.checkAll (taken : List String) : List HistoryDef → Except ChartError (List String)
  | [] => .ok taken
  | h :: hs =>
    match h.check taken with
    | .error e => .error e
    | .ok taken => HistoryDef.checkAll taken hs

/-- A process has a type and one source. -/
def InvokeDef.check (owner : String) (i : InvokeDef) : Except ChartError Unit :=
  match i.kind, i.src, i.srcexpr with
  | none, _, _ => .error (.invokeWithoutType owner)
  | some _, none, none => .error (.invokeWithoutSource owner)
  | some _, some _, some _ => .error (.invokeWithTwoSources owner)
  | some _, _, _ => .ok ()

/-- Processes one after the other. -/
def InvokeDef.checkAll (owner : String) : List InvokeDef → Except ChartError Unit
  | [] => .ok ()
  | i :: is =>
    match i.check owner with
    | .error e => .error e
    | .ok () => InvokeDef.checkAll owner is

/-- A state has only the parts that its kind allows. -/
def StateDef.checkShape (s : StateDef) : Except ChartError Unit :=
  if s.kind = .final ∧
      ¬(s.states.isEmpty ∧ s.transitions.isEmpty ∧ s.history.isEmpty ∧ s.invoke.isEmpty) then
    .error (.finalContent s.id)
  else if s.kind = .parallel ∧ s.states.isEmpty then .error (.noRegions s.id)
  else if (¬s.initial.isEmpty ∨ ¬s.initialActions.isEmpty) ∧ ¬s.isCompound then
    .error (.initialOfSimple s.id)
  else if ¬s.history.isEmpty ∧ s.states.isEmpty then .error (.historyOfSimple s.id)
  else .ok ()

/-- The checks of a state that come before those of its children. -/
def StateDef.checkOwn (taken : List String) (s : StateDef) : Except ChartError (List String) := do
  s.checkShape
  let taken ← claimId taken s.id
  let taken ← HistoryDef.checkAll taken s.history
  InvokeDef.checkAll s.id s.invoke
  .ok taken

mutual

/-- A state and all that is in it; gives the names taken. -/
def StateDef.check (taken : List String) : StateDef → Except ChartError (List String)
  | s@{ states, .. } =>
    match s.checkOwn taken with
    | .error e => .error e
    | .ok taken => StateDef.checkAll taken states

/-- States one after the other. -/
def StateDef.checkAll (taken : List String) : List StateDef → Except ChartError (List String)
  | [] => .ok taken
  | s :: ss =>
    match s.check taken with
    | .error e => .error e
    | .ok taken => StateDef.checkAll taken ss

end
end Statechart
