import Statechart.Error
import Statechart.Store.Basic
import Statechart.Value.Reader

/-! Snapshots: stores as data, by names instead of indices.

    A snapshot says of which chart it is by name, version and checksum, and only the checksum is
    trusted. Restoring one checks that its active states are a configuration of the chart, which is what
    makes a restored machine as good as one that ran; its records of histories are taken as they are. -/

namespace Statechart

/-- A store as data. -/
structure Snapshot where
  chart : String
  version : Nat
  checksum : String
  sessionId : String
  running : Bool
  configuration : List String
  histories : Dict String (List String)
  contexts : Dict String Object
  globals : Object
  createdAt : Int

namespace Snapshot

/-- A snapshot as a record, its fields in the order of their declaration. -/
def document (s : Snapshot) : Value :=
  .object [("chart", .string s.chart), ("version", .ofNat s.version),
    ("checksum", .string s.checksum), ("session_id", .string s.sessionId),
    ("running", .bool s.running), ("configuration", .ofStrings s.configuration),
    ("histories", .object (s.histories.map fun (h, states) => (h, .ofStrings states))),
    ("contexts", .object (s.contexts.map fun (n, vars) => (n, .object vars))),
    ("globals", .object s.globals), ("created_at", .number (.ofInt s.createdAt))]

/-- The names of the fields of a snapshot in their order. -/
def fieldNames : List String :=
  ["chart", "version", "checksum", "session_id", "running", "configuration", "histories", "contexts",
    "globals", "created_at"]

/-- Reads a snapshot; histories and variables may be missing. -/
def read? (v : Value) : Option Snapshot := do
  let fields ← Value.readRecord fieldNames v
  let chart ← Value.required fields "chart" Value.readText
  let version ← Value.required fields "version" (Value.readNat Value.bound32)
  let checksum ← Value.required fields "checksum" Value.readText
  let sessionId ← Value.required fields "session_id" Value.readText
  let running ← Value.required fields "running" Value.readBool
  let configuration ← Value.required fields "configuration" (Value.readList Value.readText)
  let histories ←
    Value.defaulted fields "histories" [] (Value.readDict (Value.readList Value.readText))
  let contexts ← Value.defaulted fields "contexts" [] (Value.readDict Value.readObject)
  let globals ← Value.defaulted fields "globals" [] Value.readObject
  let createdAt ← Value.required fields "created_at" Value.readInt
  some { chart, version, checksum, sessionId, running, configuration, histories, contexts,
         globals, createdAt }

end Snapshot

namespace Store

/-- A store as a snapshot. -/
def snapshot (c : Chart) (running : Bool) (s : Store) : Snapshot :=
  let name (n : NodeId) := (c.node n).id
  { chart := c.name
    version := c.version
    checksum := c.checksum
    sessionId := s.sessionId
    running := running
    configuration := s.leafNames c
    histories := Dict.ofList (s.histories.map fun (h, states) => (name h, states.map name))
    contexts := Dict.ofList (s.contexts.map fun (n, vars) => (name n, vars))
    globals := s.globals
    createdAt := s.createdAt }

/-- How many of a list of states are in a set. -/
def countIn (all : NodeSet) (ns : List NodeId) : Nat := (ns.filter all.contains).length

/-- What is wrong with one active state, given all of them. -/
def stateError? (c : Chart) (all : NodeSet) (running : Bool) (i : NodeId) :
    Option ConfigurationError :=
  let n := c.node i
  if n.isTopLevelFinal then
    if all.length ≠ 1 then some (.finalNotAlone n.id)
    else if running then some (.finalWhileRunning n.id)
    else none
  else if n.isCompound then
    if countIn all n.children ≠ 1 then some (.compoundChildren n.id) else none
  else if n.isParallel then
    if countIn all n.children ≠ n.children.length then some (.inactiveRegion n.id) else none
  else none

/-- The first thing that is wrong with a set of active leaves, the active states taken by index. -/
def configurationError? (c : Chart) (leaves : NodeSet) (running : Bool) :
    Option ConfigurationError :=
  if leaves.isEmpty then if running then some .emptyWhileRunning else none
  else
    let all := c.closure leaves
    if countIn all c.children ≠ 1 then some .topLevelCount
    else all.findSome? (stateError? c all running)

/-- The state of a name. -/
def resolve (c : Chart) (id : String) : Except SnapshotError NodeId :=
  match c.find? id with
  | some n => .ok n
  | none => .error (.unknownState id)

/-- The leaves of a list of names. -/
def resolveLeaves (c : Chart) : List String → Except SnapshotError NodeSet
  | [] => .ok []
  | id :: ids =>
    match resolve c id with
    | .error e => .error e
    | .ok n =>
      if (c.node n).isAtomic then (resolveLeaves c ids).map (NodeSet.insert n)
      else .error (.notAtomic id)

/-- The states of a list of names. -/
def resolveStates (c : Chart) : List String → Except SnapshotError NodeSet
  | [] => .ok []
  | id :: ids =>
    match resolve c id with
    | .error e => .error e
    | .ok n => (resolveStates c ids).map (NodeSet.insert n)

/-- The records of histories by index. -/
def resolveHistories (c : Chart) :
    List (String × List String) → Except SnapshotError (Dict NodeId NodeSet)
  | [] => .ok []
  | (h, ids) :: rest =>
    match resolve c h with
    | .error e => .error e
    | .ok n =>
      if (c.node n).isHistory then
        match resolveStates c ids with
        | .error e => .error e
        | .ok states => (resolveHistories c rest).map (Dict.insert n states)
      else .error (.notHistory h)

/-- The scopes of states by index. -/
def resolveContexts (c : Chart) :
    List (String × Object) → Except SnapshotError (Dict NodeId Object)
  | [] => .ok []
  | (id, vars) :: rest =>
    match resolve c id with
    | .error e => .error e
    | .ok n => (resolveContexts c rest).map (Dict.insert n vars)

/-- The store of a snapshot. -/
def restore (c : Chart) (s : Snapshot) : Except MachineError Store :=
  if s.checksum ≠ c.checksum then .error (.badSnapshot (.checksum s.checksum c.name c.checksum))
  else
    match resolveLeaves c s.configuration with
    | .error e => .error (.badSnapshot e)
    | .ok leaves =>
      match configurationError? c leaves s.running with
      | some e => .error (.illegalConfiguration e)
      | none =>
        match resolveHistories c s.histories with
        | .error e => .error (.badSnapshot e)
        | .ok histories =>
          match resolveContexts c s.contexts with
          | .error e => .error (.badSnapshot e)
          | .ok contexts =>
            .ok (publish c { empty with
              sessionId := s.sessionId, leaves, globals := s.globals, contexts, histories,
              createdAt := s.createdAt })

end Store
end Statechart
