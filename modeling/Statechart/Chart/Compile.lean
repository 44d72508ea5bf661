import Statechart.Chart.Check
import Statechart.Chart.Layout
import Statechart.Checksum
import Statechart.Definition.Reader

/-! From definitions to charts.

    After the checks and the numbering, target names are resolved, in the order of the transitions, and
    what the transitions and histories name is validated: initial transitions lead to states below
    their source, the targets of a transition can be active together, the default targets of a history
    lie where it can record them, and no two processes share a name. Then every transition gets its
    domain, the innermost state that stays active when it is taken. A chart that compiles can be run
    without further checks. -/

namespace Statechart

namespace Arrow

/-- The nodes of the target names, each once, in the order of first mention. -/
def resolveFrom (nodes : NodeTable) (found : List NodeId) :
    List String → Except ChartError (List NodeId)
  | [] => .ok found
  | id :: ids =>
    match nodes.find? id with
    | none => .error (.unknownTarget id)
    | some n => resolveFrom nodes (if found.contains n then found else found ++ [n]) ids

/-- The nodes of the targets. -/
def resolve (nodes : NodeTable) (a : Arrow) : Except ChartError (List NodeId) :=
  resolveFrom nodes [] a.targets

end Arrow

namespace NodeTable

/-- Whether two states can be active together: neither contains the other, and the innermost state
    that contains both is parallel. -/
def compatible (t : NodeTable) (a b : NodeId) : Bool :=
  !t.descends a b && !t.descends b a &&
    match (t.node a).ancestors.find? fun anc => t.descends b anc with
    | some meet => (t.node meet).isParallel
    | none => false

/-- Whether every two of a list of targets can be active together. -/
def legalTargets (t : NodeTable) : List NodeId → Bool
  | [] => true
  | a :: as => as.all (t.compatible a) && t.legalTargets as

/-- Whether a transition is internal: declared so, and from a compound state to states below it. -/
def isInternal (t : NodeTable) (source : Option NodeId) (kind : TransitionKind)
    (targets : List NodeId) : Bool :=
  match source with
  | none => false
  | some s => kind = .internal && (t.node s).isCompound && targets.all fun x => t.descends x s

/-- The domain of a transition: the innermost compound state that contains its source and its targets;
    the source itself if the transition is internal. -/
def domain (t : NodeTable) (source : Option NodeId) (internal : Bool) (targets : List NodeId) :
    Option NodeId :=
  if targets.isEmpty then none
  else
    match source with
    | none => none
    | some s =>
      if internal then some s
      else
        (t.node s).ancestors.find? fun anc =>
          (t.node anc).isCompound && targets.all fun x => t.descends x anc

/-- The name of the source of a transition. -/
def sourceName (t : NodeTable) (a : Arrow) : Option String := a.source.map fun s => (t.node s).id

/-- The first target of an initial transition that is no state below its source. -/
def firstOutside? (t : NodeTable) (source : Option NodeId) (targets : List NodeId) : Option NodeId :=
  targets.find? fun x =>
    !((source.map (t.descends x)).getD false) || (t.node x).isHistory

/-- What is wrong with the targets of a transition. -/
def targetError? (t : NodeTable) (a : Arrow) (targets : List NodeId) : Option ChartError :=
  let placed :=
    match a.origin with
    | .chart => if targets.any fun x => (t.node x).isHistory then some .chartInitialHistory else none
    | .initial =>
      (t.firstOutside? a.source targets).map fun x =>
        .initialOutside (t.sourceName a) (t.node x).id
    | .history | .event => none
  match placed with
  | some e => some e
  | none =>
    if 1 < targets.length ∧ t.legalTargets targets = false then
      some (.conflictingTargets (t.sourceName a))
    else none

/-- Whether a history can stand for a node: a child of its state if it is shallow, any state below if
    it is deep. -/
def historyCovers (t : NodeTable) (kind : HistoryKind) (owner x : NodeId) : Bool :=
  (match kind with
    | .shallow => (t.node x).parent == some owner
    | .deep => t.descends x owner) && !(t.node x).isHistory

/-- What is wrong with the default targets of a history. -/
def historyError? (t : NodeTable) (targetsOf : TransitionId → List NodeId) (n : Node) :
    Option ChartError :=
  match n.kind, n.parent, n.initial with
  | .history kind, some owner, some default =>
    ((targetsOf default).find? fun x => !t.historyCovers kind owner x).map fun x =>
      .historyTarget (t.node x).id n.id kind (t.node owner).id
  | _, _, _ => none

end NodeTable

/-- The first process name that an earlier process has. -/
def firstRepeated? (taken : List String) : List Invoke → Option String
  | [] => none
  | i :: is =>
    match i.id with
    | none => firstRepeated? taken is
    | some id => if taken.contains id then some id else firstRepeated? (id :: taken) is

/-- The targets of every arrow, in order. -/
def resolveAll (nodes : NodeTable) : List Arrow → Except ChartError (List (List NodeId))
  | [] => .ok []
  | a :: as =>
    match a.resolve nodes with
    | .error e => .error e
    | .ok targets =>
      match resolveAll nodes as with
      | .error e => .error e
      | .ok rest => .ok (targets :: rest)

/-- The first thing that is wrong with resolved parts. -/
def firstError? (nodes : NodeTable) (arrows : List (Arrow × List NodeId)) (invokes : List Invoke) :
    Option ChartError :=
  let targetsOf (i : TransitionId) : List NodeId := (arrows[i]?.map Prod.snd).getD []
  match arrows.findSome? fun (a, targets) => nodes.targetError? a targets with
  | some e => some e
  | none =>
    match nodes.toList.findSome? (nodes.historyError? targetsOf) with
    | some e => some e
    | none => (firstRepeated? [] invokes).map .duplicateInvoke

/-- A transition of the chart. -/
def Arrow.complete (nodes : NodeTable) (a : Arrow) (targets : List NodeId) : Transition :=
  let internal := nodes.isInternal a.source a.kind targets
  { source := a.source
    origin := a.origin
    trigger := a.trigger
    cond := a.cond
    targets := targets
    kind := a.kind
    internal := internal
    domain := nodes.domain a.source internal targets
    actions := a.actions
    order := a.order
    observable := a.observable }

namespace Chart

/-- The chart of a definition. -/
def compile (name : String) (version : Nat) (d : Definition) : Except ChartError Chart :=
  if d.states.isEmpty then .error (.noStates name)
  else
    match StateDef.checkAll [] d.states with
    | .error e => .error e
    | .ok _ =>
      let (children, parts) := d.outline
      let nodes := parts.nodes.toArray
      match resolveAll nodes parts.arrows with
      | .error e => .error e
      | .ok targets =>
        let arrows := parts.arrows.zip targets
        match firstError? nodes arrows parts.invokes with
        | some e => .error e
        | none =>
          .ok {
            name, version, nodes, children
            transitions := (arrows.map fun (a, targets) => a.complete nodes targets).toArray
            invokes := parts.invokes.toArray
            initial := parts.arrows.length - 1
            checksum := Checksum.ofText d.document.text
            definition := d }

/-- The chart that a value defines. Unknown actions are refused before anything else is looked at. -/
def load (name : String) (version : Nat) (v : Value) : Except MachineError Chart :=
  match firstUnknown? v with
  | some type => .error (.invalidChart (.unknownAction type))
  | none =>
    match Definition.read? v with
    | none => .error .malformed
    | some d =>
      match compile name version d with
      | .error e => .error (.invalidChart e)
      | .ok c => .ok c

end Chart
end Statechart
