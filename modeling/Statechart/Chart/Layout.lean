import Statechart.Chart.Basic

/-! Numbering: the places of a definition's parts in the tables of its chart.

    Walking the tree, a state takes the next index for itself, then its histories, then its children;
    its transitions are those for events, the default ones of its histories, its children's, and last the
    one through which it is entered itself. One counter gives document orders to nodes and event
    transitions; a default transition borrows the order of what it belongs to. Observables are given to
    a state, the transition through which it is entered, its event transitions, its histories each with
    its default transition, and then its children. -/

namespace Statechart

/-- The next free number of each kind. -/
structure Cursor where
  node : Nat
  transition : Nat
  invoke : Nat
  order : Nat
  observable : Nat
  deriving DecidableEq

/-- A transition whose targets are still names. -/
structure Arrow where
  source : Option NodeId
  origin : Origin
  trigger : Trigger
  cond : Option String
  targets : List String
  kind : TransitionKind
  actions : List Action
  order : Nat
  observable : Nat

/-- The parts of a chart, each list in the order of its table. -/
structure Outline where
  nodes : List Node
  arrows : List Arrow
  invokes : List Invoke

namespace Outline

/-- No parts. -/
def empty : Outline := ⟨[], [], []⟩

/-- The parts of two outlines, those of the first in front. -/
def append (a b : Outline) : Outline :=
  ⟨a.nodes ++ b.nodes, a.arrows ++ b.arrows, a.invokes ++ b.invokes⟩

end Outline

namespace StateDef

/-- One if the state has a transition of its own through which it is entered. -/
def initialCount (s : StateDef) : Nat := if s.isCompound then 1 else 0

/-- The numbers that are free behind a state's own node, histories, transitions and processes. -/
def childCursor (s : StateDef) (c : Cursor) : Cursor where
  node := c.node + 1 + s.history.length
  transition := c.transition + s.transitions.length + s.history.length
  invoke := c.invoke + s.invoke.length
  order := c.order + 1 + s.transitions.length + s.history.length
  observable := c.observable + 1 + s.initialCount + s.transitions.length + 2 * s.history.length

/-- The event transitions of a state. -/
def eventArrows (s : StateDef) (c : Cursor) : List Arrow :=
  s.transitions.zipIdx.map fun (t, j) =>
    { source := some c.node
      origin := .event
      trigger := (t.event.map Trigger.ofText).getD .eventless
      cond := t.cond
      targets := t.target
      kind := t.kind
      actions := t.actions
      order := c.order + 1 + j
      observable := c.observable + 1 + s.initialCount + j }

/-- The histories of a state. -/
def historyNodes (s : StateDef) (above : List NodeId) (c : Cursor) : List Node :=
  s.history.zipIdx.map fun (h, j) =>
    { index := c.node + 1 + j
      id := h.id
      kind := .history h.kind
      parent := some c.node
      ancestors := c.node :: above
      children := []
      histories := []
      transitions := []
      initial := some (c.transition + s.transitions.length + j)
      onEntry := []
      onExit := []
      invokes := []
      datamodel := []
      order := c.order + 1 + s.transitions.length + j
      observable := c.observable + 1 + s.initialCount + s.transitions.length + 2 * j }

/-- The default transitions of a state's histories. -/
def historyArrows (s : StateDef) (c : Cursor) : List Arrow :=
  s.history.zipIdx.map fun (h, j) =>
    { source := some c.node
      origin := .history
      trigger := .eventless
      cond := none
      targets := h.target
      kind := .external
      actions := h.actions
      order := c.order + 1 + s.transitions.length + j
      observable := c.observable + 1 + s.initialCount + s.transitions.length + 2 * j + 1 }

/-- The transition through which a compound state is entered. -/
def initialArrows (s : StateDef) (c : Cursor) : List Arrow :=
  if s.isCompound then
    [{ source := some c.node
       origin := .initial
       trigger := .eventless
       cond := none
       targets := s.initialTargets
       kind := .external
       actions := s.initialActions
       order := c.order
       observable := c.observable + 1 }]
  else []

/-- The processes of a state. -/
def processes (s : StateDef) (c : Cursor) : List Invoke :=
  s.invoke.map fun i =>
    { id := i.id
      kind := i.kind.getD ""
      source :=
        match i.src with
        | some text => .fixed text
        | none => .computed (i.srcexpr.getD "")
      autoforward := i.autoforward
      params := i.params
      finalize := i.finalize
      owner := c.node }

/-- The node of a state, its children and the place behind them being known. -/
def ownNode (s : StateDef) (above : List NodeId) (c : Cursor) (children : List NodeId)
    (behind : Cursor) : Node where
  index := c.node
  id := s.id
  kind :=
    match s.kind with
    | .state => .state
    | .parallel => .parallel
    | .final => .final
  parent := above.head?
  ancestors := above
  children := children
  histories := (List.range s.history.length).map fun j => c.node + 1 + j
  transitions := (List.range s.transitions.length).map fun j => c.transition + j
  initial := if s.isCompound then some behind.transition else none
  onEntry := s.onEntry
  onExit := s.onExit
  invokes := (List.range s.invoke.length).map fun j => c.invoke + j
  datamodel := s.datamodel
  order := c.order
  observable := c.observable

/-- The parts of a state, those of its children and the numbers free behind them being known. -/
def assemble (s : StateDef) (above : List NodeId) (c : Cursor) (children : List NodeId)
    (inner : Outline) (behind : Cursor) : Outline × Cursor :=
  ( { nodes := s.ownNode above c children behind :: s.historyNodes above c ++ inner.nodes
      arrows := s.eventArrows c ++ s.historyArrows c ++ inner.arrows ++ s.initialArrows c
      invokes := s.processes c ++ inner.invokes },
    { behind with transition := behind.transition + s.initialCount } )

mutual

/-- The parts of a state below the given ancestors, numbered from a cursor on. -/
def outline (above : List NodeId) (c : Cursor) : StateDef → Outline × Cursor
  | s@{ states, .. } =>
    let (children, inner, behind) := outlineAll (c.node :: above) (s.childCursor c) states
    s.assemble above c children inner behind

/-- The nodes of states one after the other, and the parts of all of them. -/
def outlineAll (above : List NodeId) (c : Cursor) : List StateDef → List NodeId × Outline × Cursor
  | [] => ([], .empty, c)
  | s :: ss =>
    let (first, c') := outline above c s
    let (rest, others, c'') := outlineAll above c' ss
    (c.node :: rest, first.append others, c'')

end

end StateDef

namespace Definition

/-- Where numbering starts: observable zero is the chart's and one is that of its initial
    transition. -/
def startCursor : Cursor := ⟨0, 0, 0, 0, 2⟩

/-- The transition with which the chart starts. -/
def initialArrow (d : Definition) : Arrow where
  source := none
  origin := .chart
  trigger := .eventless
  cond := none
  targets := d.initialTargets
  kind := .external
  actions := []
  order := 0
  observable := 1

/-- The top-level nodes of a definition, and all its parts, the chart's own transition last. -/
def outline (d : Definition) : List NodeId × Outline :=
  let (children, parts, _) := StateDef.outlineAll [] startCursor d.states
  (children, { parts with arrows := parts.arrows ++ [d.initialArrow] })

end Definition
end Statechart
