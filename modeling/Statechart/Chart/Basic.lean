import Statechart.Definition.Writer
import Statechart.Event.Trigger
import Statechart.NodeSet
import Statechart.Sorting

/-! Charts: the compiled form of definitions.

    A chart is three tables, of nodes (states and histories), of transitions and of processes, each
    entry named by its index. What a machine asks for while it runs (ancestors, document order, domains)
    is in the tables. Document order is a pre-order of the tree; every node and every transition also has
    an observable, a number under which listeners are registered, zero standing for the chart. -/

namespace Statechart

/-- The index of a node in its chart. -/
abbrev NodeId := Nat

/-- The index of a transition in its chart. -/
abbrev TransitionId := Nat

/-- The index of a process declaration in its chart. -/
abbrev InvokeId := Nat

/-- What a node is. A state without children is a leaf, one with children is entered through one of
    them. -/
inductive NodeKind where
  | state
  | parallel
  | final
  | history (kind : HistoryKind)
  deriving DecidableEq

/-- A state or history. Ancestors stand nearest first. -/
structure Node where
  index : NodeId
  id : String
  kind : NodeKind
  parent : Option NodeId
  ancestors : List NodeId
  children : List NodeId
  histories : List NodeId
  transitions : List TransitionId
  initial : Option TransitionId
  onEntry : List Block
  onExit : List Block
  invokes : List InvokeId
  datamodel : Object
  order : Nat
  observable : Nat

/-- What declares a transition: a state, for an event; a compound state, for its entry; a history, for
    the time before anything is recorded; the chart, for its start. -/
inductive Origin where
  | event
  | initial
  | history
  | chart
  deriving DecidableEq

/-- A transition. No domain means the whole chart. -/
structure Transition where
  source : Option NodeId
  origin : Origin
  trigger : Trigger
  cond : Option String
  targets : List NodeId
  kind : TransitionKind
  internal : Bool
  domain : Option NodeId
  actions : List Action
  order : Nat
  observable : Nat

/-- Where a process comes from: a text, or the value of an expression. -/
inductive InvokeSource where
  | fixed (text : String)
  | computed (expr : String)
  deriving DecidableEq

/-- A process declared in a state. -/
structure Invoke where
  id : Option String
  kind : String
  source : InvokeSource
  autoforward : Bool
  params : List Param
  finalize : List Action
  owner : NodeId

instance : Inhabited Node where
  default := ⟨0, "", .state, none, [], [], [], [], none, [], [], [], [], 0, 0⟩

instance : Inhabited Transition where
  default := ⟨none, .event, .eventless, none, [], .external, false, none, [], 0, 0⟩

instance : Inhabited Invoke where
  default := ⟨none, "", .fixed "", false, [], [], 0⟩

namespace Node

/-- A state with children, one of which is active when it is. -/
def isCompound (n : Node) : Bool := n.kind = .state && !n.children.isEmpty

/-- A state all of whose children are active when it is. -/
def isParallel (n : Node) : Bool := n.kind = .parallel

/-- A final state. -/
def isFinal (n : Node) : Bool := n.kind = .final

/-- A history, which is never active itself. -/
def isHistory (n : Node) : Bool :=
  match n.kind with
  | .history _ => true
  | _ => false

/-- A state without children. -/
def isAtomic (n : Node) : Bool :=
  match n.kind with
  | .state => n.children.isEmpty
  | .final => true
  | _ => false

/-- A final state at the top, on whose entry the machine stops. -/
def isTopLevelFinal (n : Node) : Bool := n.isFinal && n.parent.isNone

end Node

/-- The nodes of a chart by index. -/
abbrev NodeTable := Array Node

namespace NodeTable

/-- The node of an index. -/
def node (t : NodeTable) (i : NodeId) : Node := t[i]?.getD default

/-- Whether `a` lies properly below `b`. -/
def descends (t : NodeTable) (a b : NodeId) : Bool := (t.node a).ancestors.contains b

/-- The node of a name. -/
def find? (t : NodeTable) (id : String) : Option NodeId := t.findIdx? fun n => n.id = id

end NodeTable

/-- A chart. -/
structure Chart where
  name : String
  version : Nat
  nodes : NodeTable
  transitions : Array Transition
  invokes : Array Invoke
  children : List NodeId
  initial : TransitionId
  checksum : String
  definition : Definition

namespace Chart

/-- The node of an index. -/
def node (c : Chart) (i : NodeId) : Node := c.nodes.node i

/-- The transition of an index. -/
def transition (c : Chart) (i : TransitionId) : Transition := c.transitions[i]?.getD default

/-- The process declaration of an index. -/
def invoke (c : Chart) (i : InvokeId) : Invoke := c.invokes[i]?.getD default

/-- The node of a name. -/
def find? (c : Chart) (id : String) : Option NodeId := c.nodes.find? id

/-- Whether `a` lies properly below `b`. -/
def descends (c : Chart) (a b : NodeId) : Bool := c.nodes.descends a b

/-- The variables of the chart, with their values at the start. -/
def datamodel (c : Chart) : Object := c.definition.datamodel

/-- How many states there are, histories not counted. -/
def stateCount (c : Chart) : Nat := (c.nodes.toList.filter fun n => !n.isHistory).length

/-- Nodes in document order. -/
def sortDocument (c : Chart) (ns : List NodeId) : List NodeId :=
  stableSort (fun a b => (c.node a).order ≤ (c.node b).order) ns

/-- Nodes in reverse document order. -/
def sortReverse (c : Chart) (ns : List NodeId) : List NodeId :=
  stableSort (fun a b => (c.node b).order ≤ (c.node a).order) ns

/-- Transitions in document order. -/
def sortTransitions (c : Chart) (ts : List TransitionId) : List TransitionId :=
  stableSort (fun a b => (c.transition a).order ≤ (c.transition b).order) ts

/-- The names from the top down to a node, each behind a slash. -/
def path (c : Chart) (i : NodeId) : String :=
  String.join (((i :: (c.node i).ancestors).reverse).map fun a => "/" ++ (c.node a).id)

/-- The definition as a value. -/
def toValue (c : Chart) : Value := c.definition.document.sortFields

end Chart
end Statechart
