import Statechart.Value.Basic

/-! Definitions of charts, as they are written: a tree of states with their transitions, histories,
    processes and content, every reference by name.

    A definition is plain data; `Chart` is what it compiles to. -/

namespace Statechart

/-- A named argument of a message or a process: the value of `expr` if there is one, else the variable
    of that name. -/
structure Param where
  name : String
  expr : Option String
  deriving DecidableEq

/-- An action of executable content. -/
inductive Action where
  | log (label expr : Option String)
  | raise (event : String)
  | assign (location expr : String)
  | send (id target kind : Option String) (event : String) (delay : Nat) (params : List Param)
  | cancel (sendId : String)
  deriving DecidableEq

/-- Whether a history remembers the children of its state or all its active leaves. -/
inductive HistoryKind where
  | shallow
  | deep
  deriving DecidableEq, Repr

/-- What a state is declared as. -/
inductive StateKind where
  | state
  | parallel
  | final
  deriving DecidableEq, Repr

/-- Whether a transition leaves its source. -/
inductive TransitionKind where
  | external
  | internal
  deriving DecidableEq, Repr

/-- A block of content run on entry or on exit; it may announce the entry or exit with an event. -/
structure Block where
  announce : Bool
  actions : List Action
  deriving DecidableEq

/-- A transition of a state. -/
structure TransitionDef where
  event : Option String
  cond : Option String
  target : List String
  kind : TransitionKind
  actions : List Action
  deriving DecidableEq

/-- A history of a state, with what it stands for as long as nothing is recorded. -/
structure HistoryDef where
  id : String
  kind : HistoryKind
  target : List String
  actions : List Action
  deriving DecidableEq

/-- A process that runs while its state is active. -/
structure InvokeDef where
  id : Option String
  kind : Option String
  src : Option String
  srcexpr : Option String
  autoforward : Bool
  params : List Param
  finalize : List Action
  deriving DecidableEq

/-- A state with everything in it. -/
structure StateDef where
  id : String
  kind : StateKind
  initial : List String
  initialActions : List Action
  datamodel : Object
  states : List StateDef
  transitions : List TransitionDef
  onEntry : List Block
  onExit : List Block
  history : List HistoryDef
  invoke : List InvokeDef

/-- A chart: its top-level states, where it starts, and its variables. -/
structure Definition where
  name : Option String
  version : Option Nat
  initial : List String
  datamodel : Object
  states : List StateDef

/-- Whether a state is entered through a transition of its own to one of its children. -/
def StateDef.isCompound (s : StateDef) : Bool := s.kind = .state && !s.states.isEmpty

/-- Where a compound state starts: what it says, else its first child. -/
def StateDef.initialTargets (s : StateDef) : List String :=
  if s.initial.isEmpty then (s.states.head?.map StateDef.id).toList else s.initial

/-- Where a chart starts: what it says, else its first state. -/
def Definition.initialTargets (d : Definition) : List String :=
  if d.initial.isEmpty then (d.states.head?.map StateDef.id).toList else d.initial

end Statechart
