import Statechart.Session.Processes
import Statechart.Step.Basic

/-! Carrying out a step.

    States are left from the inside out, then the content of the transitions runs, then states are
    entered from the outside in. While states are left the machine still counts all of them as active;
    while they are entered, each counts from its own entry on. -/

namespace Statechart.Session

/-- What a history of a state records when the state is left: the active children if it is shallow, the
    active leaves if it is deep. -/
def recordOf (c : Chart) (store : Store) (owner : NodeId) (kind : HistoryKind) : NodeSet :=
  match kind with
  | .deep => store.leaves.filter fun n => c.descends n owner
  | .shallow => NodeSet.ofList ((c.node owner).children.filter (store.active c).contains)

/-- Records one history of a state that is left. -/
def recordHistory (c : Chart) (owner : NodeId) (store : Store) (h : NodeId) : Store :=
  match (c.node h).kind with
  | .history kind => store.record h (recordOf c store owner kind)
  | _ => store

/-- Records every history of a state that is left. -/
def recordHistories (c : Chart) (n : NodeId) (s : Session) : Session :=
  s.mapStore fun store => (c.node n).histories.foldl (recordHistory c n) store

/-- Runs the blocks of an entry or exit; the first block that announces it raises the event. -/
def runBlocks (c : Chart) (n : NodeId) (announcement : String) :
    List Block → (announced : Bool) → Session → Session
  | [], _, s => s
  | b :: bs, announced, s =>
    let s := s.run c (some n) b.actions
    if b.announce && !announced then
      runBlocks c n announcement bs true (s.raise (.change announcement))
    else runBlocks c n announcement bs announced s

/-- Ends the processes of a state that is left: those not yet started never will be. -/
def endProcesses (c : Chart) (n : NodeId) (s : Session) : Session :=
  if s.pending.contains n then { s with pending := NodeSet.erase n s.pending }
  else s.cancelProcesses (c.node n).invokes

/-- Leaves a state, which still counts as active. -/
def leave (c : Chart) (s : Session) (n : NodeId) : Session :=
  let node := c.node n
  let s := s.recordHistories c n
  let s := s.runBlocks c n ("exit.state." ++ node.id) node.onExit false
  let s := s.notify node.observable (.exited node)
  s.endProcesses c n

/-- Leaves the states of a step. -/
def leaveAll (c : Chart) (exit : NodeSet) (s : Session) : Session :=
  let order := c.sortReverse exit
  (order.foldl (leave c) s).mapStore (Store.deactivate order)

/-- What a transition is said to lead to: its targets, or its source if it has none. -/
def destinations (t : Transition) (source : NodeId) : List NodeId :=
  if t.targets.isEmpty then [source] else t.targets

/-- Takes a transition: runs its content, and tells the listeners if it is one of a state's own. -/
def take (c : Chart) (event : Option String) (s : Session) (i : TransitionId) : Session :=
  let t := c.transition i
  let s := s.run c t.source t.actions
  match t.origin, t.source with
  | .event, some source =>
    (destinations t source).foldl
      (fun s target => s.notify t.observable (.taken (c.node source) (c.node target) t event)) s
  | _, _ => s

/-- Whether a state is done: a compound one if a final child is active, a parallel one if all its
    regions are done. The fuel bounds the depth of the tree. -/
def isDone (c : Chart) (active : NodeSet) : Nat → NodeId → Bool
  | 0, _ => false
  | fuel + 1, n =>
    let node := c.node n
    if node.isCompound then node.children.any fun m => (c.node m).isFinal && active.contains m
    else if node.isParallel then node.children.all (isDone c active fuel)
    else false

/-- Raises what the entry of a final state below `parent` completes: the parent, and the parallel state
    above it once all its regions are done. -/
def raiseDone (c : Chart) (parent : NodeId) (s : Session) : Session :=
  let s := s.raise (.change ("done.state." ++ (c.node parent).id))
  match (c.node parent).parent with
  | none => s
  | some grand =>
    let g := c.node grand
    if g.isParallel && g.children.all (isDone c (s.store.active c) c.nodes.size) then
      s.raise (.change ("done.state." ++ g.id))
    else s

/-- What the entry of a final state means: at the top, the end of the machine. -/
def finish (c : Chart) (n : Node) (s : Session) : Session :=
  if n.isFinal then
    match n.parent with
    | none => { s with running := false }
    | some parent => s.raiseDone c parent
  else s

/-- Runs the content of the transitions through which a state was entered: its initial one, and the
    default of its history. -/
def runDefaults (c : Chart) (plan : EntryPlan) (n : Node) (s : Session) : Session :=
  let s :=
    if plan.defaultEntry.contains n.index && n.isCompound then
      match n.initial with
      | some t => s.run c (some n.index) (c.transition t).actions
      | none => s
    else s
  match Dict.get? n.index plan.defaultHistory with
  | some t => s.run c (some n.index) (c.transition t).actions
  | none => s

/-- What is run is the content of at most two transitions, one after the other. -/
theorem runDefaults_eq (c : Chart) (plan : EntryPlan) (n : Node) (s : Session) :
    s.runDefaults c plan n =
      ((if plan.defaultEntry.contains n.index && n.isCompound then n.initial.toList else []) ++
        (Dict.get? n.index plan.defaultHistory).toList).foldl
          (fun s t => s.run c (some n.index) (c.transition t).actions) s := by
  unfold runDefaults
  rw [List.foldl_append]
  cases n.initial <;> cases Dict.get? n.index plan.defaultHistory <;> split <;> rfl

/-- Enters a state. -/
def enterState (c : Chart) (plan : EntryPlan) (s : Session) (i : NodeId) : Session :=
  let n := c.node i
  let s := if n.isAtomic then s.mapStore (Store.activate i) else s
  let s := s.mapStore (Store.ensureContext c i)
  let s := if n.invokes.isEmpty then s else { s with pending := NodeSet.insert i s.pending }
  let s := s.runBlocks c i ("entry.state." ++ n.id) n.onEntry false
  let s := s.notify n.observable (.entered n)
  (s.runDefaults c plan n).finish c n

/-- Enters the states of a step. -/
def enterAll (c : Chart) (plan : EntryPlan) (s : Session) : Session :=
  (c.sortDocument plan.entry).foldl (enterState c plan) s

/-- Carries out a step. -/
def carryOut (c : Chart) (step : Step) (s : Session) : Session :=
  let s := s.leaveAll c step.exit
  let s := step.transitions.foldl (take c step.eventName) s
  s.enterAll c step.plan

/-- Takes transitions for an event; none if entering has no end. -/
def microStep (c : Chart) (event : Option Event) (ts : List TransitionId) (s : Session) :
    Option Session :=
  (Step.build c s.store event ts).map fun step => s.carryOut c step

end Statechart.Session
