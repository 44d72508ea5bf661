import Statechart.Session.Content

/-! Starting, stopping and telling processes.

    The processes of a state start when the machine has come to rest with the state active, and end when
    the state is left or when an event says that they are complete. Whatever goes wrong with a process
    becomes an event. -/

namespace Statechart.Session

/-- Stops a process; it is forgotten whether or not it agrees. -/
def cancelProcess (i : InvokeId) (s : Session) : Session :=
  match Dict.get? i s.live with
  | none => s
  | some p =>
    let (s, failure) := { s with live := Dict.erase i s.live }.call p .stop
    match failure with
    | none => s
    | some _ => s.raise (.failure ("failed.invoke.cancel." ++ p.id))

/-- Stops processes one after the other. -/
def cancelProcesses (is : List InvokeId) (s : Session) : Session :=
  is.foldl (fun s i => s.cancelProcess i) s

/-- Stops every process. -/
def cancelAll (s : Session) : Session := s.cancelProcesses (Dict.keys s.live)

/-- The source of a process: a computed one that is a string is taken as it is, another one as its
    text. -/
def sourceOf (c : Chart) (i : Invoke) (s : Session) : Except EvalError String :=
  match i.source with
  | .fixed text => .ok text
  | .computed expr =>
    match s.evaluator.value expr (s.scope c (some i.owner)) with
    | .ok (.string text) => .ok text
    | .ok v => .ok v.text
    | .error e => .error e

/-- The argument of a process; one that has no value is `null`, and an event says so. -/
def processArgument (c : Chart) (owner : NodeId) (p : Param) (s : Session) : Session × Value :=
  match p.expr with
  | some expr =>
    match s.evaluator.value expr (s.scope c (some owner)) with
    | .ok v => (s, v)
    | .error e => (s.fail .expressionError e.message (some (c.path owner)), .null)
  | none =>
    match s.store.lookup c (some owner) p.name with
    | some v => (s, v)
    | none => (s.raise (.failure ((c.node owner).id ++ ".error.illegalalloc")), .null)

/-- The arguments of a process, the last one of a name winning. -/
def processArguments (c : Chart) (owner : NodeId) : List Param → Session × Object → Session × Object
  | [], acc => acc
  | p :: ps, (s, values) =>
    let (s, v) := s.processArgument c owner p
    processArguments c owner ps (s, Dict.insert p.name v values)

/-- The name of a process: its own, or a new one. -/
def processName (i : Invoke) (s : Session) : String × Session :=
  match i.id with
  | some id => (id, s)
  | none =>
    let (id, supply) := s.supply.nextProcess
    (id, { s with supply })

/-- Starts a process of a state. -/
def start (c : Chart) (s : Session) (index : InvokeId) : Session :=
  let i := c.invoke index
  let failed : Event := .failure ("failed.invoke." ++ (c.node i.owner).id)
  match s.sourceOf c i with
  | .error e => s.fail .expressionError e.message (some (c.path i.owner))
  | .ok source =>
    match Dict.get? i.kind s.invokers with
    | none => s.raise failed
    | some invoker =>
      let (s, params) := processArguments c i.owner i.params (s, [])
      let (id, s) := s.processName i
      let p : Process := ⟨id, invoker, s.sink⟩
      match s.call p (.start source params) with
      | (s, none) => { s with live := Dict.insert index p s.live }
      | (s, some _) => s.raise failed

/-- Starts the processes of states. -/
def startAll (c : Chart) (states : NodeSet) (s : Session) : Session :=
  states.foldl (fun s n => (c.node n).invokes.foldl (start c) s) s

/-- Starts the processes of the pending states. -/
def startPending (c : Chart) (s : Session) : Session :=
  { s.startAll c s.pending with pending := [] }

/-- The report that a process refused an event. -/
def refusal (event process : String) (e : InvokerError) : String :=
  "cannot forward '" ++ event ++ "' to '" ++ process ++ "': " ++ e.message

/-- Tells one process of an event: one that the event says is complete ends and runs its final content,
    another one gets the event if it wants all of them. -/
def tellProcess (c : Chart) (e : Event) (s : Session) (entry : InvokeId × Process) : Session :=
  let (index, p) := entry
  let i := c.invoke index
  if Trigger.reportsCompletion p.id e.name then
    let s := s.run c (some i.owner) i.finalize
    { s with live := Dict.erase index s.live }
  else if i.autoforward then
    match s.call p (.forward e) with
    | (s, none) => s
    | (s, some failure) =>
      (s.report .expressionError (refusal e.name p.id failure) (some (c.path i.owner))).raise
        .communicationFailed
  else s

/-- Tells every process of an event. -/
def tellProcesses (c : Chart) (e : Event) (s : Session) : Session :=
  s.live.foldl (tellProcess c e) s

end Statechart.Session
