import Statechart.Chart.Basic
import Statechart.Event.Basic

/-! What a machine remembers: its active leaves, its variables, its histories and the event in hand.

    Only leaves are stored; the active states are the leaves with everything above them, so a state
    cannot be active without one of its leaves. Variables live in the chart's own scope or in the scope
    of the state that declares them, which comes into being when the state is first entered and then
    stays. -/

namespace Statechart

/-- Where the event in hand comes from: the machine itself, its own queue, or the outside. -/
inductive EventOrigin where
  | platform
  | internal
  | external
  deriving DecidableEq, Repr

/-- The word for the origin of an event. -/
def EventOrigin.word : EventOrigin → String
  | .platform => "platform"
  | .internal => "internal"
  | .external => "external"

/-- The event in hand, as content sees it. -/
structure EventVariable where
  name : String
  origin : EventOrigin
  data : Value

namespace EventVariable

/-- What content sees of an event that was taken from one of the two queues. -/
def ofEvent (e : Event) (internal : Bool) : EventVariable :=
  { name := e.name
    origin :=
      match e.kind with
      | .error | .change => .platform
      | .signal | .cancel => if internal then .internal else .external
    data := e.payload }

/-- The event in hand as a value. -/
def toValue (v : EventVariable) : Value :=
  .object [("data", v.data), ("name", .string v.name), ("type", .string v.origin.word)]

end EventVariable

namespace Chart

/-- A set of states with all states above them. -/
def closure (c : Chart) (leaves : NodeSet) : NodeSet :=
  leaves.foldl (fun s n => NodeSet.insertAll (NodeSet.insert n s) (c.node n).ancestors) []

/-- The names of states in document order. -/
def namesOf (c : Chart) (ns : List NodeId) : List String :=
  (c.sortDocument ns).map fun n => (c.node n).id

end Chart

/-- What a machine remembers. -/
structure Store where
  sessionId : String
  leaves : NodeSet
  globals : Object
  contexts : Dict NodeId Object
  histories : Dict NodeId NodeSet
  event : Option EventVariable
  published : List String
  createdAt : Int

namespace Store

/-- The store of a machine that was never started. -/
def empty : Store := ⟨"", [], [], [], [], none, [], 0⟩

instance : Inhabited Store := ⟨empty⟩

/-- The store of a machine that starts: the chart's variables and nothing else. -/
def start (c : Chart) (sessionId : String) (now : Int) : Store :=
  { empty with sessionId, globals := c.datamodel, createdAt := now }

/-- The active states: the leaves and everything above them. -/
def active (c : Chart) (s : Store) : NodeSet := c.closure s.leaves

/-- Whether a final state at the top is active. -/
def isFinal (c : Chart) (s : Store) : Bool := s.leaves.any fun n => (c.node n).isTopLevelFinal

/-- Whether the state of a name is active. -/
def isIn (c : Chart) (id : String) (s : Store) : Bool :=
  match c.find? id with
  | some n => (s.active c).contains n
  | none => false

/-- The names of the active leaves in document order. -/
def leafNames (c : Chart) (s : Store) : List String := c.namesOf s.leaves

/-- The names of the active states in document order. -/
def activeNames (c : Chart) (s : Store) : List String := c.namesOf (s.active c)

/-- Lets content see the active states of this moment. -/
def publish (c : Chart) (s : Store) : Store := { s with published := s.activeNames c }

/-- Makes a state an active leaf. -/
def activate (n : NodeId) (s : Store) : Store := { s with leaves := NodeSet.insert n s.leaves }

/-- Makes states inactive; those that are no leaves never were in the set. -/
def deactivate (ns : List NodeId) (s : Store) : Store :=
  { s with leaves := NodeSet.eraseAll s.leaves ns }

/-- Gives a state its scope, unless it has been entered before. -/
def ensureContext (c : Chart) (n : NodeId) (s : Store) : Store :=
  if Dict.has n s.contexts then s
  else { s with contexts := Dict.insert n (c.node n).datamodel s.contexts }

/-- What a history has recorded. -/
def recorded? (h : NodeId) (s : Store) : Option NodeSet := Dict.get? h s.histories

/-- What a history stands for: its record, unless nothing is in it. -/
def remembered? (h : NodeId) (s : Store) : Option NodeSet :=
  match s.recorded? h with
  | some [] => none
  | r => r

/-- Replaces the record of a history. -/
def record (h : NodeId) (states : NodeSet) (s : Store) : Store :=
  { s with histories := Dict.insert h states s.histories }

/-- Drops the record of a history. -/
def forget (h : NodeId) (s : Store) : Store := { s with histories := Dict.erase h s.histories }

@[simp] theorem recorded?_record (h : NodeId) (states : NodeSet) (s : Store) :
    (s.record h states).recorded? h = some states := Dict.get?_insert_self ..

@[simp] theorem recorded?_forget (h : NodeId) (s : Store) : (s.forget h).recorded? h = none :=
  Dict.get?_erase_self ..

@[simp] theorem mem_leaves_activate {n m : NodeId} {s : Store} :
    m ∈ (s.activate n).leaves ↔ m = n ∨ m ∈ s.leaves := NodeSet.mem_insert

@[simp] theorem mem_leaves_deactivate {m : NodeId} {ns : List NodeId} {s : Store} :
    m ∈ (s.deactivate ns).leaves ↔ m ∈ s.leaves ∧ m ∉ ns := NodeSet.mem_eraseAll

end Store

/-- A state lies in the closure of a set if it is in it or above one that is. -/
theorem Chart.mem_closure {c : Chart} {leaves : NodeSet} {n : NodeId} :
    n ∈ c.closure leaves ↔ ∃ l ∈ leaves, n = l ∨ n ∈ (c.node l).ancestors := by
  suffices h : ∀ s : NodeSet,
      n ∈ leaves.foldl (fun s n => NodeSet.insertAll (NodeSet.insert n s) (c.node n).ancestors) s ↔
        n ∈ s ∨ ∃ l ∈ leaves, n = l ∨ n ∈ (c.node l).ancestors by
    simpa [Chart.closure] using h []
  induction leaves with
  | nil => simp
  | cons l ls ih =>
    intro s
    rw [List.foldl_cons, ih, NodeSet.mem_insertAll, NodeSet.mem_insert]
    simp only [List.mem_cons, exists_eq_or_imp]
    grind

/-- The active states are in increasing order. -/
theorem Chart.pairwise_closure (c : Chart) (leaves : NodeSet) :
    (c.closure leaves).Pairwise (· < ·) := by
  suffices h : ∀ (ls : List NodeId) (s : NodeSet), s.Pairwise (· < ·) →
      (ls.foldl (fun s n => NodeSet.insertAll (NodeSet.insert n s) (c.node n).ancestors) s).Pairwise
        (· < ·) from h leaves [] List.Pairwise.nil
  intro ls
  induction ls with
  | nil => exact fun _ hs => hs
  | cons l ls ih => exact fun s hs => ih _ (NodeSet.pairwise_insertAll (NodeSet.pairwise_insert hs))

end Statechart
