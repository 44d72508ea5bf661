import Statechart.Session.Selection
import Statechart.Step.Entry

/-! Steps: an event, the transitions taken for it, and the states that they leave and enter. -/

namespace Statechart

/-- One step of a machine. -/
structure Step where
  event : Option Event
  transitions : List TransitionId
  exit : NodeSet
  plan : EntryPlan

namespace Step

/-- The name of the event of a step. -/
def eventName (s : Step) : Option String := s.event.map Event.name

/-- The active states that transitions leave. -/
def exitOf (c : Chart) (store : Store) (ts : List TransitionId) : NodeSet :=
  ts.foldl (fun s t => NodeSet.insertAll s (c.exitSet (store.active c) t)) []

/-- The step that takes transitions for an event; none if entering has no end. -/
def build (c : Chart) (store : Store) (event : Option Event) (ts : List TransitionId) :
    Option Step :=
  (EntryPlan.ofTransitions c store ts).map fun plan => ⟨event, ts, exitOf c store ts, plan⟩

/-- A step leaves what one of its transitions leaves. -/
theorem mem_exitOf {c : Chart} {store : Store} {ts : List TransitionId} {n : NodeId} :
    n ∈ exitOf c store ts ↔ ∃ t ∈ ts, n ∈ c.exitSet (store.active c) t := by
  suffices h : ∀ s : NodeSet,
      n ∈ ts.foldl (fun s t => NodeSet.insertAll s (c.exitSet (store.active c) t)) s ↔
        n ∈ s ∨ ∃ t ∈ ts, n ∈ c.exitSet (store.active c) t by
    simpa [exitOf] using h []
  induction ts with
  | nil => simp
  | cons t ts ih =>
    intro s
    rw [List.foldl_cons, ih, NodeSet.mem_insertAll]
    simp [or_assoc]

end Step
end Statechart
