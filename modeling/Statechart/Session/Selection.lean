import Statechart.Session.Content

/-! Which transitions are taken.

    From every active leaf the search goes outward, and the innermost state with an enabled transition
    decides; among its transitions the first one does. States already searched are not searched again.
    Of the transitions found, two whose exits overlap cannot both be taken: the one from further inside
    wins, else the earlier one. -/

namespace Statechart

namespace Chart

/-- The active states that a transition leaves. -/
def exitSet (c : Chart) (active : NodeSet) (t : TransitionId) : NodeSet :=
  let t := c.transition t
  if t.targets.isEmpty then []
  else
    match t.domain with
    | none => active
    | some d => active.filter fun n => c.descends n d

/-- Whether a transition comes from properly below the source of another. -/
def below (c : Chart) (t u : TransitionId) : Bool :=
  match (c.transition t).source, (c.transition u).source with
  | some a, some b => c.descends a b
  | _, _ => false

/-- Whether two transitions leave a state in common. -/
def clash (c : Chart) (active : NodeSet) (t u : TransitionId) : Bool :=
  !NodeSet.disjoint (c.exitSet active t) (c.exitSet active u)

/-- Adds a transition to those kept so far: in place of those it clashes with if it comes from below
    all of them, else not at all. -/
def accommodate (c : Chart) (active : NodeSet) (kept : List TransitionId) (t : TransitionId) :
    List TransitionId :=
  if (kept.filter (c.clash active t)).all (c.below t) then
    (kept.filter fun u => !c.clash active t u) ++ [t]
  else kept

/-- A list without neighbours that are equal. -/
def withoutRepeats : List TransitionId → List TransitionId
  | t :: u :: ts => if t = u then withoutRepeats (u :: ts) else t :: withoutRepeats (u :: ts)
  | ts => ts

/-- The transitions that are kept of those found, in document order. -/
def resolveConflicts (c : Chart) (active : NodeSet) (found : List TransitionId) :
    List TransitionId :=
  (withoutRepeats (c.sortTransitions found)).foldl (c.accommodate active) []

end Chart

namespace Session

/-- Whether a transition is enabled: it answers to the event, and its condition holds. A condition that
    has no truth does not hold, and that is reported. -/
def enabled (c : Chart) (event : Option String) (t : TransitionId) (s : Session) : Bool × Session :=
  let t := c.transition t
  if t.trigger.answers event then
    match t.cond with
    | none => (true, s)
    | some cond =>
      match s.evaluator.condition cond (s.scope c t.source) with
      | .ok b => (b, s)
      | .error e => (false, s.fail .expressionError e.message (t.source.map c.path))
  else (false, s)

/-- The first enabled transition of a list. -/
def firstEnabled (c : Chart) (event : Option String) :
    List TransitionId → Session → Option TransitionId × Session
  | [], s => (none, s)
  | t :: ts, s =>
    match s.enabled c event t with
    | (true, s) => (some t, s)
    | (false, s) => firstEnabled c event ts s

/-- What a search has found and seen so far. -/
structure Search where
  found : List TransitionId
  seen : NodeSet
  session : Session

/-- Searches a state and those above it, up to the first enabled transition or a state seen before. -/
def climb (c : Chart) (event : Option String) : List NodeId → Search → Search
  | [], r => r
  | n :: ns, r =>
    if r.seen.contains n then r
    else
      let seen := NodeSet.insert n r.seen
      match firstEnabled c event (c.node n).transitions r.session with
      | (some t, session) => ⟨r.found ++ [t], seen, session⟩
      | (none, session) => climb c event ns ⟨r.found, seen, session⟩

/-- The states to search for a leaf, innermost first: a final state takes no transitions, and one at the
    top should have stopped the machine. -/
def chainOf (c : Chart) (leaf : NodeId) : Option (List NodeId) :=
  let n := c.node leaf
  if n.isFinal then n.parent.map fun p => p :: (c.node p).ancestors
  else some (leaf :: n.ancestors)

/-- Searches from a leaf. -/
def searchLeaf (c : Chart) (event : Option String) (r : Search) (leaf : NodeId) : Search :=
  match chainOf c leaf with
  | some chain => climb c event chain r
  | none =>
    let detail := "top-level final state active while running"
    { r with session := r.session.report .illegalConfig detail (some (c.path leaf)) }

/-- The transitions that an event enables, or none does, from every leaf. -/
def search (c : Chart) (event : Option String) (s : Session) : Search :=
  (c.sortDocument s.store.leaves).foldl (searchLeaf c event) ⟨[], [], s⟩

/-- The transitions to take for an event or for none, in document order. -/
def select (c : Chart) (event : Option String) (s : Session) : List TransitionId × Session :=
  let r := s.search c event
  (c.resolveConflicts (r.session.store.active c) r.found, r.session)

end Session
end Statechart
