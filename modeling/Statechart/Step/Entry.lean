import Statechart.Store.Basic

/-! Which states a step enters.

    Entering a state enters states below it: all regions of a parallel state, what the initial
    transition of a compound state leads to, what a history has recorded or else its default. Entering
    a state also enters the states above it up to a boundary, with the other regions of the parallel
    ones among them. The recursion follows the tree downward wherever histories recorded states below
    their own; a snapshot from elsewhere can hold a record that leads back to its history, and then
    there is no plan. -/

namespace Statechart

/-- The states to enter, those of them that are entered through their initial transition, and the
    default transitions of histories by the state whose history it is. -/
structure EntryPlan where
  entry : NodeSet
  defaultEntry : NodeSet
  defaultHistory : Dict NodeId TransitionId
  deriving DecidableEq

namespace EntryPlan

/-- Nothing to enter. -/
def empty : EntryPlan := ⟨[], [], []⟩

/-- Adds a state. -/
def add (n : NodeId) (p : EntryPlan) : EntryPlan := { p with entry := NodeSet.insert n p.entry }

/-- Whether a state or one below it is entered. -/
def covers (c : Chart) (n : NodeId) (p : EntryPlan) : Bool :=
  p.entry.any fun m => m = n || c.descends m n

/-- Enters, by `enter`, the children of a state below which nothing is entered yet. -/
def fillRegions (c : Chart) (enter : NodeId → EntryPlan → Option EntryPlan) (n : NodeId)
    (p : EntryPlan) : Option EntryPlan :=
  (c.node n).children.foldlM (fun p child => if p.covers c child then some p else enter child p) p

/-- Adds a state above an entered one. -/
def enterAbove (c : Chart) (enter : NodeId → EntryPlan → Option EntryPlan) (p : EntryPlan)
    (n : NodeId) : Option EntryPlan :=
  if (c.node n).isParallel then fillRegions c enter n (p.add n) else some (p.add n)

/-- Adds the states above a state up to a boundary. -/
def climbTo (c : Chart) (enter : NodeId → EntryPlan → Option EntryPlan) (boundary : Option NodeId)
    (p : EntryPlan) (n : NodeId) : Option EntryPlan :=
  ((c.node n).ancestors.takeWhile fun a => some a ≠ boundary).foldlM (enterAbove c enter) p

/-- Enters a list of states, and then what lies between them and the boundary. -/
def enterTargets (c : Chart) (enter : NodeId → EntryPlan → Option EntryPlan) (boundary : NodeId)
    (targets : List NodeId) (p : EntryPlan) : Option EntryPlan := do
  let p ← targets.foldlM (fun p n => enter n p) p
  targets.foldlM (climbTo c enter (some boundary)) p

/-- What a history stands for; if that is its default, the plan takes note of it. -/
def historyTargets (c : Chart) (store : Store) (h owner : NodeId) (p : EntryPlan) :
    List NodeId × EntryPlan :=
  match store.remembered? h with
  | some states => (states, p)
  | none =>
    match (c.node h).initial with
    | none => ([], p)
    | some t =>
      ((c.transition t).targets, { p with defaultHistory := Dict.insert owner t p.defaultHistory })

/-- Enters a state, or what a history stands for. The fuel bounds the depth of the recursion. -/
def enter (c : Chart) (store : Store) : Nat → NodeId → EntryPlan → Option EntryPlan
  | 0, _, _ => none
  | fuel + 1, n, p =>
    let node := c.node n
    if node.isHistory then
      match node.parent with
      | none => some p
      | some owner =>
        let (targets, p) := historyTargets c store n owner p
        enterTargets c (enter c store fuel) owner targets p
    else
      let p := p.add n
      if node.isParallel then fillRegions c (enter c store fuel) n p
      else if node.isCompound then
        let p := { p with defaultEntry := NodeSet.insert n p.defaultEntry }
        match node.initial with
        | none => some p
        | some t => enterTargets c (enter c store fuel) n (c.transition t).targets p
      else some p

/-- How deep entering goes at most if it ends. Every region that is filled adds a state, and between
    two of them no state is entered inside its own entry, since that would go on for ever. -/
def depthBound (c : Chart) : Nat := (c.nodes.size + 2) * (c.nodes.size + 2)

/-- The targets of transitions, each once, states before histories. -/
def targetsOf (c : Chart) (ts : List TransitionId) : List NodeId :=
  let targets := (ts.flatMap fun t => (c.transition t).targets).eraseDups
  (targets.filter fun n => !(c.node n).isHistory) ++ targets.filter fun n => (c.node n).isHistory

/-- The states that transitions enter. -/
def ofTransitions (c : Chart) (store : Store) (ts : List TransitionId) : Option EntryPlan := do
  let enter := enter c store (depthBound c)
  let p ← (targetsOf c ts).foldlM (fun p n => enter n p) empty
  ts.foldlM (fun p t => (c.transition t).targets.foldlM (climbTo c enter (c.transition t).domain) p) p

theorem mem_entry_add {n m : NodeId} {p : EntryPlan} :
    m ∈ (p.add n).entry ↔ m = n ∨ m ∈ p.entry := NodeSet.mem_insert

section

variable {c : Chart} {store : Store} {fuel : Nat} {n owner : NodeId} {t : TransitionId} {p : EntryPlan}

theorem enter_history (hn : (c.node n).isHistory = true) (ho : (c.node n).parent = some owner) :
    enter c store (fuel + 1) n p = enterTargets c (enter c store fuel) owner
      (historyTargets c store n owner p).1 (historyTargets c store n owner p).2 := by
  rw [enter, if_pos hn, ho]

theorem enter_parallel (hn : (c.node n).isHistory = false) (hp : (c.node n).isParallel = true) :
    enter c store (fuel + 1) n p = fillRegions c (enter c store fuel) n (p.add n) := by
  rw [enter, if_neg (Bool.eq_false_iff.1 hn), if_pos hp]

theorem enter_compound (hn : (c.node n).isHistory = false) (hp : (c.node n).isParallel = false)
    (hc : (c.node n).isCompound = true) (ht : (c.node n).initial = some t) :
    enter c store (fuel + 1) n p = enterTargets c (enter c store fuel) n (c.transition t).targets
      { p.add n with defaultEntry := NodeSet.insert n p.defaultEntry } := by
  rw [enter, if_neg (Bool.eq_false_iff.1 hn), if_neg (Bool.eq_false_iff.1 hp), if_pos hc, ht]
  rfl

theorem enter_leaf (hn : (c.node n).isHistory = false) (hp : (c.node n).isParallel = false)
    (hc : (c.node n).isCompound = false) : enter c store (fuel + 1) n p = some (p.add n) := by
  rw [enter, if_neg (Bool.eq_false_iff.1 hn), if_neg (Bool.eq_false_iff.1 hp),
    if_neg (Bool.eq_false_iff.1 hc)]

end

end EntryPlan
end Statechart
