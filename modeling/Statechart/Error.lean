import Statechart.Definition.Basic

/-! What can be wrong with charts and snapshots, and the codes and wordings of it.

    Every error is its cause with the names it concerns. An error that a machine meets while it runs is
    never returned: it is reported with a code and becomes an event. -/

namespace Statechart

/-- The codes under which errors are reported. -/
inductive ErrorCode where
  | noInitial
  | illegalInitial
  | unknownAction
  | illegalConfig
  | undefinedVariable
  | expressionError
  deriving DecidableEq, Repr

/-- The word for a code. -/
def ErrorCode.word : ErrorCode → String
  | .noInitial => "NO_INITIAL"
  | .illegalInitial => "ILLEGAL_INITIAL"
  | .unknownAction => "UNKNOWN_ACTION"
  | .illegalConfig => "ILLEGAL_CONFIG"
  | .undefinedVariable => "UNDEFINED_VARIABLE"
  | .expressionError => "EXPRESSION_ERROR"

/-- Why a definition compiles to no chart. -/
inductive ChartError where
  | noStates (chart : String)
  | unknownAction (type : String)
  | invalidId (id : String)
  | duplicateId (id : String)
  | finalContent (id : String)
  | noRegions (id : String)
  | initialOfSimple (id : String)
  | historyOfSimple (id : String)
  | historyWithoutTarget (id : String)
  | invokeWithoutType (owner : String)
  | invokeWithoutSource (owner : String)
  | invokeWithTwoSources (owner : String)
  | unknownTarget (id : String)
  | chartInitialHistory
  | initialOutside (source : Option String) (target : String)
  | conflictingTargets (source : Option String)
  | historyTarget (target history : String) (kind : HistoryKind) (owner : String)
  | duplicateInvoke (id : String)
  deriving DecidableEq

namespace ChartError

/-- The code of a chart error. -/
def code : ChartError → ErrorCode
  | .noStates _ | .historyWithoutTarget _ => .noInitial
  | .unknownAction _ => .unknownAction
  | .initialOfSimple _ | .historyOfSimple _ | .chartInitialHistory | .initialOutside .. |
    .conflictingTargets _ | .historyTarget .. => .illegalInitial
  | _ => .illegalConfig

/-- A name between apostrophes. -/
def named (s : String) : String := "'" ++ s ++ "'"

/-- What declared a transition: a state, or the chart itself. -/
def sourceText : Option String → String
  | some id => named id
  | none => "the chart"

/-- The wording of a chart error. -/
def reason : ChartError → String
  | .noStates chart => "chart " ++ named chart ++ " has no states"
  | .unknownAction type => "unknown action type " ++ named type
  | .invalidId id => "invalid state id " ++ named id
  | .duplicateId id => "duplicate state id " ++ named id
  | .finalContent id => "final state " ++ named id ++ " can only declare entry and exit content"
  | .noRegions id => "parallel state " ++ named id ++ " has no regions"
  | .initialOfSimple id =>
    "initial is only supported on compound states, " ++ named id ++ " is not one"
  | .historyOfSimple id => "simple state " ++ named id ++ " contains history elements"
  | .historyWithoutTarget id => "history " ++ named id ++ " has no default target"
  | .invokeWithoutType owner => "invoke in " ++ named owner ++ " has no type"
  | .invokeWithoutSource owner => "invoke in " ++ named owner ++ " has neither src nor srcexpr"
  | .invokeWithTwoSources owner => "invoke in " ++ named owner ++ " has both src and srcexpr"
  | .unknownTarget id => "transition target with id " ++ named id ++ " not found"
  | .chartInitialHistory => "chart initial cannot target a history"
  | .initialOutside source target =>
    "initial of " ++ sourceText source ++ " targets " ++ named target ++
      ", which is not a descendant state"
  | .conflictingTargets source =>
    "transition of " ++ sourceText source ++ " has targets that cannot be active together"
  | .historyTarget target history kind owner =>
    "default target " ++ named target ++ " of history " ++ named history ++ " must be " ++
      (match kind with
        | .shallow => "a direct child"
        | .deep => "a descendant") ++ " of " ++ named owner
  | .duplicateInvoke id => "invoke id " ++ named id ++ " is declared more than once"

end ChartError

/-- Why a set of active states is no configuration of a chart. -/
inductive ConfigurationError where
  | emptyWhileRunning
  | topLevelCount
  | finalNotAlone (id : String)
  | finalWhileRunning (id : String)
  | compoundChildren (id : String)
  | inactiveRegion (id : String)
  deriving DecidableEq

/-- The wording of a configuration error. -/
def ConfigurationError.reason : ConfigurationError → String
  | .emptyWhileRunning => "running instance with an empty configuration"
  | .topLevelCount => "exactly one top-level state must be active"
  | .finalNotAlone id => "final state '" ++ id ++ "' must be the only active state"
  | .finalWhileRunning id => "final state '" ++ id ++ "' is active while running"
  | .compoundChildren id => "compound state '" ++ id ++ "' needs exactly one active child"
  | .inactiveRegion id => "parallel state '" ++ id ++ "' has an inactive region"

/-- Why a snapshot does not fit a chart. -/
inductive SnapshotError where
  | checksum (found chart expected : String)
  | unknownState (id : String)
  | notAtomic (id : String)
  | notHistory (id : String)
  deriving DecidableEq

/-- The wording of a snapshot error. -/
def SnapshotError.reason : SnapshotError → String
  | .checksum found chart expected =>
    "snapshot checksum " ++ found ++ " does not match chart " ++ chart ++ " (" ++ expected ++ ")"
  | .unknownState id => "unknown state '" ++ id ++ "'"
  | .notAtomic id => "configuration entry '" ++ id ++ "' is not an atomic state"
  | .notHistory id => "'" ++ id ++ "' is not a history"

/-- Why an operation on a machine is refused. -/
inductive MachineError where
  | noChart
  | malformed
  | invalidChart (e : ChartError)
  | illegalConfiguration (e : ConfigurationError)
  | badSnapshot (e : SnapshotError)
  deriving DecidableEq

namespace MachineError

/-- The code of a refusal. -/
def code : MachineError → String
  | .noChart => "NO_CHART"
  | .malformed => "BAD_REQUEST"
  | .invalidChart e => e.code.word
  | .illegalConfiguration _ => ErrorCode.illegalConfig.word
  | .badSnapshot _ => "BAD_SNAPSHOT"

/-- What the wording of a refusal begins with. -/
def heading : MachineError → String
  | .noChart => "no chart set on executor"
  | .malformed => "JSON error: "
  | .invalidChart _ => "invalid chart: "
  | .illegalConfiguration _ => "illegal configuration: "
  | .badSnapshot _ => "invalid snapshot: "

/-- The wording of a refusal; data of the wrong shape has none of its own. -/
def message? (e : MachineError) : Option String :=
  match e with
  | .noChart => some e.heading
  | .malformed => none
  | .invalidChart c => some (e.heading ++ c.reason)
  | .illegalConfiguration c => some (e.heading ++ c.reason)
  | .badSnapshot c => some (e.heading ++ c.reason)

end MachineError
end Statechart
