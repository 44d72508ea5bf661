import Statechart.Journal

/-! Processes that machines start, and what starts them.

    An invoker makes the processes of one type. What a process answers to a call may depend on
    everything that has happened before; it may deliver events, and it may refuse the call. -/

namespace Statechart

/-- Why a process does not start or refuses a call. -/
inductive InvokerError where
  | unknownType (kind : String)
  | failed (reason : String)
  deriving DecidableEq

/-- The wording of a refusal. -/
def InvokerError.message : InvokerError → String
  | .unknownType kind => "no invoker registered for type '" ++ kind ++ "'"
  | .failed reason => "invoker failed: " ++ reason

/-- What a process answers to a call. -/
structure Reply where
  delivered : List Event
  failure : Option InvokerError

/-- What makes processes of one type: how the process of a name answers a call, given the journal up to
    and with that call. -/
structure Invoker where
  answer : (past : Journal) → (process : String) → (call : Call) → Reply

/-- A process that runs. It keeps the sink that was set when it started. -/
structure Process where
  id : String
  invoker : Invoker
  sink : Sink

/-- Whether what an invoker's processes answer does not depend on the past. -/
def Invoker.Memoryless (i : Invoker) : Prop :=
  ∀ past past' id call, i.answer past id call = i.answer past' id call

end Statechart
