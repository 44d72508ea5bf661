import Statechart.Error
import Statechart.Settings

/-! Why something asked of a host is refused. -/

namespace Statechart

/-- Why something asked of a host is refused. -/
inductive HostError where
  | unreadable
  | malformed
  | machine (e : MachineError)
  | settings (e : SettingsError)
  | unsupportedFile (name : String)
  | chartNotFound (name : String) (version : Nat)
  | chartVersionExists (name : String) (version : Nat)
  | instanceNotFound (id : String)
  | instanceExists (id : String)
  | instanceStopped (id : String)
  deriving DecidableEq

namespace HostError

/-- The code of a refusal. -/
def code : HostError → String
  | .unreadable => "IO_ERROR"
  | .malformed | .unsupportedFile _ => "BAD_REQUEST"
  | .machine e => e.code
  | .settings _ => "BAD_CONFIG"
  | .chartNotFound .. => "CHART_NOT_FOUND"
  | .chartVersionExists .. => "CHART_VERSION_EXISTS"
  | .instanceNotFound _ => "INSTANCE_NOT_FOUND"
  | .instanceExists _ => "INSTANCE_EXISTS"
  | .instanceStopped _ => "INSTANCE_STOPPED"

/-- What the wording of a refusal of settings begins with. -/
def settingsHeading : String := "config error: "

/-- A chart by name and version. -/
def chartText (name : String) (version : Nat) : String := name ++ " v" ++ toString version

/-- The wording of a refusal, as far as it is the program's own. -/
def message? : HostError → Option String
  | .unreadable | .malformed => none
  | .machine e => e.message?.map ("core error: " ++ ·)
  | .settings e => e.message?.map (settingsHeading ++ ·)
  | .unsupportedFile name => some ("unsupported chart file: " ++ name)
  | .chartNotFound name version => some ("chart not found: " ++ chartText name version)
  | .chartVersionExists name version =>
    some ("chart version already exists with different definition: " ++ chartText name version)
  | .instanceNotFound id => some ("instance not found: " ++ id)
  | .instanceExists id => some ("instance already exists: " ++ id)
  | .instanceStopped id => some ("instance worker stopped: " ++ id)

end HostError
end Statechart
