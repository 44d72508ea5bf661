import Statechart.CommandLine.Help
import Statechart.Host.Basic
import Statechart.Text.Blank

/-! What the commands do.

    A command reads its files, says what it finds, line by line, and ends with a code: zero if all went
    well, one if something was refused, in which case what was said before stands, and two if the
    arguments ask for nothing. -/

namespace Statechart.CommandLine

/-- What a command says, and the code with which it ends. -/
structure Output where
  code : Nat
  text : String
  deriving DecidableEq

/-- The end of a command that went well. -/
def success (text : String) : Output := ⟨0, text⟩

/-- The end of a command in which something was refused. -/
def failure (text : String) : Output := ⟨1, text⟩

/-- The name of the machine that a command runs. -/
def instanceName : String := "cli"

/-- What is said of a valid chart. -/
def describe (c : Chart) : String :=
  HostError.chartText c.name c.version ++ "\n  checksum:    " ++ c.checksum ++
    "\n  states:      " ++ toString c.nodes.size ++
    "\n  transitions: " ++ toString c.transitions.size ++ "\n"

/-- Checks a chart file. -/
def validate (yaml : Yaml) (fs : FileSystem) (file : String) : Output :=
  match Registry.loadFile yaml fs file [] with
  | .ok (c, _) => success (describe c)
  | .error _ => failure ""

/-- The event that a text writes: its name, or its name, an equals sign and its payload. -/
def eventOf (spec : String) : Option Event :=
  match Reading.splitValue spec.toList with
  | (name, none) => some (.signal (Text.trim name))
  | (name, some payload) =>
    (Value.parse? payload).map fun v => { Event.signal (Text.trim name) with payload := v }

/-- What is said of a machine after something happened. -/
def statusLine (what : String) (s : Status) : String :=
  what ++ ": " ++ " ".intercalate s.active ++ "\n"

/-- Gives a machine events until it stops, with what is said, or with what was said up to an event that
    is none. -/
def deliver (fuel : Nat) : List String → String → Host → Option (Except String (String × Host))
  | [], said, h => some (.ok (said, h))
  | spec :: specs, said, h =>
    match eventOf spec with
    | none => some (.error said)
    | some e => do
      let (sent, h) ← h.send instanceName e fuel
      let (seen, h) ← h.status instanceName fuel
      match sent, seen with
      | .ok _, .ok status =>
        let said := said ++ statusLine e.name status
        if status.running then deliver fuel specs said h else some (.ok (said, h))
      | _, _ => some (.error said)

/-- Runs a chart file on events. -/
def run (yaml : Yaml) (fs : FileSystem) (settings : Settings) (supply : Supply) (file : String)
    (events : List String) (snapshot : Bool) (fuel : Nat) : Option Output :=
  match Registry.loadFile yaml fs file [] with
  | .error _ => some (failure "")
  | .ok (c, registry) => do
    let h := { Host.fresh settings supply with registry }
    match ← h.start instanceName c.name c.version fuel with
    | (.error _, _) => some (failure "")
    | (.ok status, h) =>
      match ← deliver fuel events (statusLine "start" status) h with
      | .error said => some (failure said)
      | .ok (said, h) =>
        if snapshot then
          match ← h.snapshot instanceName fuel with
          | (.ok s, h) =>
            let _ ← h.shutdown fuel
            some (success (said ++ s.document.pretty ++ "\n"))
          | (.error _, _) => some (failure said)
        else
          let _ ← h.shutdown fuel
          some (success said)

/-- Carries out an invocation. -/
def execute (yaml : Yaml) (fs : FileSystem) (environment : Settings.Environment) (supply : Supply)
    (fuel : Nat) (i : Invocation) : Option Output :=
  match Settings.load yaml fs i.settings environment with
  | .error _ => some (failure "")
  | .ok settings =>
    match i.command with
    | .validate file => some (validate yaml fs file)
    | .run file events snapshot => run yaml fs settings supply file events snapshot fuel

/-- The settings file that the environment names. -/
def settingsVariable (environment : Settings.Environment) : Option String :=
  Dict.get? "CHARTA_CONFIG" environment

/-- The files that a request reads. -/
def Request.files : Request → List String
  | .execute i =>
    i.settings.toList ++
      match i.command with
      | .validate file => [file]
      | .run file _ _ => [file]
  | _ => []

/-- Answers a request. -/
def answer (yaml : Yaml) (fs : FileSystem) (environment : Settings.Environment) (supply : Supply)
    (fuel : Nat) : Request → Option Output
  | .execute i => execute yaml fs environment supply fuel i
  | .help t => some (success (helpText (settingsVariable environment) t))
  | .version => some (success versionText)
  | .wrong => some ⟨2, ""⟩

end Statechart.CommandLine
