import Statechart.Dict

/-! What the arguments of the command line ask for.

    Arguments are read from left to right. Options may stand anywhere, a value follows its option as the
    next argument, behind an equals sign, or right behind a short name, and after `--` nothing is an
    option any more. A request for help or for the version is answered as soon as it is met. The
    settings file can be named before or after the command, or by the environment; the last one named
    counts. -/

namespace Statechart.CommandLine

/-- What is to be done. -/
inductive Command where
  | validate (file : String)
  | run (file : String) (events : List String) (snapshot : Bool)
  deriving DecidableEq

/-- A command with the settings file to use. -/
structure Invocation where
  settings : Option String
  command : Command
  deriving DecidableEq

/-- Which of the help texts is asked for. -/
inductive Topic where
  | program
  | validate
  | run
  | help
  deriving DecidableEq

/-- What arguments ask for; wrong ones ask for nothing. -/
inductive Request where
  | execute (i : Invocation)
  | help (t : Topic)
  | version
  | wrong
  deriving DecidableEq

/-- An option that an argument can name. -/
inductive Flag where
  | settings
  | event
  | snapshot
  | help
  | version
  deriving DecidableEq

namespace Flag

/-- Whether a value belongs to an option. -/
def takesValue : Flag → Bool
  | .settings | .event => true
  | .snapshot | .help | .version => false

/-- The option of a short name. -/
def ofShort : Char → Option Flag
  | 'c' => some .settings
  | 'e' => some .event
  | 'h' => some .help
  | 'V' => some .version
  | _ => none

/-- The option of a long name. -/
def ofLong (name : String) : Option Flag :=
  Dict.get? name [("config", settings), ("event", event), ("snapshot", snapshot), ("help", help),
    ("version", version)]

end Flag

/-- The options that may stand where a topic has been reached. -/
def allowed : Topic → List Flag
  | .program => [.settings, .help, .version]
  | .validate => [.settings, .help]
  | .run => [.settings, .event, .snapshot, .help]
  | .help => []

/-- What has been read behind a command, or before it. -/
structure Reading where
  topic : Topic
  settings : Option String
  file : Option String
  events : List String
  snapshot : Bool

/-- The arguments from where a topic is reached. -/
def Reading.start (t : Topic) : Reading := ⟨t, none, none, [], false⟩

/-- What reading one option leads to. -/
inductive Outcome where
  | further (r : Reading)
  | done (q : Request)

namespace Reading

/-- Takes an option with its value; those that may be given once are refused the second time, and the
    name of a file is not empty. -/
def take (f : Flag) (value : String) (r : Reading) : Outcome :=
  match f with
  | .settings =>
    if r.settings.isSome ∨ value = "" then .done .wrong
    else .further { r with settings := some value }
  | .event => .further { r with events := r.events ++ [value] }
  | .snapshot => if r.snapshot then .done .wrong else .further { r with snapshot := true }
  | .help => .done (.help r.topic)
  | .version => .done .version

/-- Takes an argument that is no option, as the file. -/
def takeFile (value : String) (r : Reading) : Outcome :=
  if r.file.isSome ∨ value = "" then .done .wrong else .further { r with file := some value }

/-- What an argument is: the end of the options, an option by its long name with the value behind its
    equals sign, short options, or none of these. -/
inductive Shape where
  | endOfOptions
  | long (name : String) (value : Option String)
  | short (names : List Char)
  | plain

/-- The parts before and behind the first equals sign. -/
def splitValue (cs : List Char) : String × Option String :=
  match cs.span (· ≠ '=') with
  | (name, []) => (String.ofList name, none)
  | (name, _ :: value) => (String.ofList name, some (String.ofList value))

/-- The shape of an argument. -/
def shape (arg : String) : Shape :=
  match arg.toList with
  | ['-', '-'] => .endOfOptions
  | '-' :: '-' :: cs => .long (splitValue cs).1 (splitValue cs).2
  | '-' :: c :: cs => .short (c :: cs)
  | _ => .plain

/-- What reading an argument leads to: it is complete, its last option still needs a value, or the
    request is decided. -/
inductive Pending where
  | complete (r : Reading)
  | needsValue (f : Flag) (r : Reading)
  | decided (q : Request)

/-- The outcome of an option as that of its argument. -/
def Outcome.pending : Outcome → Pending
  | .further r => .complete r
  | .done q => .decided q

/-- Reads an argument with a long name. -/
def readLong (name : String) (value : Option String) (r : Reading) : Pending :=
  match Flag.ofLong name with
  | none => .decided .wrong
  | some f =>
    if (allowed r.topic).contains f then
      match value with
      | some v => if f.takesValue then Outcome.pending (r.take f v) else .decided .wrong
      | none => if f.takesValue then .needsValue f r else Outcome.pending (r.take f "")
    else .decided .wrong

/-- Reads an argument with short names; what stands behind one that takes a value is that value. -/
def readShort : List Char → Reading → Pending
  | [], r => .complete r
  | c :: cs, r =>
    match Flag.ofShort c with
    | none => .decided .wrong
    | some f =>
      if (allowed r.topic).contains f then
        if f.takesValue then
          match cs with
          | [] => .needsValue f r
          | '=' :: value => Outcome.pending (r.take f (String.ofList value))
          | value => Outcome.pending (r.take f (String.ofList value))
        else
          match r.take f "" with
          | .further r => readShort cs r
          | .done q => .decided q
      else .decided .wrong

end Reading

/-- The command of what was read behind it. -/
def Reading.command? (r : Reading) : Option Command :=
  match r.topic, r.file with
  | .validate, some file => some (.validate file)
  | .run, some file => some (.run file r.events r.snapshot)
  | _, _ => none

/-- The request of what was read before a command and behind it. An empty name in the environment is
    refused wherever it would count. -/
def conclude (environment : Option String) (before after : Reading) : Request :=
  if environment = some "" ∧ (before.settings.isNone ∨ after.settings.isNone) then .wrong
  else
    match after.command? with
    | some command =>
      .execute ⟨(after.settings.or before.settings).or environment, command⟩
    | none => .wrong

/-- Reads the arguments behind a command; `plainOnly` once the options have ended. -/
def readCommand (finish : Reading → Request) : (plainOnly : Bool) → Reading → List String → Request
  | _, r, [] => finish r
  | true, r, arg :: args =>
    match r.takeFile arg with
    | .further r => readCommand finish true r args
    | .done q => q
  | false, r, arg :: args =>
    let next : Reading.Pending :=
      match Reading.shape arg with
      | .endOfOptions => .complete r
      | .long name value => r.readLong name value
      | .short names => Reading.readShort names r
      | .plain => Reading.Outcome.pending (r.takeFile arg)
    match next, args with
    | .decided q, _ => q
    | .complete r, args => readCommand finish (arg = "--") r args
    | .needsValue _ _, [] => .wrong
    | .needsValue f r, value :: args =>
      match Reading.shape value with
      | .plain =>
        match r.take f value with
        | .further r => readCommand finish false r args
        | .done q => q
      | _ => .wrong

/-- The topic of a request for help. -/
def helpTopic : List String → Request
  | [] => .help .program
  | ["validate"] => .help .validate
  | ["run"] => .help .run
  | ["help"] => .help .help
  | _ => .wrong

/-- Reads the arguments up to the command. -/
def readProgram (environment : Option String) : Reading → List String → Request
  | _, [] => .wrong
  | r, arg :: args =>
    let next : Option Reading.Pending :=
      match Reading.shape arg with
      | .endOfOptions => some (.decided .wrong)
      | .long name value => some (r.readLong name value)
      | .short names => some (Reading.readShort names r)
      | .plain => none
    match next, args with
    | none, args =>
      if arg = "validate" then readCommand (conclude environment r) false (.start .validate) args
      else if arg = "run" then readCommand (conclude environment r) false (.start .run) args
      else if arg = "help" then helpTopic args
      else .wrong
    | some (.decided q), _ => q
    | some (.complete r), args => readProgram environment r args
    | some (.needsValue _ _), [] => .wrong
    | some (.needsValue f r), value :: args =>
      match Reading.shape value with
      | .plain =>
        match r.take f value with
        | .further r => readProgram environment r args
        | .done q => q
      | _ => .wrong

/-- What arguments ask for, given the settings file that the environment names. -/
def request (environment : Option String) (args : List String) : Request :=
  readProgram environment (.start .program) args

end Statechart.CommandLine
