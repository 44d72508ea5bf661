import Statechart.FileSystem
import Statechart.Value.Printer
import Statechart.Value.Reader
import Statechart.Value.Yaml

/-! Settings of the program that hosts machines.

    They come from defaults, then from a file, then from the environment, the later ones winning, and
    are then checked. A file is a record of three sections; sections and settings may be missing. A
    setting that is a text may be written as any scalar and is then the characters of that scalar, so
    a file, which is YAML, is read twice: once for its texts and once for its integers and words. -/

namespace Statechart

/-- The settings: what is logged, where charts are, how many events may wait for a machine, and whether
    every entry, exit and transition is logged. -/
structure Settings where
  filter : String
  chartDir : String
  capacity : Nat
  traceTransitions : Bool
  deriving DecidableEq

/-- Why there are no settings. -/
inductive SettingsError where
  | unreadable
  | malformed
  | noCapacity
  deriving DecidableEq

namespace SettingsError

/-- The code of a settings error. -/
def code : SettingsError → String
  | .unreadable => "READ"
  | .malformed => "PARSE"
  | .noCapacity => "INVALID"

/-- What the wording of a refused setting begins with. -/
def heading : String := "invalid configuration: "

/-- The wording of a settings error, as far as it is the program's own. -/
def message? : SettingsError → Option String
  | .unreadable | .malformed => none
  | .noCapacity => some (heading ++ "runtime.channel_capacity must be greater than 0")

end SettingsError

namespace Settings

/-- The settings that hold where nothing is said. -/
def default : Settings := ⟨"info", "./charts", 1024, false⟩

/-- The characters of a scalar. -/
def readScalar : Value → Option String
  | .string s => some s
  | .array _ | .object _ => none
  | v => some v.text

/-- The fields of a section, none if it is missing. -/
def section? (file : Value) (name : String) : Option Object := do
  let fields ← file.object?
  Value.defaulted fields name [] Value.readObject

/-- The settings of a file from its two readings; what is missing keeps its default. -/
def read? (texts others : Value) : Option Settings := do
  let logging ← section? texts "logging"
  let charts ← section? texts "charts"
  let runtime ← section? others "runtime"
  let filter ← Value.defaulted logging "filter" default.filter readScalar
  let chartDir ← Value.defaulted charts "dir" default.chartDir readScalar
  let capacity ←
    Value.defaulted runtime "channel_capacity" default.capacity (Value.readNat Value.bound64)
  let traceTransitions ←
    Value.defaulted runtime "trace_transitions" default.traceTransitions Value.readBool
  some { filter, chartDir, capacity, traceTransitions }

/-- Settings as a record. -/
def document (s : Settings) : Value :=
  .object [("logging", .object [("filter", .string s.filter)]),
    ("charts", .object [("dir", .string s.chartDir)]),
    ("runtime", .object [("channel_capacity", .ofNat s.capacity),
      ("trace_transitions", .bool s.traceTransitions)])]

/-- The settings that a text writes. -/
def ofText (yaml : Yaml) (text : String) : Except SettingsError Settings :=
  let settings := do
    let texts ← yaml.texts? text
    let others ← yaml.integers? text
    read? texts others
  match settings with
  | some s => .ok s
  | none => .error .malformed

/-- The settings of a file. -/
def ofFile (yaml : Yaml) (fs : FileSystem) (path : String) : Except SettingsError Settings :=
  match fs.read? path with
  | some text => ofText yaml text
  | none => .error .unreadable

/-- The number of a text of decimal digits, a plus in front of them allowed, below 2^64. -/
def readCount (text : String) : Option Nat :=
  let digits :=
    match text.toList with
    | '+' :: cs => cs
    | cs => cs
  if digits.isEmpty ∨ ¬digits.all Text.isDigit then none
  else
    let n := Text.decimalOf digits
    if n < Value.bound64 then some n else none

/-- Whether a text switches something on. -/
def isOn (text : String) : Bool := text = "1" || text.toList.map Char.toLower = "true".toList

/-- The variables of the environment, by name. -/
abbrev Environment := Dict String String

/-- The settings with those of the environment in place of them; an empty filter and a capacity that is
    no number do not count. -/
def override (env : Environment) (s : Settings) : Settings :=
  { filter :=
      match Dict.get? "CHARTA_LOG" env with
      | some "" | none => s.filter
      | some filter => filter
    chartDir := (Dict.get? "CHARTA_CHART_DIR" env).getD s.chartDir
    capacity := ((Dict.get? "CHARTA_CHANNEL_CAPACITY" env).bind readCount).getD s.capacity
    traceTransitions :=
      ((Dict.get? "CHARTA_TRACE_TRANSITIONS" env).map isOn).getD s.traceTransitions }

/-- The settings, if they can be worked with. -/
def check (s : Settings) : Except SettingsError Settings :=
  if s.capacity = 0 then .error .noCapacity else .ok s

/-- The settings from a file, if there is one, and the environment. -/
def load (yaml : Yaml) (fs : FileSystem) (path : Option String) (env : Environment) :
    Except SettingsError Settings :=
  match path with
  | none => (default.override env).check
  | some path =>
    match ofFile yaml fs path with
    | .ok s => (s.override env).check
    | .error e => .error e

/-- The text that keeps settings. -/
def text (yaml : Yaml) (s : Settings) : String := yaml.write s.document

/-- Settings that are checked leave room for an event. -/
theorem capacity_pos_of_check {s t : Settings} (h : s.check = .ok t) : 0 < t.capacity := by
  unfold check at h
  split at h
  · cases h
  · cases h
    omega

end Settings
end Statechart
