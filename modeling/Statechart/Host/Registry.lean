import Statechart.Chart.Compile
import Statechart.Host.Error
import Statechart.Value.Parser
import Statechart.Value.Yaml

/-! Loaded charts by name and version.

    What is registered under a name and a version stays: the same definition again changes nothing, and
    another one is refused. A chart file, which is JSON or YAML, is named by its definition, else by its
    own name, and its version is one if it says none. -/

namespace Statechart

/-- Charts by name and version. -/
abbrev Registry := Dict String (Dict Nat Chart)

namespace Registry

/-- The versions of a name. -/
def versions (name : String) (r : Registry) : Dict Nat Chart := (Dict.get? name r).getD []

/-- The chart of a name and version. -/
def get? (name : String) (version : Nat) (r : Registry) : Option Chart :=
  Dict.get? version (r.versions name)

/-- The chart of a name and version, or the reason why there is none. -/
def get (name : String) (version : Nat) (r : Registry) : Except HostError Chart :=
  match r.get? name version with
  | some c => .ok c
  | none => .error (.chartNotFound name version)

/-- Adds a chart under a name and version. -/
def add (name : String) (version : Nat) (c : Chart) (r : Registry) : Registry :=
  Dict.insert name (Dict.insert version c (r.versions name)) r

/-- How many charts there are. -/
def size (r : Registry) : Nat := r.foldl (fun n entry => n + entry.2.length) 0

/-- The versions of every name. -/
def list (r : Registry) : Dict String (List Nat) := r.map fun (name, vs) => (name, Dict.keys vs)

/-- Registers a definition, with its chart as the answer and whether it is new. -/
def put (name : String) (version : Nat) (definition : Value) (r : Registry) :
    Except HostError (Chart × Bool × Registry) :=
  match Chart.load name version definition with
  | .error e => .error (.machine e)
  | .ok c =>
    match r.get? name version with
    | none => .ok (c, true, r.add name version c)
    | some old =>
      if old.checksum = c.checksum then .ok (old, false, r)
      else .error (.chartVersionExists name version)

/-- The readers of chart files, by extension. -/
def readers (yaml : Yaml) : Dict String (String → Option Value) :=
  [("json", Value.parse?), ("yaml", yaml.document?), ("yml", yaml.document?)]

/-- The reader of the file at a path, if it is a chart file. -/
def reader? (yaml : Yaml) (path : String) : Option (String → Option Value) :=
  (FileSystem.extension? path).bind fun e => Dict.get? e (readers yaml)

/-- Whether a path is one of a chart file. -/
def isChartFile (yaml : Yaml) (path : String) : Bool := (reader? yaml path).isSome

/-- The definition in a file. -/
def readDefinition (yaml : Yaml) (fs : FileSystem) (path : String) : Except HostError Value :=
  match fs.read? path with
  | none => .error .unreadable
  | some text =>
    match reader? yaml path with
    | none => .error (.unsupportedFile (FileSystem.fileName path))
    | some read =>
      match read text with
      | some v => .ok v
      | none => .error .malformed

/-- The name that a definition in a file goes by. -/
def nameOf (path : String) (definition : Value) : String :=
  ((definition.field? "name").bind Value.string?).getD (FileSystem.stem path)

/-- The version that a definition goes by: of a number that is too large, the last 32 bits. -/
def versionOf (definition : Value) : Nat :=
  (((definition.field? "version").bind (Value.readNat Value.bound64)).map (· % Value.bound32)).getD 1

/-- Loads a chart file. -/
def loadFile (yaml : Yaml) (fs : FileSystem) (path : String) (r : Registry) :
    Except HostError (Chart × Registry) :=
  match readDefinition yaml fs path with
  | .error e => .error e
  | .ok v =>
    match r.put (nameOf path v) (versionOf v) v with
    | .error e => .error e
    | .ok (c, _, r) => .ok (c, r)

/-- Loads chart files up to the first that fails. -/
def loadFiles (yaml : Yaml) (fs : FileSystem) :
    List String → Registry → Except HostError (List Chart) × Registry
  | [], r => (.ok [], r)
  | path :: paths, r =>
    match r.loadFile yaml fs path with
    | .error e => (.error e, r)
    | .ok (c, r) =>
      match loadFiles yaml fs paths r with
      | (.ok cs, r) => (.ok (c :: cs), r)
      | (.error e, r) => (.error e, r)

/-- Loads every chart file of a directory, by name. -/
def loadDir (yaml : Yaml) (fs : FileSystem) (dir : String) (r : Registry) :
    Except HostError (List Chart) × Registry :=
  match fs.files? dir with
  | none => (.error .unreadable, r)
  | some names =>
    let names := stableSort (fun a b => decide (a ≤ b)) (names.filter (isChartFile yaml))
    r.loadFiles yaml fs (names.map (FileSystem.join dir))

/-- What is added is found. -/
@[simp] theorem get?_add_self (name : String) (version : Nat) (c : Chart) (r : Registry) :
    (r.add name version c).get? name version = some c := by simp [get?, add, versions]

/-- Adding a chart leaves the others alone. -/
theorem get?_add_of_ne {name name' : String} {version version' : Nat}
    (h : ¬(name' = name ∧ version' = version)) (c : Chart) (r : Registry) :
    (r.add name version c).get? name' version' = r.get? name' version' := by
  by_cases hn : name' = name
  · subst hn
    have hv : version' ≠ version := fun e => h ⟨rfl, e⟩
    simp [get?, add, versions, Dict.get?_insert_of_ne hv]
  · simp [get?, add, versions, Dict.get?_insert_of_ne hn]

end Registry
end Statechart
