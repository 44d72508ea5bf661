import Statechart.CommandLine.Run
import Statechart.Value.Flow

/-! The command line program. It reads the arguments, the environment and the files that the arguments
    name, and prints what the command says. Of YAML files it reads those in flow style. -/

namespace Statechart.CommandLine

/-- The variables that the program looks at. -/
def watched : List String :=
  ["CHARTA_CONFIG", "CHARTA_LOG", "CHARTA_CHART_DIR", "CHARTA_CHANNEL_CAPACITY",
   "CHARTA_TRACE_TRANSITIONS"]

/-- The environment, as far as the program looks at it. -/
def readEnvironment : IO Settings.Environment := do
  let values ← watched.mapM fun name => do
    let value ← IO.getEnv name
    return value.map (name, ·)
  return Dict.ofList values.reduceOption

/-- The files at some paths, those that cannot be read left out. -/
def readFiles (paths : List String) : IO (Dict String String) := do
  let contents ← paths.mapM fun (path : String) => do
    let content ← (some <$> IO.FS.readFile path) <|> pure none
    return content.map (path, ·)
  return Dict.ofList contents.reduceOption

/-- The time, in milliseconds since the beginning of 1970. -/
def readClock : IO Int := do
  let now ← (System.mkFilePath ["/proc", "self"]).metadata
  return now.modified.sec * 1000 + now.modified.nsec.toNat / 1000000

/-- A random number. -/
def readSeed : IO Nat := do
  let bytes ← IO.getRandomBytes 16
  return bytes.toList.foldl (fun n b => n * 256 + b.toNat) 0

/-- Runs the program on its arguments, with the code to end with. -/
def program (args : List String) : IO UInt32 := do
  let environment ← readEnvironment
  let request := request (settingsVariable environment) args
  let files ← readFiles request.files
  let now ← readClock <|> pure 0
  let supply := Supply.ofSeed (← readSeed) now
  let fs : FileSystem := ⟨fun path => Dict.get? path files, fun _ => none⟩
  match answer .flow fs environment supply (Nat.pow 2 62) request with
  | none => return 1
  | some output =>
    (← IO.getStdout).putStr output.text
    if output.code = 2 then (← IO.getStderr).putStr (helpText (settingsVariable environment) .program)
    if output.code = 1 then (← IO.getStderr).putStrLn "Error"
    return output.code.toUInt32

end Statechart.CommandLine

/-- The program. -/
def main (args : List String) : IO UInt32 := Statechart.CommandLine.program args
