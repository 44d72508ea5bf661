import Statechart.CommandLine.Arguments
import Statechart.Text.Wrap

/-! The texts that the command line prints about itself.

    A help text has columns: what can be written, and behind it, from one column on, what it does,
    wrapped at the width of a page. The names of options are set in bold; as the texts go to a file and
    not to a terminal, control sequences are taken out in the end, with any that the environment
    brings along. -/

namespace Statechart.CommandLine

/-- The name and version of the program. -/
def versionText : String := "charta 0.1.0\n"

/-- How many columns a page has. -/
def pageWidth : Nat := 100

/-- The column at which the descriptions of options begin. -/
def descriptionColumn : Nat := 25

/-- A text in bold. -/
def bold (cs : List Char) : List Char :=
  let sequence (style : Char) : List Char := [Char.ofNat 0x1B, '[', style, 'm']
  sequence '1' ++ cs ++ sequence '0'

/-- The line of an option: its short name, its long name, its value and what it does. -/
def optionLine (short : Option Char) (long value description : String) : List Char :=
  let shortName :=
    match short with
    | some c => bold ['-', c] ++ [',', ' ']
    | none => List.replicate 4 ' '
  let taken := 2 + 4 + 2 + long.length + value.length
  [' ', ' '] ++ shortName ++ bold ('-' :: '-' :: long.toList) ++ value.toList ++
    List.replicate (descriptionColumn - taken) ' ' ++
    Text.hang descriptionColumn
      (Text.wrap (pageWidth - descriptionColumn) description.toList) ++ ['\n']

/-- The line of the option for the settings file, with what the environment names. -/
def settingsLine (environment : Option String) : List Char :=
  optionLine 'c' "config" " <CONFIG>"
    ("Config file (YAML) [env: CHARTA_CONFIG=" ++ environment.getD "" ++ "]")

/-- The line of the option for help. -/
def helpLine : List Char := optionLine 'h' "help" "" "Print help"

/-- The line of the option for the version. -/
def versionLine : List Char := optionLine 'V' "version" "" "Print version"

/-- The line of the option for events. -/
def eventLine : List Char :=
  optionLine 'e' "event" " <EVENTS>" "Event to deliver, as `name` or `name=<json payload>`. Repeatable"

/-- The line of the option for a snapshot. -/
def snapshotLine : List Char :=
  optionLine none "snapshot" "" "Print the instance snapshot after the last event"

/-- The part about the commands. -/
def commandsPart : String :=
  "Commands:\n" ++
    "  validate  Load and validate a chart file\n" ++
    "  run       Run a chart against a list of events\n" ++
    "  help      Print this message or the help of the given subcommand(s)\n"

/-- The part about the chart file. -/
def filePart : String := "Arguments:\n  <FILE>  Chart definition (.json, .yaml or .yml)\n"

/-- What every help text begins with: what something does, how it is called and what stands behind
    it. -/
def opening (about usage arguments : String) : String :=
  about ++ "\n\nUsage: " ++ usage ++ "\n\n" ++ arguments

/-- A help text with options. -/
def page (about usage arguments : String) (options : List (List Char)) : String :=
  opening about usage arguments ++ "\nOptions:\n" ++ String.ofList (Text.plain options.flatten)

/-- The help text of a topic. -/
def helpText (environment : Option String) : Topic → String
  | .program =>
    page "Hierarchical state chart interpreter" "charta [OPTIONS] <COMMAND>" commandsPart
      [settingsLine environment, helpLine, versionLine]
  | .validate =>
    page "Load and validate a chart file" "charta validate [OPTIONS] <FILE>" filePart
      [settingsLine environment, helpLine]
  | .run =>
    page "Run a chart against a list of events" "charta run [OPTIONS] <FILE>" filePart
      [settingsLine environment, eventLine, snapshotLine, helpLine]
  | .help =>
    opening "Print this message or the help of the given subcommand(s)" "charta help [COMMAND]..."
      "Arguments:\n  [COMMAND]...  Print help for the subcommand(s)\n"

end Statechart.CommandLine
