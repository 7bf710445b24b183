/-!
# Help texts

What is printed when help is asked for: what a command does, how it is called,
and one row for each argument and option. A short row has its text beside it, in
a column of its own; a long one has it below, and an empty line after it.
-/

namespace Warmup.CommandLine

/-- What help is about. -/
inductive Topic
  | program
  | scenario
  | config
  | help
  deriving DecidableEq

/-- A name and what is said about it. -/
structure Row where
  name : String
  text : List String
  deriving DecidableEq

/-- A heading with its rows. -/
structure Table where
  heading : String
  rows : List Row
  deriving DecidableEq

namespace Table

/-- A name filled up with blanks to a width. -/
def padded (width : Nat) (name : String) : String := name ++ "".pushn ' ' (width - name.length)

/-- The rows with their texts beside them. -/
def short (t : Table) : List String :=
  let width := (t.rows.map (·.name.length)).foldl max 0
  (t.heading ++ ":") :: t.rows.map fun r => "  " ++ padded width r.name ++
    "  " ++ " ".intercalate r.text

/-- The rows with their texts below them. -/
def long (t : Table) : List String :=
  let rows := t.rows.map fun r => ("  " ++ r.name) :: r.text.map ("          " ++ ·)
  (t.heading ++ ":") :: [""].intercalate rows

end Table

/-- The option for a file of settings. -/
def fileRow : Row := ⟨"-c, --config <FILE>", ["JSON configuration file"]⟩

/-- The option for more output. -/
def verboseRow : Row :=
  ⟨"-v, --verbose...", ["Verbose output (-v for info, -vv for debug, -vvv for trace)"]⟩

/-- The option for help, with a remark on the other form of it. -/
def helpRow (remark : String) : Row := ⟨"-h, --help", ["Print help" ++ remark]⟩

/-- The scenarios and what they show. -/
def scenarioRows : List Row :=
  [⟨"untaken", ["A send that never executed compiles to an uncommon trap"]⟩,
    ⟨"polymorphic", ["Two receiver classes produce a two-way type case"]⟩,
    ⟨"megamorphic", ["Too many receiver classes make the site uninlinable"]⟩,
    ⟨"non-lifo-block", ["A block whose home activation returned defers to its home method"]⟩,
    ⟨"trap-backoff", ["Repeated traps recompile and back off the invocation limit"]⟩]

namespace Topic

/-- What a command does. -/
def about : Topic → String
  | program => "Feedback-directed inlining and deoptimization playground"
  | scenario => "Run an end-to-end feedback loop scenario"
  | config => "Print a configuration as JSON"
  | help => "Print this message or the help of the given subcommand(s)"

/-- How a command is called. -/
def usage : Topic → String
  | program => "Usage: adaptive_jit [OPTIONS] <COMMAND>"
  | scenario => "Usage: adaptive_jit scenario [OPTIONS] <NAME>"
  | config => "Usage: adaptive_jit config [OPTIONS]"
  | help => "Usage: adaptive_jit help [COMMAND]..."

/-- The tables of the short text. -/
def tables : Topic → List Table
  | program =>
    [⟨"Commands", [⟨"scenario", [scenario.about]⟩, ⟨"config", [config.about]⟩,
      ⟨"help", [help.about]⟩]⟩,
      ⟨"Options", [fileRow, verboseRow, helpRow "", ⟨"-V, --version", ["Print version"]⟩]⟩]
  | scenario =>
    let names := ", ".intercalate (scenarioRows.map (·.name))
    [⟨"Arguments", [⟨"<NAME>", ["[possible values: " ++ names ++ "]"]⟩]⟩,
      ⟨"Options", [fileRow, verboseRow, helpRow " (see more with '--help')"]⟩]
  | config =>
    let preset : Row := ⟨"    --preset <PRESET>",
      ["[default: default]", "[possible values: default, conservative, aggressive]"]⟩
    [⟨"Options", [preset, fileRow, verboseRow, helpRow ""]⟩]
  | help => [⟨"Arguments", [⟨"[COMMAND]...", ["Print help for the subcommand(s)"]⟩]⟩]

/-- The tables of the long text, for a command that has one. -/
def longTables? : Topic → Option (List Table)
  | scenario =>
    let width := (scenarioRows.map (·.name.length)).foldl max 0 + 1
    let values :=
      scenarioRows.map fun r =>
        "- " ++ Table.padded width (r.name ++ ":") ++ " " ++ " ".intercalate r.text
    some [⟨"Arguments", [⟨"<NAME>", "Possible values:" :: values⟩]⟩,
      ⟨"Options", [fileRow, verboseRow, helpRow " (see a summary with '-h')"]⟩]
  | _ => none

/-- The help on a topic. -/
def text (t : Topic) (long : Bool) : String :=
  let tables := match long, t.longTables? with
    | true, some ts => ts.map Table.long
    | _, _ => t.tables.map Table.short
  let parts := [t.about] :: [t.usage] :: tables
  String.join (([""].intercalate parts).map (· ++ "\n"))

end Topic

end Warmup.CommandLine
