import Warmup.CommandLine.Help
import Warmup.Scenario
import Warmup.Settings.Json

/-!
# The command line

`scenario NAME` runs a scenario, and `config [--preset NAME]` prints settings.
The options `-c FILE` (`--config FILE`), for a file with settings, and `-v`
(`--verbose`) may stand anywhere. A value may be the next argument, or follow
its option directly or after `=`; after `--` nothing is an option. `help`, or
`-h` or `--help` anywhere, asks for help, and `-V` for the version.

* `CommandLine.parse`: what is asked for, or nothing if the arguments are wrong;
* `CommandLine.Request.run`: what is printed, given the contents of the file.
-/

namespace Warmup.CommandLine

/-- Named settings. -/
inductive Preset
  | standard
  | conservative
  | aggressive
  deriving DecidableEq

namespace Preset

/-- The preset of this name. -/
def ofName? : String → Option Preset
  | "default" => some standard
  | "conservative" => some conservative
  | "aggressive" => some aggressive
  | _ => none

/-- The settings of a preset. -/
def settings : Preset → Settings
  | standard => {}
  | conservative => .conservative
  | aggressive => .aggressive

end Preset

/-- What is asked for. -/
inductive Request
  | help (topic : Topic) (long : Bool)
  | version
  /-- A scenario, with the file to read settings from. -/
  | scenario (s : Scenario) (file : Option String)
  | config (p : Preset)
  deriving DecidableEq

/-! ## Options -/

/-- An option; `-h` and `--help` differ in how much they print. -/
inductive Opt
  | config
  | verbose
  | preset
  | help (long : Bool)
  | version
  deriving DecidableEq

/-- Whether an option has a value. -/
def Opt.hasValue : Opt → Bool
  | config | preset => true
  | verbose | help _ | version => false

/-- The option of a long name. -/
def Opt.ofLong? : String → Option Opt
  | "config" => some config
  | "verbose" => some verbose
  | "preset" => some preset
  | "help" => some (help true)
  | "version" => some version
  | _ => none

/-- The option of a letter. -/
def Opt.ofShort? : Char → Option Opt
  | 'c' => some config
  | 'v' => some verbose
  | 'h' => some (help false)
  | 'V' => some version
  | _ => none

/-- Where options and arguments stand. -/
inductive Place
  /-- Before the command. -/
  | top
  | scenario
  | config
  deriving DecidableEq

namespace Place

/-- Whether an option may stand at a place. -/
def admits : Place → Opt → Bool
  | _, .config | _, .verbose | _, .help _ => true
  | top, .version => true
  | config, .preset => true
  | _, _ => false

/-- What help at a place is about. -/
def topic : Place → Topic
  | top => .program
  | scenario => .scenario
  | config => .config

end Place

/-- A part of an argument: an option, which may have a value or still need one,
    or what is no option. -/
inductive Piece
  | opt (o : Opt)
  | valued (o : Opt) (value : String)
  | needy (o : Opt)
  | unknown
  deriving DecidableEq

/-- The option of a piece. -/
def Piece.option? : Piece → Option Opt
  | opt o | valued o _ | needy o => some o
  | unknown => none

/-- A value after its option, where `=` may stand in between. -/
def attached (o : Opt) : List Char → Piece
  | [] => .needy o
  | '=' :: value => .valued o (String.ofList value)
  | value => .valued o (String.ofList value)

/-- The options that some letters stand for. -/
def shortPieces : List Char → List Piece
  | [] => []
  | ch :: rest =>
    match Opt.ofShort? ch with
    | none => [.unknown]
    | some o => if o.hasValue then [attached o rest] else .opt o :: shortPieces rest

/-- The option that a long name, maybe with a value, stands for. -/
def longPiece (cs : List Char) : Piece :=
  match Opt.ofLong? (String.ofList (cs.takeWhile (· ≠ '='))) with
  | none => .unknown
  | some o =>
    match o.hasValue, cs.dropWhile (· ≠ '=') with
    | true, rest => attached o rest
    | false, [] => .opt o
    | false, _ => .unknown

/-- The options of an argument, if it has the form of options. -/
def pieces? : List Char → Option (List Piece)
  | '-' :: '-' :: name => some [longPiece name]
  | '-' :: ch :: rest => some (shortPieces (ch :: rest))
  | _ => none

/-! ## Parsing -/

/-- What was given at a place. -/
structure Given where
  place : Place := .top
  /-- The file given before the command. -/
  outerFile : Option String := none
  file : Option String := none
  preset : Option Preset := none
  scenario : Option Scenario := none
  /-- `--` was given. -/
  escaped : Bool := false

namespace Given

/-- What is given when a value of an option is added, which may be there once
    and is not empty. -/
def addValue (g : Given) (o : Opt) (value : String) : Option Given :=
  match o with
  | .config => if g.file.isSome || value.isEmpty then none else some { g with file := some value }
  | .preset =>
    if g.preset.isSome then none else (Preset.ofName? value).map fun p =>
      { g with preset := some p }
  | _ => none

/-- What is given when an argument that is no option is added: a command, or the
    name of a scenario. -/
def addArgument (g : Given) (arg : String) : Option Given :=
  match g.place, arg with
  | .top, "scenario" => if g.escaped then none else some { place := .scenario, outerFile := g.file }
  | .top, "config" => if g.escaped then none else some { place := .config, outerFile := g.file }
  | .scenario, name => if g.scenario.isSome then none
      else (Scenario.ofName? name).map fun s => { g with scenario := some s }
  | _, _ => none

/-- What is asked for, if all that is needed is given. -/
def request? (g : Given) : Option Request :=
  match g.place with
  | .top => none
  | .scenario => g.scenario.map fun s => .scenario s (g.file <|> g.outerFile)
  | .config => some (.config (g.preset.getD .standard))

end Given

/-- What options lead to: a request that ends parsing, or what is given after
    them and an option that needs a value. -/
inductive Taken
  | request (r : Request)
  | more (g : Given) (needy : Option Opt)

/-- What the options of an argument lead to. -/
def takePieces (g : Given) : List Piece → Option Taken
  | [] => some (.more g none)
  | p :: rest =>
    if p.option?.any g.place.admits then
      match p with
      | .opt (.help long) => some (.request (.help g.place.topic long))
      | .opt .version => some (.request .version)
      | .opt _ => takePieces g rest
      | .valued o value => (g.addValue o value).bind fun g => takePieces g rest
      | .needy o => some (.more g (some o))
      | .unknown => none
    else none

/-- What the command `help` is to explain. -/
def explained? : List String → Option Topic
  | [] => some .program
  | ["scenario"] => some .scenario
  | ["config"] => some .config
  | ["help"] => some .help
  | _ => none

/-- What arguments ask for, after some were read, where an option may need the
    next one as its value. -/
def parseFrom (g : Given) (needy : Option Opt) : List String → Option Request
  | [] => if needy.isSome then none else g.request?
  | arg :: rest =>
    let options := if g.escaped || arg = "--" then none else pieces? arg.toList
    match needy, options with
    | some _, some _ => none
    | some o, none => if arg = "--" then none else (g.addValue o arg).bind fun g =>
      parseFrom g none rest
    | none, some ps =>
      match takePieces g ps with
      | none => none
      | some (.request r) => some r
      | some (.more g needy) => parseFrom g needy rest
    | none, none =>
      if arg = "--" && !g.escaped then parseFrom { g with escaped := true } none rest
      else if g.place = .top && arg = "help" && !g.escaped then
        (explained? rest).map fun t => .help t true
      else (g.addArgument arg).bind fun g => parseFrom g none rest

/-- What arguments ask for, if they are right. -/
def parse (args : List String) : Option Request := parseFrom {} none args

/-! ## Running -/

/-- What a run of the program prints, and its exit code. -/
structure Printed where
  exit : Nat
  output : String := ""
  /-- What is printed on the error stream, before a line break. -/
  error : Option String := none
  deriving DecidableEq

/-- The first line of a text, without its line break. -/
def firstLine (text : String) : String :=
  let line := text.toList.takeWhile (· ≠ '\n')
  String.ofList (if line.getLast? = some '\r' then line.dropLast else line)

/-- The first line on the error stream. -/
def Printed.errorLine? (p : Printed) : Option String := p.error.map firstLine

/-- The name and version of the program. -/
def banner : String := "adaptive_jit 0.1.0"

/-- The file to read before a request is run. -/
def Request.file? : Request → Option String
  | scenario _ file => file
  | _ => none

/-- What a scenario prints, and its exit code: an overflow has one of its own. -/
def runScenario (s : Scenario) (settings : Settings) : Printed :=
  match (s.run settings).run.run (banner ++ "\n") with
  | (.ok (), output) => { exit := 0, output := output }
  | (.error (.fault .overflow), output) => { exit := 101, output := output }
  | (.error (.fault f), output) =>
    { exit := 1, output := output, error := some ("Error: " ++ f.message) }
  | (.error .noTrap, output) =>
    { exit := 1, output := output, error := some "Error: compiled code has no uncommon trap" }

/-- What a request prints, given the text of its file if that could be read. -/
def Request.run (contents : Option String) : Request → Printed
  | help topic long => { exit := 0, output := topic.text long }
  | version => { exit := 0, output := banner ++ "\n" }
  | config p => { exit := 0, output := p.settings.toText ++ "\n" }
  | scenario s none => runScenario s {}
  | scenario s (some file) =>
    match contents.map Settings.ofText with
    | some (.ok settings) => runScenario s settings
    | _ => { exit := 1, error := some ("Error: failed to load config " ++ file) }

/-- What the program prints for wrong arguments. -/
def misused : Printed := { exit := 2 }

end Warmup.CommandLine
