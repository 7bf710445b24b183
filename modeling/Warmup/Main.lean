import Warmup.CommandLine

/-!
# The program

Reads the file that the command line names, and prints what the request gives.
-/

open Warmup

/-- Runs the request of the command line. -/
def main (args : List String) : IO UInt32 := do
  match CommandLine.parse args with
  | none =>
    IO.eprintln CommandLine.Topic.program.usage
    return UInt32.ofNat CommandLine.misused.exit
  | some request =>
    let contents ← request.file?.bindM fun file =>
      return (← (IO.FS.readFile file).toBaseIO).toOption
    let printed := request.run contents
    IO.print printed.output
    match printed.error with
    | some line => IO.eprintln line
    | none => pure ()
    return UInt32.ofNat printed.exit
