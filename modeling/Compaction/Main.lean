import Compaction.CommandLine.Run

/-!
# The program

The command line on a warehouse without tables.
-/

open Compaction

/-- The text of the file that the arguments name, if there is one. -/
def configText (args : List String) : IO (List (String × String)) := do
  match CommandLine.readArguments args with
  | some (.command _ settings) =>
    match settings.reverse.lookup "config_file" with
    | some (.text path) =>
      try return [(String.ofList (Text.normalPath path.toList), ← IO.FS.readFile path)]
      catch _ => return []
    | _ => return []
  | _ => return []

def usage : String := "Usage: [--version] (compact | plan) [OPTIONS]\n"

def main (args : List String) : IO UInt32 := do
  let files ← configText args
  let env : CommandLine.Environment :=
    { fileText := fun path => files.lookup path, modules := [], engine := { defaultWorkers := 8 } }
  let (outcome, _) := CommandLine.run env args {}
  IO.print outcome.out
  IO.eprint outcome.err
  if outcome.exit = 2 then IO.eprint usage
  if let some f := outcome.fault then IO.eprintln f.shownMessage
  return outcome.exit.toUInt32
