import GenomeScript.Program
import GenomeScript.Terminal

/-!
# The command

Reads the arguments, the file and the input, and prints what the run writes.
-/

namespace GenomeScript

/-- The text of a file, if it can be read as text. -/
def readText? (path : String) : IO (Option String) := do
  try
    return some (← IO.FS.readFile path)
  catch _ =>
    return none

/-- Print what was written. -/
def printTranscript (transcript : Transcript) : IO Unit := do
  IO.print transcript.output
  IO.eprint transcript.errors

/-- Answer typed lines one by one until the input ends. -/
partial def converse (showTree : Bool) (store : Store) : IO Unit := do
  let raw ← (← IO.getStdin).getLine
  if raw.isEmpty then return
  let (transcript, store) := Transcript.ofLines Terminal.canvas showTree (Text.lines raw) store
  printTranscript transcript
  converse showTree store

/-- Run what the settings ask for and give the exit status. -/
def perform (settings : CommandLine.Settings) : IO UInt32 := do
  match settings.genome with
  | none =>
    converse settings.tree settings.store
    return 0
  | some path =>
    let outcome := Program.runFile Terminal.canvas settings path (← readText? path)
    printTranscript outcome.transcript
    match outcome.fault with
    | none => return 0
    | some fault =>
      IO.eprintln ("Error: " ++ fault.message)
      return 1

end GenomeScript

/-- The entry point. -/
def main (words : List String) : IO UInt32 := do
  match GenomeScript.CommandLine.parse words with
  | .ok settings => GenomeScript.perform settings
  | .error .help =>
    IO.print GenomeScript.CommandLine.helpText
    return 0
  | .error .version =>
    IO.print GenomeScript.CommandLine.versionText
    return 0
  | .error refusal =>
    IO.eprint (refusal.message?.getD "error: the arguments cannot be used\n")
    return 2
