import GenomeScript.CommandLine.Words
import GenomeScript.Session

/-!
# The program

The command line either names a genome file, which is run for a number of cycles and whose
store is shown at the end, or opens a session over the lines of the input. The content of the
file and the input are arguments here, so the whole run is a function.
-/

namespace GenomeScript.Program

open GenomeScript.CommandLine (Settings)

/-- Why a run as a whole failed. -/
inductive Fault where
  | unreadable (path : String)
  | uncompiled (path : String)
deriving DecidableEq, Repr

/-- The wording of a fault. -/
def Fault.message : Fault → String
  | .unreadable path => "failed to read genome " ++ path
  | .uncompiled path => "could not compile " ++ path

/-- What a run writes, and whether it failed. -/
structure Outcome where
  transcript : Transcript
  fault : Option Fault := none
deriving DecidableEq, Repr

/-- Run the genome in a file, given the text of the file unless it cannot be read. -/
def runFile (canvas : Canvas) (settings : Settings) (path : String) : Option String → Outcome
  | none => { transcript := {}, fault := some (.unreadable path) }
  | some source =>
    match Genome.ofSource source with
    | .error failure =>
      { transcript := { errors := Diagnostic.report canvas source path failure }
        fault := some (.uncompiled path) }
    | .ok genome =>
      let tree := if settings.tree then canvas.paint .dim genome.display else ""
      let final := genome.runCycles settings.cycleCount settings.store
      { transcript := { output := tree ++ final.display } }

/-- Hold a session over an input. -/
def runSession (canvas : Canvas) (settings : Settings) (input : String) : Outcome :=
  { transcript := (Transcript.ofLines canvas settings.tree (Text.lines input) settings.store).1 }

/-- Run what the settings ask for. -/
def run (canvas : Canvas) (settings : Settings) (readFile? : String → Option String)
    (input : String) : Outcome :=
  match settings.genome with
  | some path => runFile canvas settings path (readFile? path)
  | none => runSession canvas settings input

end GenomeScript.Program
