import GenomeScript.Reading
import GenomeScript.Store.Basic

/-!
# Settings

What a command line asks for, and the ways in which it is refused. Asking for help or for the
version is a refusal to run as well.

An assignment `NAME=VALUE` seeds a sysvar. It is divided at the first equals sign. Blanks around the
name and around the value are ignored, and so are dots in front of the name.
-/

namespace GenomeScript

/-! ## Assignments -/

/-- A name and the value to write under it. -/
structure Assignment where
  name : String
  value : Value
deriving DecidableEq, Repr

namespace Assignment

/-- Why a text is no assignment. -/
inductive Fault where
  | noEquals (text : String)
  | badName (name : String)
  | badValue (value : String) (fault : Numeral.Fault)
deriving DecidableEq, Repr

/-- The wording of a fault. -/
def Fault.message : Fault → String
  | .noEquals text => "expected NAME=VALUE, got `" ++ text ++ "`"
  | .badName name => "invalid sysvar name `" ++ name ++ "`"
  | .badValue value fault => "invalid value `" ++ value ++ "`: " ++ fault.message

/-- The name without the blanks around it and the dots in front of it. -/
def bareName (text : List Char) : List Char :=
  (Text.trim text).dropWhile (· == '.')

/-- Read a text as an assignment. -/
def parse (text : String) : Except Fault Assignment :=
  match Text.divideAt? '=' text.toList with
  | none => .error (.noEquals text)
  | some (left, right) =>
    if Identifier.accepts (bareName left) then
      match Numeral.readValue (Text.trim right) with
      | .ok value => .ok { name := String.ofList (bareName left), value }
      | .error fault => .error (.badValue (String.ofList right) fault)
    else .error (.badName (String.ofList (bareName left)))

end Assignment

/-! ## What a command line asks for -/

namespace CommandLine

/-- What to run and how. -/
structure Settings where
  /-- The file to run; without one a session is held. -/
  genome : Option String := none
  /-- The assignments made before running, in order. -/
  seeds : List Assignment := []
  /-- How often the genome is run, if that was said. -/
  cycles : Option Nat := none
  /-- Whether commands are shown before they run. -/
  tree : Bool := false
deriving DecidableEq, Repr

namespace Settings

/-- The store before running. -/
def store (settings : Settings) : Store :=
  .ofList (settings.seeds.map fun seed => (seed.name, seed.value))

/-- How often the genome is run: once unless said otherwise. -/
def cycleCount (settings : Settings) : Nat :=
  settings.cycles.getD 1

end Settings

/-- The options that take a value. -/
inductive Valued where
  | set
  | cycles
deriving DecidableEq, Repr

/-- How an option that takes a value is shown. -/
def Valued.usage : Valued → String
  | .set => "--set <NAME=VALUE>"
  | .cycles => "--cycles <CYCLES>"

/-- Why nothing is run. -/
inductive Refusal where
  /-- A word that is no option, or one word too many. -/
  | unknownArgument
  /-- A value is missing or empty. -/
  | missingValue
  /-- An option that may be given once was repeated. -/
  | repeatedOption
  /-- A value for an option that takes none. -/
  | unwantedValue
  /-- A value that its option does not accept, with the reason. -/
  | invalidValue (option : Valued) (word : String) (reason : String)
  /-- Help was asked for. -/
  | help
  /-- The version was asked for. -/
  | version
deriving DecidableEq, Repr

/-- The help text. -/
def helpText : String :=
  "Compile and run sysvar genomes\n" ++
  "\n" ++
  "Usage: genome_repl [OPTIONS] [GENOME]\n" ++
  "\n" ++
  "Arguments:\n" ++
  "  [GENOME]  Genome file to compile and run. Starts an interactive session when omitted\n" ++
  "\n" ++
  "Options:\n" ++
  "      --set <NAME=VALUE>  Seed a sysvar before running, as NAME=VALUE (repeatable)\n" ++
  "      --cycles <CYCLES>   Number of times to run the genome against the same sysvars " ++
    "[default: 1]\n" ++
  "      --tree              Print the compiled commands before running them\n" ++
  "  -h, --help              Print help\n" ++
  "  -V, --version           Print version\n"

/-- The version text. -/
def versionText : String := "genome_repl 0.1.0\n"

/-- The wording of a refusal, where it has one of its own. -/
def Refusal.message? : Refusal → Option String
  | .invalidValue option word reason =>
    some ("error: invalid value '" ++ word ++ "' for '" ++ option.usage ++ "': " ++ reason ++
      "\n\nFor more information, try '--help'.\n")
  | .help => some helpText
  | .version => some versionText
  | _ => none

end CommandLine

end GenomeScript
