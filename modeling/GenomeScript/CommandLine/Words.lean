import GenomeScript.CommandLine.Settings

/-!
# Reading a command line

The words are read from left to right. A value is looked at when the next word makes clear
that it is complete, or at the end; a value joined to its option by an equals sign is looked
at right away. A word that cannot be accepted at all is refused before the value that waits.
-/

namespace GenomeScript.CommandLine

/-- The kinds of words. -/
inductive Word where
  /-- Two dashes alone: all later words are plain. -/
  | divider
  /-- A word after two dashes, with the value joined to it. -/
  | long (name : String) (value : Option String)
  /-- A letter after one dash. -/
  | short (letter : Char)
  | plain
deriving DecidableEq, Repr

/-- The kind of a word. -/
def Word.of (word : String) : Word :=
  match word.toList with
  | ['-', '-'] => .divider
  | '-' :: '-' :: rest =>
    match Text.divideAt? '=' rest with
    | some (name, value) => .long (String.ofList name) (some (String.ofList value))
    | none => .long (String.ofList rest) none
  | '-' :: letter :: _ => .short letter
  | _ => .plain

/-- Something that still has to be looked at. -/
inductive Pending where
  /-- An option whose value has not come. -/
  | awaiting (option : Valued)
  /-- An option and its value. -/
  | given (option : Valued) (word : String)
  /-- The file to run. -/
  | genome (word : String)
deriving DecidableEq, Repr

/-- What has been read so far. -/
structure Progress where
  settings : Settings := {}
  pending : Option Pending := none
  /-- Whether all further words are plain. -/
  plainOnly : Bool := false
deriving DecidableEq, Repr

/-- Accept the value of an option. -/
def Settings.accept (settings : Settings) (option : Valued) (word : String) :
    Except Refusal Settings :=
  match option with
  | .set =>
    match Assignment.parse word with
    | .ok seed => .ok { settings with seeds := settings.seeds ++ [seed] }
    | .error fault => .error (.invalidValue .set word fault.message)
  | .cycles =>
    if settings.cycles.isSome then .error .repeatedOption
    else
      match Numeral.readCount word.toList with
      | .ok count => .ok { settings with cycles := some count }
      | .error fault => .error (.invalidValue .cycles word fault.message)

namespace Progress

/-- Look at what is pending. -/
def settle (progress : Progress) : Except Refusal Progress :=
  match progress.pending with
  | none => .ok progress
  | some (.awaiting _) => .error .missingValue
  | some (.given option word) => do
    let settings ← progress.settings.accept option word
    .ok { progress with settings, pending := none }
  | some (.genome word) =>
    if word = "" then .error .missingValue
    else .ok { progress with
      settings := { progress.settings with genome := some word }, pending := none }

/-- Whether the file to run has been named. -/
def hasGenome (progress : Progress) : Bool :=
  match progress.pending with
  | some (.genome _) => true
  | _ => progress.settings.genome.isSome

/-- Read an option that takes a value, with the value joined to it if there is one. -/
def readValued (progress : Progress) (option : Valued) : Option String → Except Refusal Progress
  | none => do
    let settled ← progress.settle
    .ok { settled with pending := some (.awaiting option) }
  | some word => do
    let settled ← progress.settle
    let settings ← settled.settings.accept option word
    .ok { settled with settings }

/-- Settle what is pending and then refuse. -/
def refuse (progress : Progress) (refusal : Refusal) : Except Refusal Progress := do
  let _ ← progress.settle
  .error refusal

/-- Read an option that takes no value. -/
def readFlag (progress : Progress) (effect : Progress → Except Refusal Progress) :
    Option String → Except Refusal Progress
  | none => effect progress
  | some _ => .error .unwantedValue

/-- Ask for commands to be shown. -/
def readTree (progress : Progress) : Except Refusal Progress := do
  let settled ← progress.settle
  if settled.settings.tree then .error .repeatedOption
  else .ok { settled with settings := { settled.settings with tree := true } }

/-- Read a word after two dashes. -/
def readLong (progress : Progress) (name : String) (value : Option String) :
    Except Refusal Progress :=
  if name = "set" then progress.readValued .set value
  else if name = "cycles" then progress.readValued .cycles value
  else if name = "tree" then progress.readFlag readTree value
  else if name = "help" then progress.readFlag (refuse · .help) value
  else if name = "version" then progress.readFlag (refuse · .version) value
  else .error .unknownArgument

/-- Read a letter after one dash. -/
def readShort (progress : Progress) (letter : Char) : Except Refusal Progress :=
  if letter = 'h' then progress.refuse .help
  else if letter = 'V' then progress.refuse .version
  else .error .unknownArgument

/-- Read a word as the file to run. -/
def readGenome (progress : Progress) (word : String) : Except Refusal Progress :=
  if progress.hasGenome then .error .unknownArgument
  else do
    let settled ← progress.settle
    .ok { settled with pending := some (.genome word) }

/-- Read a plain word: the value that an option awaits, or the file to run. -/
def readPlain (progress : Progress) (word : String) : Except Refusal Progress :=
  match progress.pending with
  | some (.awaiting option) => .ok { progress with pending := some (.given option word) }
  | _ => progress.readGenome word

/-- Read one word. -/
def read (progress : Progress) (word : String) : Except Refusal Progress :=
  if progress.plainOnly then progress.readGenome word
  else
    match Word.of word with
    | .divider => .ok { progress with plainOnly := true }
    | .long name value => progress.readLong name value
    | .short letter => progress.readShort letter
    | .plain => progress.readPlain word

end Progress

/-- Read the words of a command line. -/
def parse (words : List String) : Except Refusal Settings := do
  let progress ← words.foldlM Progress.read {}
  let settled ← progress.settle
  .ok settled.settings

end GenomeScript.CommandLine
