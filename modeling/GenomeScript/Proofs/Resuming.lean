import GenomeScript.Program
import GenomeScript.Proofs.Reseeding

/-!
# Runs that go on

The words of a command line are read one by one. Values that are joined to their options by an equals
sign are accepted in order, and a word that is no option behind them is the file to run. So with
assignments joined to `--set` and a count joined to `--cycles` a run of the file begins with the
assignments and has that many cycles, and it prints the text of the store in which the cycles end.

A run can therefore be taken up where another one ended: with the lines that the other run printed as
assignments, it prints what the cycles of both print in one run. The names have to be identifiers,
since no assignment writes under another name.
-/

namespace GenomeScript

namespace CommandLine

/-- The name of an option that takes a value. -/
def Valued.name : Valued → String
  | .set => "set"
  | .cycles => "cycles"

/-- An option with its value joined to it. -/
def Valued.joined (option : Valued) (word : String) : String :=
  "--" ++ option.name ++ "=" ++ word

/-- Two dashes, a name, an equals sign and a value are a long word. -/
theorem Word.of_long {name : String} (h : '=' ∉ name.toList) (value : String) :
    Word.of ("--" ++ name ++ "=" ++ value) = .long name (some value) := by
  have hword : ("--" ++ name ++ "=" ++ value).toList =
      '-' :: '-' :: (name.toList ++ '=' :: value.toList) := by simp
  have hdivided : Text.divideAt? '=' (name.toList ++ '=' :: value.toList) =
      some (name.toList, value.toList) := Text.divideAt?_eq_some_iff.mpr ⟨rfl, h⟩
  cases hrest : name.toList ++ '=' :: value.toList with
  | nil => simp at hrest
  | cons c cs =>
    rw [hrest] at hword hdivided
    simp [Word.of, hword, hdivided]

/-- A word that does not begin with a dash is plain. -/
theorem Word.of_plain {word : String} (h : word.toList.head? ≠ some '-') : Word.of word = .plain := by
  unfold Word.of
  split
  next hword => simp [hword] at h
  next hword => simp [hword] at h
  next hword => simp [hword] at h
  next => rfl

/-- Accepting values of options, one after the other. -/
def Settings.acceptAll (settings : Settings) (values : List (Valued × String)) :
    Except Refusal Settings :=
  values.foldlM (fun settings value => settings.accept value.1 value.2) settings

/-- No value of an option names the file to run. -/
theorem Settings.genome_of_accept {settings next : Settings} {option : Valued} {word : String}
    (h : settings.accept option word = .ok next) : next.genome = settings.genome := by
  unfold Settings.accept at h
  split at h
  · split at h
    · rw [← Except.ok.inj h]
    · cases h
  · split at h
    · cases h
    · split at h
      · rw [← Except.ok.inj h]
      · cases h

/-- Assignments that can be read are added to the seeds in their order. -/
theorem Settings.acceptAll_set {texts : List String} {seeds : List Assignment}
    (h : texts.map Assignment.parse = seeds.map .ok) (settings : Settings) :
    settings.acceptAll (texts.map fun text => (.set, text)) =
      .ok { settings with seeds := settings.seeds ++ seeds } := by
  induction texts generalizing seeds settings with
  | nil =>
    obtain rfl : seeds = [] := List.map_eq_nil_iff.mp h.symm
    simp [acceptAll, pure, Except.pure]
  | cons text texts ih =>
    obtain ⟨seed, seeds, rfl, hseed, hseeds⟩ := List.map_eq_cons_iff.mp h.symm
    have haccept : settings.accept .set text =
        .ok { settings with seeds := settings.seeds ++ [seed] } := by
      simp only [accept, ← hseed]
    have hlater := ih hseeds.symm { settings with seeds := settings.seeds ++ [seed] }
    rw [List.append_assoc] at hlater
    rw [acceptAll, List.map_cons, List.foldlM_cons, haccept]
    exact hlater

/-- Assignments and a count that can be read are the seeds and the number of cycles. -/
theorem Settings.acceptAll_set_cycles {texts : List String} {seeds : List Assignment}
    (hseeds : texts.map Assignment.parse = seeds.map .ok) {count : String} {n : Nat}
    (hcount : Numeral.readCount count.toList = .ok n) :
    Settings.acceptAll {} ((texts.map fun text => (.set, text)) ++ [(.cycles, count)]) =
      .ok { seeds := seeds, cycles := some n } := by
  have hset : Settings.acceptAll {} (texts.map fun text => (.set, text)) = .ok { seeds := seeds } :=
    acceptAll_set hseeds {}
  rw [acceptAll] at hset
  rw [acceptAll, List.foldlM_append, hset]
  change ([(Valued.cycles, count)].foldlM (fun settings value => settings.accept value.1 value.2)
    ({ seeds := seeds } : Settings)) = _
  simp [accept, hcount, pure, Except.pure, bind, Except.bind]

namespace Progress

/-- Nothing is pending, and options are still read. -/
structure Ready (progress : Progress) : Prop where
  settled : progress.pending = none
  reading : progress.plainOnly = false

/-- An option with its value joined to it is accepted at once. -/
theorem Ready.read_joined {progress : Progress} (h : progress.Ready) (option : Valued)
    (word : String) :
    progress.read (option.joined word) =
      (progress.settings.accept option word).map fun settings => { progress with settings } := by
  have hname : '=' ∉ option.name.toList := by cases option <;> decide
  have hsettle : progress.settle = .ok progress := by rw [settle, h.settled]
  have hvalued : progress.readLong option.name (some word) = progress.readValued option (some word) := by
    cases option <;> rfl
  rw [read, if_neg (by simp [h.reading]), Valued.joined, Word.of_long hname]
  change progress.readLong option.name (some word) = _
  rw [hvalued, readValued, hsettle]
  change (progress.settings.accept option word >>= fun settings => .ok { progress with settings }) = _
  cases progress.settings.accept option word <;> rfl

/-- Joined options are accepted one after the other. -/
theorem Ready.foldlM_read_joined {progress : Progress} (h : progress.Ready)
    (values : List (Valued × String)) :
    (values.map fun value => value.1.joined value.2).foldlM read progress =
      (progress.settings.acceptAll values).map fun settings => { progress with settings } := by
  induction values generalizing progress with
  | nil => rfl
  | cons value values ih =>
    rw [List.map_cons, List.foldlM_cons, h.read_joined, Settings.acceptAll, List.foldlM_cons]
    cases progress.settings.accept value.1 value.2 with
    | error refusal => rfl
    | ok settings =>
      have hnext : Ready { progress with settings } := ⟨h.settled, h.reading⟩
      exact ih hnext

end Progress

/-- Accepting values names no file to run. -/
theorem Settings.genome_of_acceptAll {settings next : Settings} {values : List (Valued × String)}
    (h : settings.acceptAll values = .ok next) : next.genome = settings.genome := by
  induction values generalizing settings with
  | nil => rw [← Except.ok.inj h]
  | cons value values ih =>
    rw [acceptAll, List.foldlM_cons] at h
    obtain ⟨middle, haccept, hlater⟩ := Except.bind_eq_ok_iff.mp h
    rw [ih hlater, genome_of_accept haccept]

/-- Joined options and a file behind them are the settings with the values accepted in order, and with
the file, or they are refused for the first value that is not accepted. -/
theorem parse_joined (values : List (Valued × String)) {path : String} (hne : path ≠ "")
    (hplain : path.toList.head? ≠ some '-') :
    parse ((values.map fun value => value.1.joined value.2) ++ [path]) =
      (Settings.acceptAll {} values).map fun settings => { settings with genome := some path } := by
  have hstart : Progress.Ready {} := ⟨rfl, rfl⟩
  rw [parse, List.foldlM_append, hstart.foldlM_read_joined]
  cases haccepted : Settings.acceptAll {} values with
  | error refusal => rfl
  | ok settings =>
    have hnone : settings.genome = none := Settings.genome_of_acceptAll haccepted
    have hread : Progress.read { settings } path = .ok { settings, pending := some (.genome path) } := by
      rw [Progress.read, if_neg (by simp), Word.of_plain hplain]
      simp [Progress.readPlain, Progress.readGenome, Progress.hasGenome, hnone, Progress.settle, bind,
        Except.bind]
    change ([path].foldlM Progress.read { settings } >>= fun progress =>
      progress.settle >>= fun settled => .ok settled.settings) = _
    rw [List.foldlM_cons, hread]
    change (Progress.settle { settings, pending := some (.genome path) } >>= fun settled =>
      .ok settled.settings) = _
    simp [Progress.settle, hne, bind, Except.bind, Except.map]

/-- An assignment may hold blanks and a count a plus sign. -/
example :
    parse ["--set=x = 7", "--cycles=+3", "plan"] =
      .ok { genome := some "plan", seeds := [⟨"x", 7⟩], cycles := some 3 } := by decide +kernel

end CommandLine

open CommandLine (Settings Valued)

/-- The cycles of a run can be divided. -/
theorem Genome.runCycles_add (genome : Genome) (m n : Nat) (store : Store) :
    genome.runCycles (m + n) store = genome.runCycles n (genome.runCycles m store) := by
  induction m generalizing store with
  | zero => rw [Nat.zero_add, runCycles]
  | succ m ih => rw [Nat.succ_add, runCycles, ih, runCycles]

namespace Program

variable {canvas : Canvas} {readFile? : String → Option String} {path source : String}
  {genome : Genome}

/-- A run of a file that can be read prints the text of the store in which its cycles end. -/
theorem run_file (hfile : readFile? path = some source) (hsource : Genome.ofSource source = .ok genome)
    (settings : Settings) (hpath : settings.genome = some path) (htree : settings.tree = false)
    (input : String) :
    run canvas settings readFile? input =
      { transcript := { output := (genome.runCycles settings.cycleCount settings.store).display } } := by
  simp [run, hpath, hfile, runFile, hsource, htree]

/-- A run of a file can be taken up where it ended. With the lines that it printed joined to `--set`,
and a count joined to `--cycles`, the command line is accepted, and the run prints what one run with
the cycles of both prints. -/
theorem run_resumes (hfile : readFile? path = some source)
    (hsource : Genome.ofSource source = .ok genome) (hne : path ≠ "")
    (hplain : path.toList.head? ≠ some '-') {first : Settings} (hpath : first.genome = some path)
    (htree : first.tree = false) {count : String} {n : Nat}
    (hcount : Numeral.readCount count.toList = .ok n)
    (hnames : ∀ name, (genome.runCycles first.cycleCount first.store).contains name = true →
      Identifier.isIdentifier name = true) (input : String) :
    ∃ second, CommandLine.parse ((Text.lines (run canvas first readFile? input).transcript.output).map
        Valued.set.joined ++ [Valued.cycles.joined count, path]) = .ok second ∧
      run canvas second readFile? input =
        run canvas { first with cycles := some (first.cycleCount + n) } readFile? input := by
  have hfirst : run canvas first readFile? input =
      { transcript := { output := (genome.runCycles first.cycleCount first.store).display } } :=
    run_file hfile hsource first hpath htree input
  have hwhole : run canvas { first with cycles := some (first.cycleCount + n) } readFile? input =
      { transcript := { output := (genome.runCycles (first.cycleCount + n) first.store).display } } :=
    run_file hfile hsource { first with cycles := some (first.cycleCount + n) } hpath htree input
  rw [hwhole, Genome.runCycles_add, hfirst]
  generalize genome.runCycles first.cycleCount first.store = store at hnames
  let second : Settings :=
    { genome := some path, cycles := some n
      seeds := store.entries.map fun entry => ⟨entry.1, entry.2⟩ }
  have hsecond : run canvas second readFile? input =
      { transcript := { output := (genome.runCycles n second.store).display } } :=
    run_file hfile hsource second rfl rfl input
  refine ⟨second, ?_, by rw [hsecond, Settings.store_of_entries rfl]⟩
  let values : List (Valued × String) :=
    ((Text.lines store.display).map fun text => (.set, text)) ++ [(.cycles, count)]
  have hwords : (Text.lines store.display).map Valued.set.joined ++ [Valued.cycles.joined count, path] =
      (values.map fun value => value.1.joined value.2) ++ [path] := by
    simp [values, Function.comp_def]
  rw [hwords, CommandLine.parse_joined values hne hplain,
    Settings.acceptAll_set_cycles (Store.map_parse_lines_display hnames) hcount]
  rfl

end Program

end GenomeScript
