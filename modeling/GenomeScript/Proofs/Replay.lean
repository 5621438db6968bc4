import GenomeScript.Proofs.LoneExpression
import GenomeScript.Proofs.Words
import GenomeScript.Session

/-!
# Replaying a session

A session can be replayed as one script. The lines since the last `:clear` that were run are
joined, a line of bodies as it stands and an expression between `start` and `stop`; the script
is read as a genome, and one cycle of that genome on the store that the session began with, or
on the empty store if it was cleared, ends in the store of the session. Blank lines, `:vars`
and lines that cannot be read leave no trace, even where a part of such a line can be read. What
`:vars` prints is the text of that store.

Lines are added at the end, so the induction is on the last line: a line that clears starts
the script afresh, a line that runs adds its blocks, and any other line changes nothing.
-/

namespace GenomeScript.Session

open Grammar

/-- Whether a line clears the store. -/
def clears (line : String) : Bool :=
  Text.trimmed line == ":clear"

/-- Whether a line is run: it is neither blank nor `:vars`, and it can be read. -/
def runs (line : String) : Bool :=
  Text.trimmed line != "" && Text.trimmed line != ":vars" && (commands line).isOk

/-- A line as bodies: as it stands if it opens with `start`, or else as the only expression of
a body. -/
def asBodies (line : String) : String :=
  if (Token.scan line).head?.map Token.text = some "start" then line
  else "start " ++ line ++ " stop"

/-- The lines after the last one that clears the store. -/
def sinceClear (lines : List String) : List String :=
  (lines.reverse.takeWhile fun line => !clears line).reverse

/-- The store that the lines since then began with. -/
def baseStore (seed : Store) (lines : List String) : Store :=
  if lines.any clears then .empty else seed

/-- The script of a session. -/
def replay (lines : List String) : String :=
  "\n".intercalate (((sinceClear lines).filter runs).map asBodies)

/-- Running commands for their values ends in the same store as a cycle of them. -/
theorem store_runAll (found : List Command) (store : Store) :
    (runAll found store).2 = (Genome.mk found).run store := by
  induction found generalizing store with
  | nil => rfl
  | cons command found ih =>
    rw [Genome.run_cons, ← ih]
    rfl

/-- A line that clears leaves the empty store. -/
theorem store_of_clears {line : String} (h : clears line = true) (store : Store) :
    (answerTyped? line store).2 = .empty := by
  have hbare : Text.trimmed line = ":clear" := beq_iff_eq.mp h
  simp [answerTyped?, answer, hbare, Directive.ofLine?, Directive.run]

/-- A line that is not run leaves the store alone. -/
theorem store_of_not_runs {line : String} (hclears : clears line = false) (h : runs line = false)
    (store : Store) : (answerTyped? line store).2 = store := by
  have hbare : Text.trimmed line ≠ ":clear" := by simpa [clears] using hclears
  unfold answerTyped?
  by_cases hblank : Text.trimmed line = ""
  · simp [hblank]
  · by_cases hvars : Text.trimmed line = ":vars"
    · simp [hvars, answer, Directive.ofLine?, Directive.run]
    · have hfailed : (commands line).isOk = false := by simpa [runs, hblank, hvars] using h
      cases hcommands : commands line with
      | ok found => simp [hcommands, Except.isOk, Except.toBool] at hfailed
      | error failure => simp [hblank, hvars, hbare, answer, Directive.ofLine?, evaluate, hcommands]

/-- A line that is run changes the store as a cycle of its commands does. -/
theorem store_of_runs {line : String} (hclears : clears line = false) (h : runs line = true)
    (store : Store) :
    ∃ found, commands line = .ok found ∧
      (answerTyped? line store).2 = (Genome.mk found).run store := by
  have hbare : Text.trimmed line ≠ ":clear" := by simpa [clears] using hclears
  simp only [runs, Bool.and_eq_true, bne_iff_ne, ne_eq] at h
  obtain ⟨⟨hblank, hvars⟩, hok⟩ := h
  cases hcommands : commands line with
  | error failure => simp [hcommands, Except.isOk, Except.toBool] at hok
  | ok found =>
    refine ⟨found, rfl, ?_⟩
    rw [← store_runAll]
    simp [answerTyped?, answer, hblank, hvars, hbare, Directive.ofLine?, evaluate, hcommands]

/-- The words of a line that is put between `start` and `stop`. -/
theorem words_wrapped (line : String) :
    Token.words ("start " ++ line ++ " stop") = "start" :: Token.words line ++ ["stop"] := by
  have hwrapped : "start " ++ line ++ " stop" = "start" ++ " " ++ (line ++ " " ++ "stop") :=
    String.toList_inj.mp (by simp)
  have hstart : Token.IsWord "start" := by decide
  have hstop : Token.IsWord "stop" := by decide
  rw [hwrapped, Token.words_append_gap ' ' rfl (by decide), Token.words_append_gap ' ' rfl (by decide),
    Token.words_of_isWord hstart, Token.words_of_isWord hstop]
  rfl

/-- The commands of a line are a script with the words of the line as bodies; wrapping a single
command in a body changes no store. -/
theorem exists_script_of_commands {line : String} {found : List Command}
    (h : commands line = .ok found) :
    ∃ script : Script, script.words = Token.words (asBodies line) ∧
      ∀ store, script.genome.run store = (Genome.mk found).run store := by
  change (if (Token.scan line).head?.map Token.text = some "start" then
    Genome.bodiesOfTokens (Token.scan line) else
      (Expression.ofTokens (Token.scan line)).map fun command => [command]) = .ok found at h
  unfold asBodies
  by_cases hstart : (Token.scan line).head?.map Token.text = some "start"
  · rw [if_pos hstart] at h ⊢
    obtain ⟨script, hwords, hgenome⟩ := Genome.exists_script_of_bodiesOfTokens h
    exact ⟨script, hwords, fun store => by rw [hgenome]⟩
  · rw [if_neg hstart] at h ⊢
    obtain ⟨command, hcommand, rfl⟩ := Except.map_eq_ok_iff.mp h
    obtain ⟨block, hinner, hblock⟩ := Expression.ofTokens_eq_ok_iff_block.mp hcommand
    refine ⟨⟨[block]⟩, ?_, ?_⟩
    · rw [words_wrapped, Token.words, hinner]
      simp [Script.words, Block.words]
    · intro store
      simp [Script.genome, Block.command, hblock]

/-- The store after typed lines is built line by line. -/
theorem store_ofLines (canvas : Canvas) (showTree : Bool) (lines : List String) (store : Store) :
    (Transcript.ofLines canvas showTree lines store).2 =
      lines.foldl (fun store line => (answerTyped? line store).2) store := by
  induction lines generalizing store with
  | nil => rfl
  | cons line lines ih =>
    rw [Transcript.ofLines_cons, List.foldl_cons, ← ih, Transcript.ofLine]

/-- A last line that clears leaves no lines since. -/
theorem sinceClear_append_of_clears {line : String} (h : clears line = true) (lines : List String) :
    sinceClear (lines ++ [line]) = [] := by
  simp [sinceClear, h]

/-- A last line that does not clear is the last one since. -/
theorem sinceClear_append_of_not_clears {line : String} (h : clears line = false)
    (lines : List String) : sinceClear (lines ++ [line]) = sinceClear lines ++ [line] := by
  simp [sinceClear, h]

/-- The lines since the last `:clear` that were run are a script, and a cycle of it on the store
that they began with gives the store of the session. -/
theorem exists_script_of_lines (seed : Store) (lines : List String) :
    ∃ script : Script,
      script.words = (((sinceClear lines).filter runs).map asBodies).flatMap Token.words ∧
      lines.foldl (fun store line => (answerTyped? line store).2) seed =
        script.genome.run (baseStore seed lines) := by
  induction lines using List.reverseRecOn with
  | nil => exact ⟨⟨[]⟩, rfl, rfl⟩
  | append_singleton lines line ih =>
    obtain ⟨script, hwords, hstore⟩ := ih
    rw [List.foldl_append, hstore, List.foldl_cons, List.foldl_nil]
    by_cases hclears : clears line = true
    · refine ⟨⟨[]⟩, by rw [sinceClear_append_of_clears hclears]; rfl, ?_⟩
      rw [store_of_clears hclears]
      simp [baseStore, hclears, Script.genome]
    · rw [Bool.not_eq_true] at hclears
      have hbase : baseStore seed (lines ++ [line]) = baseStore seed lines := by
        simp [baseStore, hclears]
      rw [sinceClear_append_of_not_clears hclears, hbase]
      by_cases hruns : runs line = true
      · obtain ⟨found, hfound, hrun⟩ :=
          store_of_runs hclears hruns (script.genome.run (baseStore seed lines))
        obtain ⟨added, haddedWords, hadded⟩ := exists_script_of_commands hfound
        refine ⟨⟨script.blocks ++ added.blocks⟩, ?_, ?_⟩
        · have hblocks : Script.words ⟨script.blocks ++ added.blocks⟩ = script.words ++ added.words := by
            simp [Script.words]
          rw [hblocks, hwords, haddedWords]
          simp [hruns]
        · rw [hrun, ← hadded, Script.genome, Script.genome, Script.genome, ← Genome.run_append,
            List.map_append]
      · rw [Bool.not_eq_true] at hruns
        refine ⟨script, ?_, store_of_not_runs hclears hruns _⟩
        rw [hwords]
        simp [hruns]

/-- The script of a session can be read, and a cycle of it gives the store of the session. -/
theorem exists_genome_of_lines (seed : Store) (lines : List String) :
    ∃ genome, Genome.ofSource (replay lines) = .ok genome ∧
      lines.foldl (fun store line => (answerTyped? line store).2) seed =
        genome.run (baseStore seed lines) := by
  obtain ⟨script, hwords, hstore⟩ := exists_script_of_lines seed lines
  refine ⟨script.genome, ?_, hstore⟩
  refine Genome.ofTokens_eq_ok_iff_script.mpr ⟨script, ?_, rfl⟩
  have hreplay : Token.words (replay lines) =
      (((sinceClear lines).filter runs).map asBodies).flatMap Token.words :=
    Token.words_intercalate '\n' rfl (by decide) _
  rw [hwords, ← hreplay]
  rfl

/-- A session ends in the store in which a cycle of its script ends, from the store that the
lines since the last `:clear` began with; and that script can be read. -/
theorem store_eq_replay (canvas : Canvas) (showTree : Bool) (seed : Store) (lines : List String) :
    ∃ genome, Genome.ofSource (replay lines) = .ok genome ∧
      (Transcript.ofLines canvas showTree lines seed).2 = genome.run (baseStore seed lines) := by
  obtain ⟨genome, hgenome, hstore⟩ := exists_genome_of_lines seed lines
  exact ⟨genome, hgenome, by rw [store_ofLines, hstore]⟩

/-- A last line is answered behind the others. -/
theorem output_ofLines_append (canvas : Canvas) (showTree : Bool) (lines : List String)
    (line : String) (store : Store) :
    (Transcript.ofLines canvas showTree (lines ++ [line]) store).1.output =
      (Transcript.ofLines canvas showTree lines store).1.output ++
        (Transcript.ofLine canvas showTree line
          (Transcript.ofLines canvas showTree lines store).2).1.output := by
  induction lines generalizing store with
  | nil => simp [Transcript.ofLines]
  | cons first lines ih =>
    rw [List.cons_append, Transcript.ofLines_cons, Transcript.ofLines_cons, Transcript.output_append,
      Transcript.output_append, ih, String.append_assoc]

/-- What `:vars` prints is the text of the store in which a cycle of the script of the lines before it
ends. -/
theorem output_vars_eq_replay (canvas : Canvas) (showTree : Bool) (seed : Store)
    (lines : List String) {line : String} (h : Text.trimmed line = ":vars") :
    ∃ genome, Genome.ofSource (replay lines) = .ok genome ∧
      (Transcript.ofLines canvas showTree (lines ++ [line]) seed).1.output =
        (Transcript.ofLines canvas showTree lines seed).1.output ++
          (genome.run (baseStore seed lines)).display := by
  obtain ⟨genome, hgenome, hstore⟩ := exists_genome_of_lines seed lines
  refine ⟨genome, hgenome, ?_⟩
  have hprinted (store : Store) : (Transcript.ofLine canvas showTree line store).1.output =
      store.display := by
    simp [Transcript.ofLine, answerTyped?, answer, h, Directive.ofLine?, Directive.run,
      Transcript.ofReply]
  rw [output_ofLines_append, hprinted, store_ofLines, hstore]

end GenomeScript.Session
