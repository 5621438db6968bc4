import GenomeScript.Proofs.Joining

/-!
# Line numbers

Scanning counts lines as it goes. The count has a closed form: a token stands on the line after
as many line feeds as come before it, and as many carriage returns that no line feed follows.
Nothing else moves a token down, so a blank of another kind may be replaced by a space without a
change of any line number, and lines never go back from a token to a later one.

The two counts are taken over positions of the source. That a line feed right behind what comes
before a token would spoil the count of carriage returns does not matter: a token begins with a
solid character.
-/

namespace GenomeScript.Token

open GenomeScript.Text

/-- The characters of a source before a byte offset. -/
def charsBefore (source : String) (offset : Nat) : List Char :=
  (cutAt offset source.toList).1

/-- The number of line feeds of a source before a byte offset. -/
def feedsBefore (source : String) (offset : Nat) : Nat :=
  (charsBefore source offset).count '\n'

/-- Whether the character at a position is a carriage return and the next one no line feed. -/
def isLoneReturn (cs : List Char) (i : Nat) : Bool :=
  cs[i]? = some '\r' ∧ cs[i + 1]? ≠ some '\n'

/-- The number of carriage returns among the first characters of a text that no line feed follows. -/
def loneReturns (cs : List Char) (count : Nat) : Nat :=
  (List.range count).countP (isLoneReturn cs)

/-- The number of carriage returns of a source before a byte offset that no line feed follows. -/
def loneReturnsBefore (source : String) (offset : Nat) : Nat :=
  loneReturns source.toList (charsBefore source offset).length

/-- The first character is a lone carriage return or not, and the others are counted behind it. -/
theorem loneReturns_cons (c : Char) (cs : List Char) (count : Nat) :
    loneReturns (c :: cs) (count + 1) =
      (if c = '\r' ∧ cs.head? ≠ some '\n' then 1 else 0) + loneReturns cs count := by
  have hlater : isLoneReturn (c :: cs) ∘ Nat.succ = isLoneReturn cs := by
    funext i
    simp [isLoneReturn]
  have hfirst : isLoneReturn (c :: cs) 0 = decide (c = '\r' ∧ cs.head? ≠ some '\n') := by
    simp [isLoneReturn, List.head?_eq_getElem?]
  rw [loneReturns, List.range_succ_eq_map, List.countP_cons, List.countP_map, hlater, hfirst]
  simp only [decide_eq_true_eq]
  exact Nat.add_comm _ _

/-- A line ends at a line feed and at a lone carriage return, counted together. -/
theorem lineEnds_eq_add (c : Char) (cs : List Char) :
    lineEnds c cs = (if c = '\n' then 1 else 0) + if c = '\r' ∧ cs.head? ≠ some '\n' then 1 else 0 := by
  by_cases hfeed : c = '\n'
  · subst hfeed
    simp [lineEnds]
  · simp [lineEnds, hfeed]

/-- The line endings of a text are its line feeds and its lone carriage returns, whatever stands
behind it but a line feed. -/
theorem lineEndings_eq_add (cs : List Char) {rest : List Char} (h : rest.head? ≠ some '\n') :
    lineEndings cs = cs.count '\n' + loneReturns (cs ++ rest) cs.length := by
  induction cs with
  | nil => rfl
  | cons c cs ih =>
    have hfeeds : (c :: cs).count '\n' = cs.count '\n' + if c = '\n' then 1 else 0 := by
      simp [List.count_cons]
    rw [lineEndings_cons, ← lineEnds_append c cs h, lineEnds_eq_add, ih, hfeeds, List.cons_append,
      List.length_cons, loneReturns_cons]
    omega

/-- What stands before a run is cut off at its first byte. -/
theorem Run.charsBefore_eq {source : String} (run : Run source.toList) :
    charsBefore source (run.tokenFrom 1 0).span.first = run.before := by
  have hcut := cutAt_width run.before (run.word ++ run.after)
  rw [← List.append_assoc, run.parts] at hcut
  simp [charsBefore, tokenFrom, spanFrom, hcut]

/-- The line of a token, counted over the characters before it. -/
theorem line_eq_of_mem_scan {source : String} {token : Token} (h : token ∈ scan source) :
    token.line =
      1 + feedsBefore source token.span.first + loneReturnsBefore source token.span.first := by
  obtain ⟨run, rfl⟩ := mem_scan_iff.mp h
  have hendings := lineEndings_eq_add run.before run.head?_word_append
  rw [← List.append_assoc, run.parts] at hendings
  rw [feedsBefore, loneReturnsBefore, run.charsBefore_eq, Nat.add_assoc, ← hendings]
  rfl

/-- Lines do not go back from one token to a later one. -/
theorem pairwise_line_scanFrom (line offset : Nat) (cs : List Char) :
    (scanFrom line offset cs).Pairwise fun earlier later => earlier.line ≤ later.line := by
  fun_induction scanFrom line offset cs with
  | case1 => exact List.Pairwise.nil
  | case2 line offset c cs hblank ih => exact ih
  | case3 line offset c cs hsolid word past ih =>
    refine List.Pairwise.cons ?_ ih
    intro later hlater
    obtain ⟨run, rfl⟩ := mem_scanFrom_iff.mp hlater
    exact Nat.le_add_right _ _

/-- The lines of tokens do not depend on the offset at which their text begins. -/
theorem map_line_scanFrom (line offset : Nat) (cs : List Char) :
    (scanFrom line offset cs).map Token.line = (scanFrom line 0 cs).map Token.line := by
  have hmoved := scanFrom_add 0 offset line 0 cs
  rw [Nat.add_zero, Nat.zero_add] at hmoved
  rw [hmoved, List.map_map]
  rfl

/-- A blank that ends no line adds none to the line endings before it. -/
theorem lineEndings_append_blank (cs : List Char) {b : Char} (hfeed : b ≠ '\n') (hreturn : b ≠ '\r') :
    lineEndings (cs ++ [b]) = lineEndings cs := by
  induction cs with
  | nil => simp [lineEndings_cons, lineEnds, hfeed, hreturn]
  | cons c cs ih =>
    have hhead : [b].head? ≠ some '\n' := by simpa using hfeed
    rw [List.cons_append, lineEndings_cons, lineEndings_cons, ih, lineEnds_append c cs hhead]

/-- Behind a blank that ends no line, the count of lines goes on where it stood. -/
theorem map_line_scan_append_blank (before after : String) {b : Char} (hblank : isBlank b = true)
    (hfeed : b ≠ '\n') (hreturn : b ≠ '\r') :
    (scan (before ++ String.singleton b ++ after)).map Token.line =
      (scan before).map Token.line ++
        (scanFrom (1 + lineEndings before.toList) 0 after.toList).map Token.line := by
  have hcs : (before ++ String.singleton b ++ after).toList = before.toList ++ b :: after.toList := by
    simp
  rw [scan, hcs, scanFrom_append_blank _ _ _ _ hblank hreturn, List.map_append,
    map_line_scanFrom _ (0 + _), lineEndings_append_blank _ hfeed hreturn, scan]

/-- A token stands on line one plus the line feeds and the lone carriage returns before it. Lines
do not decrease along the tokens, and replacing any other blank of the source by a space changes
no line. -/
theorem line_eq_feeds_add_loneReturns (source : String) :
    (∀ token ∈ scan source, token.line =
      1 + feedsBefore source token.span.first + loneReturnsBefore source token.span.first) ∧
    ((scan source).Pairwise fun earlier later => earlier.line ≤ later.line) ∧
    ∀ (before after : String) (b : Char), source = before ++ String.singleton b ++ after →
      isBlank b = true → b ≠ '\n' → b ≠ '\r' →
        (scan source).map Token.line = (scan (before ++ " " ++ after)).map Token.line := by
  refine ⟨fun token => line_eq_of_mem_scan, pairwise_line_scanFrom 1 0 _, ?_⟩
  intro before after b hsource hblank hfeed hreturn
  rw [hsource, map_line_scan_append_blank before after hblank hfeed hreturn]
  exact (map_line_scan_append_blank before after (b := ' ') (by decide) (by decide) (by decide)).symm

/-- Between two tokens the pair, the two lone returns and the feed end four lines, while the
vertical tab and the wide separators end none. -/
theorem line_eq_feeds_add_loneReturns_mixed :
    scan "é\r\n\r\x0b\r\u0085\n\u2028x" = [⟨"é", 1, ⟨0, 2⟩⟩, ⟨"x", 5, ⟨13, 14⟩⟩] ∧
      feedsBefore "é\r\n\r\x0b\r\u0085\n\u2028x" 13 = 2 ∧
      5 = 1 + feedsBefore "é\r\n\r\x0b\r\u0085\n\u2028x" 13 +
        loneReturnsBefore "é\r\n\r\x0b\r\u0085\n\u2028x" 13 ∧
      (scan "é\r\n\r\x0b\r\u0085\n\u2028x").map Token.line =
        (scan "é\r\n\r\x0b\r\u0085\n x").map Token.line := by
  have hscan : scan "é\r\n\r\x0b\r\u0085\n\u2028x" =
      [⟨"é", 1, ⟨0, 2⟩⟩, ⟨"x", 5, ⟨13, 14⟩⟩] := by decide +kernel
  obtain ⟨hline, _, hspace⟩ := line_eq_feeds_add_loneReturns "é\r\n\r\x0b\r\u0085\n\u2028x"
  refine ⟨hscan, by decide +kernel, hline ⟨"x", 5, ⟨13, 14⟩⟩ (by simp [hscan]), ?_⟩
  exact hspace "é\r\n\r\x0b\r\u0085\n" "x" '\u2028' (by decide) (by decide) (by decide) (by decide)

end GenomeScript.Token
