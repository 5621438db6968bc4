import GenomeScript.Proofs.Blame
import GenomeScript.Proofs.Drawing
import GenomeScript.Proofs.LineNumbers
import GenomeScript.Proofs.TextLines

/-!
# Excerpts show the blamed token

The report of a failure draws the line of the source in which the blamed token lies. Two counts of
lines meet there. The excerpt divides the source at line feeds alone, while the token carries the
line that scanning counted, for which a lone carriage return ends a line too. So the number that
is drawn is short of the line of the failure by exactly the lone carriage returns before the token.

A token is a run of the source, and a run lies inside one line: what stands before it ends in the
part of that line before the run, and what stands behind it begins with the part after the run. That
is all that a canvas asks of a label, so on a lawful canvas every token of a source can be drawn.
-/

namespace GenomeScript

open Token (loneReturnsBefore Run)

/-- An excerpt that shows a token in the line of a source in which it lies: the marked part is the
token, at its range, and the number counts the lines up to that one. -/
structure Excerpt.Shows (excerpt : Excerpt) (source : String) (token : Token) : Prop where
  line_eq : (Text.linesOf source.toList)[excerpt.earlier]? =
    some (excerpt.before ++ excerpt.marked ++ excerpt.after)
  offset_eq : excerpt.offset =
    Text.width (Text.writeLines ((Text.linesOf source.toList).take excerpt.earlier))
  marked_eq : String.ofList excerpt.marked = token.text
  first_eq : token.span.first = excerpt.offset + Text.width excerpt.before
  past_eq : token.span.past = token.span.first + Text.width excerpt.marked
  number_add : excerpt.number + loneReturnsBefore source token.span.first = token.line

/-- Every token of a source is shown by an excerpt. -/
theorem Token.exists_shows_of_mem_scan {source : String} {token : Token}
    (h : token ∈ Token.scan source) : ∃ excerpt : Excerpt, excerpt.Shows source token := by
  have hline := Token.line_eq_of_mem_scan h
  obtain ⟨run, rfl⟩ := Token.mem_scan_iff.mp h
  have hfeed : '\n' ∉ run.word := fun hmem => absurd (run.solid '\n' hmem) (by decide)
  obtain ⟨earlier, later, hlines, hcount, hwidth⟩ :=
    Text.exists_linesOf_around run.before run.after hfeed
  rw [run.parts] at hlines
  rw [Token.feedsBefore, run.charsBefore_eq] at hline
  refine ⟨{ earlier := earlier.length, offset := Text.width (Text.writeLines earlier)
            before := Text.lastLine run.before, marked := run.word
            after := Text.firstLine run.after }, ?_, ?_, rfl, ?_, rfl, ?_⟩
  · simp [hlines]
  · simp [hlines]
  · simp only [Run.tokenFrom, Run.spanFrom]
    omega
  · simp only [Excerpt.number]
    omega

/-- An excerpt that shows a token lies in the lines of the source, at the range of the token. -/
theorem Excerpt.Shows.liesIn {excerpt : Excerpt} {source : String} {token : Token}
    (h : excerpt.Shows source token) (hspan : token.span.first < token.span.past) :
    excerpt.LiesIn (Line.placed 0 (Text.linesOf source.toList)) ∧ token.span = excerpt.span := by
  have hne : excerpt.marked ≠ [] := by
    intro hempty
    have hpast := h.past_eq
    rw [hempty, Text.width_nil] at hpast
    omega
  have hplaced := Line.getElem?_placed h.line_eq 0
  rw [Nat.zero_add, ← h.offset_eq] at hplaced
  refine ⟨⟨hplaced, hne⟩, ?_⟩
  have hpast := h.past_eq
  rw [h.first_eq] at hpast
  exact congrArg₂ Span.mk h.first_eq hpast

namespace Failure

/-- A failure whose place in a source is settled: either `start` is missing and no token is blamed,
or a token of the source is. -/
structure Located (source : String) (failure : Failure) : Prop extends
    Blames (Token.scan source) failure where
  not_both : ¬(failure.BlamesNone ∧ failure.BlamesOneOf (Token.scan source))
  span_nonempty : failure.fault ≠ .missingStart →
    failure.blamed.span.first < failure.blamed.span.past

/-- Who is blamed settles the place of a failure. -/
theorem Blames.located {source : String} {failure : Failure}
    (h : failure.Blames (Token.scan source)) : failure.Located source where
  toBlames := h
  not_both hboth := hboth.2.1 hboth.1.1
  span_nonempty hstart := (Token.cutsOut_of_mem_scan (h.oneOf hstart).2).nonempty

/-- The report of a failure on a canvas. It is a headline alone if `start` is missing. Otherwise the
label on the blamed token has a block, and the block follows the headline and holds the token. -/
structure Reported (canvas : Canvas) (source : String) (failure : Failure) : Prop where
  headline_alone : failure.fault = .missingStart → ∀ origin,
    Diagnostic.report canvas source origin failure =
      canvas.paint .alarm "error:" ++ " " ++ failure.message ++ "\n"
  block_follows : failure.fault ≠ .missingStart → ∃ block front back,
    canvas.block? (canvas.index source)
      [⟨failure.blamed.span, canvas.paint .red failure.fault.message, canvas.paint .red⟩] =
        some block ∧
    canvas.code String.utf8ByteSize block = front ++ failure.blamed.text ++ back ∧
    failure.blamed.text ≠ "" ∧
    ∀ origin, Diagnostic.report canvas source origin failure =
      canvas.paint .alarm "error:" ++ " " ++ failure.message ++ "\n" ++
        (canvas.prologue block ++ "[" ++ origin ++ "]\n" ++
          canvas.code String.utf8ByteSize block ++ canvas.epilogue block ++ "\n")

/-- The report of a failure draws an excerpt that shows the blamed token: a line of the report is the
number of the excerpt in digits and the line of the source, with the token between two marks. -/
structure Draws (canvas : Canvas) (source : String) (failure : Failure) (excerpt : Excerpt) :
    Prop where
  shows : excerpt.Shows source failure.blamed
  number_add : excerpt.number + loneReturnsBefore source failure.blamed.span.first = failure.line
  printed : ∀ origin, ∃ above number front back below, Numeral.Counts number excerpt.number ∧
    Diagnostic.report canvas source origin failure =
      above ++ "\n" ++ number ++ " │ " ++ String.ofList excerpt.before ++
        (front ++ failure.blamed.text ++ back) ++ String.ofList excerpt.after ++ "\n" ++ below

/-- The report of a failure without a range is its headline. -/
theorem report_of_isEmpty (canvas : Canvas) (source origin : String) {failure : Failure}
    (h : failure.blamed.span.isEmpty = true) :
    Diagnostic.report canvas source origin failure = Diagnostic.headline canvas failure := by
  simp [Diagnostic.report, h]

/-- The report of a failure that has a block is its headline and the block written out. -/
theorem report_of_block {canvas : Canvas} {source : String} {failure : Failure}
    {block : canvas.Block} (hspan : failure.blamed.span.first < failure.blamed.span.past)
    (hblock : Diagnostic.block? canvas (canvas.index source) failure = some block)
    (origin : String) :
    Diagnostic.report canvas source origin failure =
      Diagnostic.headline canvas failure ++ Diagnostic.drawing canvas origin block := by
  have hdrawn : failure.blamed.span.isEmpty = false := by simpa [Span.isEmpty] using hspan
  simp [Diagnostic.report, hdrawn, hblock]

variable {canvas : Canvas} {source : String} {failure : Failure}

/-- On a lawful canvas a failure that blames a token of the source has a block, and the block shows
an excerpt with the token. -/
theorem exists_block (hlawful : canvas.Lawful) (h : failure.blamed ∈ Token.scan source) :
    ∃ (excerpt : Excerpt) (block : canvas.Block), excerpt.Shows source failure.blamed ∧
      Diagnostic.block? canvas (canvas.index source) failure = some block ∧
      excerpt.ShownIn (canvas.paint .red) (canvas.code String.utf8ByteSize block) := by
  obtain ⟨excerpt, hshows⟩ := Token.exists_shows_of_mem_scan h
  obtain ⟨hlies, hspan⟩ := hshows.liesIn (Token.cutsOut_of_mem_scan h).nonempty
  rw [← hlawful.index_eq] at hlies
  obtain ⟨block, hblock⟩ :=
    hlawful.exists_block source excerpt (Diagnostic.label canvas failure) hlies hspan
  exact ⟨excerpt, block, hshows, hblock,
    hlawful.shownIn_code source excerpt _ block hlies hspan hblock String.utf8ByteSize⟩

/-- On a lawful canvas a failure is reported as who it blames demands. -/
theorem Blames.reported (h : failure.Blames (Token.scan source)) (hlawful : canvas.Lawful) :
    failure.Reported canvas source := by
  refine ⟨?_, ?_⟩
  · intro hstart origin
    have hnone := h.none_or_one.resolve_right fun hone => hone.1 hstart
    have hempty : failure.blamed.span.isEmpty = true := by
      rw [hnone.2]
      rfl
    exact report_of_isEmpty canvas source origin hempty
  · intro hstart
    have hmem := (h.oneOf hstart).2
    obtain ⟨excerpt, block, hshows, hblock, hshown⟩ := exists_block hlawful hmem
    obtain ⟨front, back, hpaint⟩ := hlawful.exists_paint_eq .red
    obtain ⟨above, number, below, _, hcode⟩ := hshown
    have hspan := h.located.span_nonempty hstart
    refine ⟨block, above ++ "\n" ++ number ++ " │ " ++ String.ofList excerpt.before ++ front,
      back ++ String.ofList excerpt.after ++ "\n" ++ below, hblock, ?_, ?_,
      report_of_block hspan hblock⟩
    · rw [hcode, hpaint, hshows.marked_eq]
      simp only [String.append_assoc]
    · rw [← hshows.marked_eq]
      exact mt String.ofList_eq_empty_iff.mp (hshows.liesIn hspan).1.nonempty

/-- On a lawful canvas a failure for another fault than a missing `start` draws the blamed token. -/
theorem Blames.exists_draws (h : failure.Blames (Token.scan source)) (hlawful : canvas.Lawful)
    (hstart : failure.fault ≠ .missingStart) : ∃ excerpt, failure.Draws canvas source excerpt := by
  obtain ⟨excerpt, block, hshows, hblock, hshown⟩ := exists_block hlawful (h.oneOf hstart).2
  obtain ⟨front, back, hpaint⟩ := hlawful.exists_paint_eq .red
  obtain ⟨above, number, below, hnumber, hcode⟩ := hshown
  refine ⟨excerpt, hshows, by rw [h.line_eq, hshows.number_add], ?_⟩
  intro origin
  refine ⟨Diagnostic.headline canvas failure ++ canvas.prologue block ++ "[" ++ origin ++ "]\n" ++ above,
    number, front, back, below ++ canvas.epilogue block ++ "\n", hnumber, ?_⟩
  rw [report_of_block (h.located.span_nonempty hstart) hblock, Diagnostic.drawing, hcode, hpaint,
    hshows.marked_eq]
  simp only [String.append_assoc]

end Failure

/-- A source that cannot be read as a genome, and a line of a session that is not blank and cannot
be read, fail at a settled place, and on a lawful canvas they are reported with a block unless `start`
is missing. A genome never fails because of an unexpected token, while a line can. -/
theorem located_of_failure :
    (∀ source failure, Genome.ofSource source = .error failure →
      failure.fault ≠ .unexpectedToken ∧ failure.Located source ∧
        ∀ canvas : Canvas, canvas.Lawful → failure.Reported canvas source) ∧
    (∀ line failure, (∃ c ∈ line.toList, Text.isBlank c = false) →
      Session.commands line = .error failure → failure.Located line ∧
        ∀ canvas : Canvas, canvas.Lawful → failure.Reported canvas line) ∧
    ∃ line failure, Session.commands line = .error failure ∧ failure.fault = .unexpectedToken := by
  refine ⟨?_, ?_, ?_⟩
  · intro source failure h
    obtain ⟨hexpected, hblames⟩ := Genome.blames_of_bodiesOfTokens (Except.map_eq_error_iff.mp h)
    exact ⟨hexpected, hblames.located, fun canvas => hblames.reported⟩
  · intro line failure hsolid h
    have hblames := Session.blames_of_commands hsolid h
    exact ⟨hblames.located, fun canvas => hblames.reported⟩
  · exact ⟨"1 stop", .blame .unexpectedToken ⟨"stop", 1, ⟨2, 6⟩⟩, by decide +kernel, rfl⟩

/-- The same text as a source misses `start`, and as a line has a token after its expression. On a
terminal the first is told in one line, and the second with its block. -/
theorem located_of_failure_stray_stop :
    Genome.ofSource "1 stop" = .error (.synthetic .missingStart) ∧
      Failure.Located "1 stop" (.synthetic .missingStart) ∧
      Failure.Reported Terminal.canvas "1 stop" (.synthetic .missingStart) ∧
      Session.commands "1 stop" = .error (.blame .unexpectedToken ⟨"stop", 1, ⟨2, 6⟩⟩) ∧
      Failure.Located "1 stop" (.blame .unexpectedToken ⟨"stop", 1, ⟨2, 6⟩⟩) ∧
      Failure.Reported Terminal.canvas "1 stop" (.blame .unexpectedToken ⟨"stop", 1, ⟨2, 6⟩⟩) := by
  have hsource : Genome.ofSource "1 stop" = .error (.synthetic .missingStart) := by decide +kernel
  have hline : Session.commands "1 stop" = .error (.blame .unexpectedToken ⟨"stop", 1, ⟨2, 6⟩⟩) := by
    decide +kernel
  obtain ⟨hgenome, hsession, _⟩ := located_of_failure
  obtain ⟨_, hstart, hheadline⟩ := hgenome _ _ hsource
  obtain ⟨hstop, hblock⟩ := hsession _ _ ⟨'1', by decide, by decide⟩ hline
  exact ⟨hsource, hstart, hheadline _ Terminal.lawful_canvas, hline, hstop,
    hblock _ Terminal.lawful_canvas⟩

/-- On a lawful canvas the report of a source that cannot be read as a genome draws the blamed token
in its line, unless `start` is missing, and so does the report of a line of a session whose blamed
token has a range. -/
theorem draws_excerpt_of_failure {canvas : Canvas} (hlawful : canvas.Lawful) :
    (∀ source failure, Genome.ofSource source = .error failure → failure.fault ≠ .missingStart →
      ∃ excerpt, failure.Draws canvas source excerpt) ∧
    ∀ line failure, Session.commands line = .error failure →
      failure.blamed.span.first < failure.blamed.span.past →
        ∃ excerpt, failure.Draws canvas line excerpt := by
  constructor
  · intro source failure h hstart
    have hblames := (Genome.blames_of_bodiesOfTokens (Except.map_eq_error_iff.mp h)).2
    exact hblames.exists_draws hlawful hstart
  · intro line failure h hspan
    obtain ⟨hblames, hstart⟩ := Session.blames_of_span h hspan
    exact hblames.exists_draws hlawful hstart

/-- A carriage return behind the token does not matter, while a lone one before it puts the drawn
number one short of the line of the token. On a terminal the second report shows the number two, the
lone return and the token in red. -/
theorem draws_excerpt_of_failure_lone_return :
    Genome.ofSource "start\r\n1 .é\rstore stop" =
        .error (.blame .malformedAddress ⟨".é", 2, ⟨9, 12⟩⟩) ∧
      (∃ excerpt, Failure.Draws Terminal.canvas "start\r\n1 .é\rstore stop"
        (.blame .malformedAddress ⟨".é", 2, ⟨9, 12⟩⟩) excerpt ∧
          excerpt.number = 2 ∧ String.ofList excerpt.marked = ".é") ∧
      Session.commands "7\r\n\rα" = .error (.blame .unexpectedToken ⟨"α", 3, ⟨4, 6⟩⟩) ∧
      (∃ excerpt, Failure.Draws Terminal.canvas "7\r\n\rα"
        (.blame .unexpectedToken ⟨"α", 3, ⟨4, 6⟩⟩) excerpt ∧
          excerpt.number = 2 ∧ String.ofList excerpt.marked = "α") ∧
      Diagnostic.report Terminal.canvas "7\r\n\rα" "repl"
          (.blame .unexpectedToken ⟨"α", 3, ⟨4, 6⟩⟩) =
        "\x1b[1;31merror:\x1b[0m unexpected token after expression at line 3: `α`\n" ++
          "  ╭─[repl]\n" ++
          "  │\n" ++
          "2 │ \r\x1b[31mα\x1b[0m\n" ++
          "  ┆  \x1b[31m─┬\x1b[0m\n" ++
          "  ┆  \x1b[31m │\x1b[0m\n" ++
          "  ┆   \x1b[31m╰─\x1b[0m \x1b[31munexpected token after expression\x1b[0m\n" ++
          "──╯\n" := by
  have hsource : Genome.ofSource "start\r\n1 .é\rstore stop" =
      .error (.blame .malformedAddress ⟨".é", 2, ⟨9, 12⟩⟩) := by decide +kernel
  have hline : Session.commands "7\r\n\rα" = .error (.blame .unexpectedToken ⟨"α", 3, ⟨4, 6⟩⟩) := by
    decide +kernel
  obtain ⟨hgenome, hsession⟩ := draws_excerpt_of_failure Terminal.lawful_canvas
  obtain ⟨first, hfirst⟩ := hgenome _ _ hsource nofun
  obtain ⟨second, hsecond⟩ := hsession _ _ hline (by decide)
  -- No lone return comes before the first token, and one before the second.
  have hnone : loneReturnsBefore "start\r\n1 .é\rstore stop" 9 = 0 := by decide +kernel
  have hone : loneReturnsBefore "7\r\n\rα" 4 = 1 := by decide +kernel
  have hfirstNumber : first.number + loneReturnsBefore "start\r\n1 .é\rstore stop" 9 = 2 :=
    hfirst.number_add
  have hsecondNumber : second.number + loneReturnsBefore "7\r\n\rα" 4 = 3 := hsecond.number_add
  exact ⟨hsource, ⟨first, hfirst, by omega, hfirst.shows.marked_eq⟩, hline,
    ⟨second, hsecond, by omega, hsecond.shows.marked_eq⟩, by decide +kernel⟩

end GenomeScript
