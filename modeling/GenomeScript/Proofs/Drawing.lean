import GenomeScript.Proofs.Literals
import GenomeScript.Proofs.TextLines
import GenomeScript.Terminal

/-!
# Rules of drawing

What a report shows depends on the canvas that it is drawn on. A canvas is lawful if it keeps four
rules. The lines of a source end at its line feeds and nowhere else. A label on a part of one line, if
the part is not empty, makes a block. The block draws that line on a line of its own, behind the number
of the line, with the part in the style of the label. And paint is put around a text, so that the text
can still be read.

The canvas of a terminal is lawful: it finds the line of a range by walking along the lines until one
reaches to the end of the range, and cuts the line at the two ends.
-/

namespace GenomeScript

namespace Excerpt

/-- The line of which a part is marked. -/
def line (excerpt : Excerpt) : Line :=
  ⟨excerpt.offset, excerpt.before ++ excerpt.marked ++ excerpt.after⟩

/-- The range of the part that is marked. -/
def span (excerpt : Excerpt) : Span :=
  let first := excerpt.offset + Text.width excerpt.before
  ⟨first, first + Text.width excerpt.marked⟩

/-- A part of one of the lines that is not empty. -/
structure LiesIn (excerpt : Excerpt) (lines : List Line) : Prop where
  line_eq : lines[excerpt.earlier]? = some excerpt.line
  nonempty : excerpt.marked ≠ []

/-- A text that shows an excerpt: a line of the text is the number of the line, in digits, and the
line itself with the marked part as `style` makes it. -/
def ShownIn (excerpt : Excerpt) (style : String → String) (text : String) : Prop :=
  ∃ above number below, Numeral.Counts number excerpt.number ∧
    text = above ++ "\n" ++ number ++ " │ " ++ String.ofList excerpt.before ++
      style (String.ofList excerpt.marked) ++ String.ofList excerpt.after ++ "\n" ++ below

/-- The range of a part that is not empty is not empty. -/
theorem LiesIn.first_lt_past {excerpt : Excerpt} {lines : List Line} (h : excerpt.LiesIn lines) :
    excerpt.span.first < excerpt.span.past := by
  have hwide : Text.width excerpt.marked ≠ 0 := mt Text.width_eq_zero_iff.mp h.nonempty
  simp only [span]
  omega

end Excerpt

/-- The rules that a canvas keeps. -/
structure Canvas.Lawful (canvas : Canvas) : Prop where
  /-- The lines of a source end at its line feeds and nowhere else. -/
  index_eq : ∀ source, canvas.index source = Line.placed 0 (Text.linesOf source.toList)
  /-- A label on a part of one line makes a block. -/
  exists_block : ∀ (source : String) (excerpt : Excerpt) (label : Label),
    excerpt.LiesIn (canvas.index source) → label.span = excerpt.span →
      ∃ block, canvas.block? (canvas.index source) [label] = some block
  /-- The block shows the line with the part in it. -/
  shownIn_code : ∀ (source : String) (excerpt : Excerpt) (label : Label) (block : canvas.Block),
    excerpt.LiesIn (canvas.index source) → label.span = excerpt.span →
      canvas.block? (canvas.index source) [label] = some block →
        ∀ measure, excerpt.ShownIn label.style (canvas.code measure block)
  /-- Paint is put around a text. -/
  exists_paint_eq : ∀ look, ∃ front back, ∀ text, canvas.paint look text = front ++ text ++ back

/-- No line is placed before the offset from which lines are placed. -/
theorem Line.le_offset_of_mem_placed {offset : Nat} {texts : List (List Char)} {line : Line}
    (h : line ∈ placed offset texts) : offset ≤ line.offset := by
  induction texts generalizing offset with
  | nil => cases h
  | cons chars texts ih =>
    rcases List.mem_cons.mp h with rfl | hlater
    · exact Nat.le_refl offset
    · have hbehind := ih hlater
      omega

/-- Each line is placed behind the lines before it, with their line feeds. -/
theorem Line.getElem?_placed {texts : List (List Char)} {i : Nat} {chars : List Char}
    (h : texts[i]? = some chars) (offset : Nat) :
    (placed offset texts)[i]? =
      some ⟨offset + Text.width (Text.writeLines (texts.take i)), chars⟩ := by
  induction texts generalizing i offset with
  | nil => cases h
  | cons first texts ih =>
    cases i with
    | zero =>
      obtain rfl := Option.some.inj h
      rfl
    | succ i =>
      have hfeed : Text.width ['\n'] = 1 := rfl
      rw [placed, List.getElem?_cons_succ, ih h, List.take_succ_cons, Text.writeLines_cons,
        Text.width_append, Text.width_append, hfeed]
      simp only [Nat.add_assoc]

namespace Terminal

open Excerpt (LiesIn)

/-- A line that ends before the range does is passed over. -/
theorem excerpt?_cons_of_lt {span : Span} {line : Line}
    (h : line.offset + Text.width line.chars < span.past) (earlier : Nat) (lines : List Line) :
    excerpt? span earlier (line :: lines) = excerpt? span (earlier + 1) lines := by
  rw [excerpt?, if_pos h]

/-- In its own line a part is found. -/
theorem excerpt?_line (excerpt : Excerpt) (lines : List Line) :
    excerpt? excerpt.span excerpt.earlier (excerpt.line :: lines) = some excerpt := by
  obtain ⟨earlier, offset, before, marked, after⟩ := excerpt
  have hreaches : ¬offset + Text.width (before ++ marked ++ after) <
      offset + Text.width before + Text.width marked := by
    simp only [Text.width_append]
    omega
  have hbefore : offset + Text.width before - offset = Text.width before := by omega
  have hmarked : offset + Text.width before + Text.width marked - (offset + Text.width before) =
      Text.width marked := by omega
  simp only [Excerpt.span, Excerpt.line]
  rw [excerpt?, if_neg hreaches, if_pos (Nat.le_add_right _ _)]
  simp [hbefore, hmarked]

/-- Among placed lines a part of one of them is found. -/
theorem excerpt?_placed {excerpt : Excerpt} (hne : excerpt.span.first < excerpt.span.past)
    {texts : List (List Char)} {offset count i : Nat}
    (hline : (Line.placed offset texts)[i]? = some excerpt.line) (hcount : count + i = excerpt.earlier) :
    excerpt? excerpt.span count (Line.placed offset texts) = some excerpt := by
  induction texts generalizing offset count i with
  | nil => cases hline
  | cons chars texts ih =>
    rw [Line.placed] at hline ⊢
    cases i with
    | zero =>
      obtain rfl : count = excerpt.earlier := hcount
      rw [Option.some.inj hline]
      exact excerpt?_line excerpt _
    | succ i =>
      rw [List.getElem?_cons_succ] at hline
      -- The part begins behind the line feed of this line, so the line ends before the part does.
      have hbehind := Line.le_offset_of_mem_placed (List.mem_of_getElem? hline)
      have hshort : offset + Text.width chars < excerpt.span.past := by
        simp only [Excerpt.line, Excerpt.span] at hbehind hne ⊢
        omega
      rw [excerpt?_cons_of_lt hshort]
      exact ih hline (by omega)

/-- A label on a part of a line of a source makes a figure of that part. -/
theorem figure?_eq {source : String} {excerpt : Excerpt} {label : Label}
    (h : excerpt.LiesIn (index source)) (hspan : label.span = excerpt.span) :
    figure? (index source) [label] = some ⟨excerpt, label⟩ := by
  have hne := h.first_lt_past
  have hdrawn : excerpt.span.isEmpty = false := by simpa [Span.isEmpty] using hne
  have hfound := excerpt?_placed hne h.line_eq (Nat.zero_add excerpt.earlier)
  simp [figure?, hspan, hdrawn, index, hfound]

/-- The code of a figure shows its excerpt. -/
theorem Figure.shownIn_code (figure : Figure) (measure : String → Nat) :
    figure.excerpt.ShownIn figure.label.style (figure.code measure) := by
  refine ⟨figure.margin ++ " │", figure.number,
    String.join ((figure.pointer measure).map (· ++ "\n")), Numeral.counts_renderCount _, ?_⟩
  simp only [code, codeLine, String.append_assoc]
  rfl

/-- The canvas of a terminal keeps the rules. -/
theorem lawful_canvas : canvas.Lawful where
  index_eq _ := rfl
  exists_block _ excerpt label h hspan := ⟨⟨excerpt, label⟩, figure?_eq h hspan⟩
  shownIn_code source excerpt label block h hspan hblock measure := by
    obtain rfl : Figure.mk excerpt label = block :=
      Option.some.inj ((figure?_eq h hspan).symm.trans hblock)
    exact Figure.shownIn_code ⟨excerpt, label⟩ measure
  exists_paint_eq look := ⟨"\x1b[" ++ codes look ++ "m", "\x1b[0m", fun _ => rfl⟩

end Terminal

end GenomeScript
