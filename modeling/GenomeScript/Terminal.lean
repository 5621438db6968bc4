import GenomeScript.Report

/-!
# The terminal

The canvas of a terminal. Text is painted by an escape sequence in front that selects the look and
one behind that resets it; empty text is painted too. A block draws one label: the line with its
number, below it a bar under the part that is marked, and at the end of an arrow the text of the
label.
-/

namespace GenomeScript.Terminal

/-- The parameters of the escape sequence that selects a look. -/
def codes : Paint → String
  | .red => "31"
  | .green => "32"
  | .dim => "2"
  | .alarm => "1;31"

/-- Paint a text. -/
def paint (look : Paint) (text : String) : String :=
  "\x1b[" ++ codes look ++ "m" ++ text ++ "\x1b[0m"

/-- The lines of a source, divided at its line feeds. -/
def index (source : String) : List Line :=
  Line.placed 0 (Text.linesOf source.toList)

/-- The part of one of the lines that a range marks. -/
def excerpt? (span : Span) : Nat → List Line → Option Excerpt
  | _, [] => none
  | earlier, line :: lines =>
    if line.offset + Text.width line.chars < span.past then excerpt? span (earlier + 1) lines
    else if line.offset ≤ span.first then
      let (before, rest) := Text.cutAt (span.first - line.offset) line.chars
      let (marked, after) := Text.cutAt (span.past - span.first) rest
      some { earlier, offset := line.offset, before, marked, after }
    else none

/-- A label and the part of a line that it marks. -/
structure Figure where
  excerpt : Excerpt
  label : Label

/-- The figure for one label on lines. -/
def figure? (lines : List Line) : List Label → Option Figure
  | [label] =>
    if label.span.isEmpty then none
    else (excerpt? label.span 0 lines).map fun excerpt => ⟨excerpt, label⟩
  | _ => none

/-- A run of spaces. -/
def spaces (count : Nat) : String :=
  String.ofList (List.replicate count ' ')

/-- A horizontal rule. -/
def bar (count : Nat) : String :=
  String.ofList (List.replicate count '─')

namespace Figure

/-- The number of the line, as it is drawn. -/
def number (figure : Figure) : String :=
  Numeral.renderCount figure.excerpt.number

/-- What stands in front of the lines without a number. -/
def margin (figure : Figure) : String :=
  spaces figure.number.length

/-- The line that is drawn, with its number in front. -/
def codeLine (figure : Figure) : String :=
  figure.number ++ " │ " ++ String.ofList figure.excerpt.before ++
    figure.label.style (String.ofList figure.excerpt.marked) ++ String.ofList figure.excerpt.after

/-- The lines under it: a bar, a stroke, and an arrow to the text of the label. -/
def pointer (measure : String → Nat) (figure : Figure) : List String :=
  let style := figure.label.style
  let indent := measure (String.ofList figure.excerpt.before)
  let wide := measure (String.ofList figure.excerpt.marked)
  let beyond := measure (String.ofList figure.excerpt.after)
  let left := wide / 2
  let right := wide - left - 1
  let edge := figure.margin ++ " ┆ "
  [ edge ++ spaces indent ++ style (bar left ++ "┬" ++ bar right) ++ spaces beyond,
    edge ++ spaces indent ++ style (spaces left ++ "│" ++ spaces right) ++ spaces beyond,
    edge ++ spaces (indent + left) ++ style ("╰" ++ bar (right + beyond + 1)) ++ " " ++
      figure.label.text ]

/-- The labelled line of a figure. -/
def code (measure : String → Nat) (figure : Figure) : String :=
  figure.margin ++ " │\n" ++ figure.codeLine ++ "\n" ++
    String.join ((figure.pointer measure).map (· ++ "\n"))

end Figure

/-- The canvas of a terminal. -/
def canvas : Canvas where
  paint := paint
  index := index
  Block := Figure
  block? := figure?
  prologue figure := figure.margin ++ " ╭─"
  code := Figure.code
  epilogue figure := bar (figure.number.length + 1) ++ "╯"

end GenomeScript.Terminal
