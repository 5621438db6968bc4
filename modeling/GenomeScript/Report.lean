import GenomeScript.Reading

/-!
# Reports

A report tells a failure in one line. If the blamed token stands in the source, a block follows that
draws the line of the source with the token marked and the fault beside it.

How text is painted and how a block is drawn is not settled here. A canvas stands for both: it paints
texts, divides a source into lines, and makes a block out of labels on ranges of the source, or none
if the labels cannot be drawn. A report uses a canvas and nothing else, so what a report shows holds
of every canvas that keeps the rules of drawing.
-/

namespace GenomeScript

/-- How painted text looks. -/
inductive Paint where
  | red
  | green
  | dim
  | alarm
deriving DecidableEq, Repr

/-- A line of a source: the byte offset at which it begins, and its characters. -/
structure Line where
  offset : Nat
  chars : List Char
deriving DecidableEq, Repr

/-- A range of a source, the text that stands beside it, and the style of what is marked. -/
structure Label where
  span : Span
  text : String
  style : String → String

/-- What texts are painted and blocks are drawn with. -/
structure Canvas where
  /-- Paint a text. -/
  paint : Paint → String → String
  /-- The lines of a source. -/
  index : String → List Line
  /-- What is drawn for labels on lines. -/
  Block : Type
  /-- The block for labels on lines, unless they cannot be drawn. -/
  block? : List Line → List Label → Option Block
  /-- What opens a block. -/
  prologue : Block → String
  /-- The labelled lines of a block, given how wide a piece of a line is. -/
  code : (String → Nat) → Block → String
  /-- What closes a block. -/
  epilogue : Block → String

namespace Diagnostic

/-- The line that tells a failure. -/
def headline (canvas : Canvas) (failure : Failure) : String :=
  canvas.paint .alarm "error:" ++ " " ++ failure.message ++ "\n"

/-- The label on the blamed token, with the fault beside it. -/
def label (canvas : Canvas) (failure : Failure) : Label where
  span := failure.blamed.span
  text := canvas.paint .red failure.fault.message
  style := canvas.paint .red

/-- The block for a failure, unless it cannot be drawn. -/
def block? (canvas : Canvas) (lines : List Line) (failure : Failure) : Option canvas.Block :=
  canvas.block? lines [label canvas failure]

/-- A block written out; `origin` names the source. Pieces of a line are as wide as their bytes. -/
def drawing (canvas : Canvas) (origin : String) (block : canvas.Block) : String :=
  canvas.prologue block ++ "[" ++ origin ++ "]\n" ++ canvas.code String.utf8ByteSize block ++
    canvas.epilogue block ++ "\n"

/-- The report of a failure to read a source. -/
def report (canvas : Canvas) (source origin : String) (failure : Failure) : String :=
  headline canvas failure ++
    if failure.blamed.span.isEmpty then ""
    else
      match block? canvas (canvas.index source) failure with
      | some block => drawing canvas origin block
      | none => ""

end Diagnostic

/-! ## Places on lines -/

/-- Lines one after the other from an offset on, with a line feed between them. -/
def Line.placed : Nat → List (List Char) → List Line
  | _, [] => []
  | offset, chars :: others => ⟨offset, chars⟩ :: placed (offset + Text.width chars + 1) others

/-- A part of a line: how many lines come before the line, where the line begins, and what stands in
it before the part, in the part and after the part. -/
structure Excerpt where
  earlier : Nat
  offset : Nat
  before : List Char
  marked : List Char
  after : List Char
deriving DecidableEq, Repr

/-- The number of the line, counted from one. -/
def Excerpt.number (excerpt : Excerpt) : Nat := excerpt.earlier + 1

end GenomeScript
