import Mathlib.Data.List.Induction
import Mathlib.Data.List.TakeWhile
import GenomeScript.Text

/-!
# Lines of a text

A text is divided into lines at its line feeds; what follows the last line feed is a line too,
possibly an empty one. Lines written out one after the other, each ended by a line feed, are found
again in front of the lines of whatever follows them. Seen from any place in a text, the complete
lines before it, the line that it lies in and the lines after it are the lines of the text.
-/

namespace GenomeScript.Text

/-- The characters up to the first line feed. -/
def firstLine (cs : List Char) : List Char :=
  cs.takeWhile (· != '\n')

/-- The characters behind the last line feed. -/
def lastLine (cs : List Char) : List Char :=
  (firstLine cs.reverse).reverse

/-- Lines written out, each ended by a line feed. -/
def writeLines (lines : List (List Char)) : List Char :=
  lines.flatMap (· ++ ['\n'])

/-- The first line is written before the others. -/
theorem writeLines_cons (line : List Char) (lines : List (List Char)) :
    writeLines (line :: lines) = line ++ ['\n'] ++ writeLines lines := by
  rw [writeLines, List.flatMap_cons, writeLines]

/-- A text without a line feed is one line. -/
theorem linesOf_of_not_mem {line : List Char} (h : '\n' ∉ line) : linesOf line = [line] :=
  List.splitOn_eq_singleton h

/-- A line feed divides the lines before it from those behind it. -/
theorem linesOf_append_feed (xs ys : List Char) :
    linesOf (xs ++ '\n' :: ys) = linesOf xs ++ linesOf ys :=
  List.splitOnP_append_cons xs ys (by decide)

/-- Lines that are written out come before the lines of what follows. -/
theorem linesOf_writeLines_append {lines : List (List Char)} (h : ∀ line ∈ lines, '\n' ∉ line)
    (rest : List Char) : linesOf (writeLines lines ++ rest) = lines ++ linesOf rest := by
  induction lines with
  | nil => rfl
  | cons line lines ih =>
    have hwritten : writeLines (line :: lines) ++ rest = line ++ '\n' :: (writeLines lines ++ rest) := by
      simp [writeLines_cons]
    rw [hwritten, linesOf_append_feed, linesOf_of_not_mem (h line List.mem_cons_self),
      ih fun other hother => h other (List.mem_cons_of_mem _ hother)]
    rfl

/-- The first line of a text holds no line feed. -/
theorem feed_not_mem_firstLine (cs : List Char) : '\n' ∉ firstLine cs := by
  intro hmem
  have hnot := List.mem_takeWhile_imp hmem
  simp at hnot

/-- What stands before a text in its first line is part of that line. -/
theorem exists_linesOf_append {front : List Char} (h : '\n' ∉ front) (cs : List Char) :
    ∃ later, linesOf (front ++ cs) = (front ++ firstLine cs) :: later := by
  have hline : '\n' ∉ front ++ firstLine cs := by
    simp [h, feed_not_mem_firstLine cs]
  have hparts : firstLine cs ++ cs.dropWhile (· != '\n') = cs := List.takeWhile_append_dropWhile
  cases hrest : cs.dropWhile (· != '\n') with
  | nil =>
    rw [hrest, List.append_nil] at hparts
    rw [hparts] at hline ⊢
    exact ⟨[], linesOf_of_not_mem hline⟩
  | cons c rest =>
    have hhead := List.head?_dropWhile_not (· != '\n') cs
    rw [hrest] at hhead hparts
    obtain rfl : c = '\n' := by simpa using hhead
    refine ⟨linesOf rest, ?_⟩
    rw [← hparts, ← List.append_assoc, linesOf_append_feed, hparts, linesOf_of_not_mem hline]
    rfl

/-- The last line of a text holds no line feed. -/
theorem feed_not_mem_lastLine (cs : List Char) : '\n' ∉ lastLine cs := by
  intro hmem
  exact feed_not_mem_firstLine cs.reverse (List.mem_reverse.mp hmem)

/-- The last line of a text ends with the text, and a line feed begins a new one. -/
theorem lastLine_append_singleton (cs : List Char) (c : Char) :
    lastLine (cs ++ [c]) = if c = '\n' then [] else lastLine cs ++ [c] := by
  by_cases h : c = '\n' <;> simp [lastLine, firstLine, h]

/-- A text is its complete lines, as many as it has line feeds, and its last line. -/
theorem exists_writeLines_append_lastLine (cs : List Char) :
    ∃ lines, cs = writeLines lines ++ lastLine cs ∧ (∀ line ∈ lines, '\n' ∉ line) ∧
      lines.length = cs.count '\n' := by
  induction cs using List.reverseRecOn with
  | nil => exact ⟨[], rfl, by simp, rfl⟩
  | append_singleton cs c ih =>
    obtain ⟨lines, hcs, hlines, hcount⟩ := ih
    rw [lastLine_append_singleton]
    by_cases hc : c = '\n'
    · refine ⟨lines ++ [lastLine cs], ?_, ?_, ?_⟩
      · have hwritten : writeLines (lines ++ [lastLine cs]) = writeLines lines ++ lastLine cs ++ ['\n'] := by
          simp [writeLines]
        rw [hwritten, ← hcs, if_pos hc, hc, List.append_nil]
      · intro line hline
        rcases List.mem_append.mp hline with hold | hnew
        · exact hlines line hold
        · rw [List.mem_singleton.mp hnew]
          exact feed_not_mem_lastLine cs
      · simp [hcount, hc]
    · refine ⟨lines, ?_, hlines, ?_⟩
      · rw [if_neg hc, ← List.append_assoc, ← hcs]
      · simp [hcount, hc]

/-- A part of a text without a line feed lies in one line, which is the end of the text before it,
the part and the beginning of the text after it. As many lines come before that one as line feeds
come before the part. -/
theorem exists_linesOf_around (before after : List Char) {part : List Char} (h : '\n' ∉ part) :
    ∃ earlier later,
      linesOf (before ++ part ++ after) =
        earlier ++ (lastLine before ++ part ++ firstLine after) :: later ∧
      earlier.length = before.count '\n' ∧
      width before = width (writeLines earlier) + width (lastLine before) := by
  obtain ⟨earlier, hbefore, hearlier, hcount⟩ := exists_writeLines_append_lastLine before
  have hfront : '\n' ∉ lastLine before ++ part := by
    simp [feed_not_mem_lastLine before, h]
  obtain ⟨later, hlater⟩ := exists_linesOf_append hfront after
  refine ⟨earlier, later, ?_, hcount, ?_⟩
  · calc linesOf (before ++ part ++ after)
        = linesOf (writeLines earlier ++ (lastLine before ++ part ++ after)) := by
          rw [List.append_assoc (lastLine before), ← List.append_assoc (writeLines earlier), ← hbefore,
            List.append_assoc]
      _ = earlier ++ linesOf (lastLine before ++ part ++ after) := linesOf_writeLines_append hearlier _
      _ = earlier ++ (lastLine before ++ part ++ firstLine after) :: later := by rw [hlater]
  · rw [← width_append, ← hbefore]

end GenomeScript.Text
