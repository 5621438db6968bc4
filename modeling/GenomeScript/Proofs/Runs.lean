import Mathlib.Data.List.DropRight
import GenomeScript.Proofs.Words

/-!
# Tokens are runs

A run of a text is a stretch of solid characters that no solid character continues on either
side. The tokens of a source are its runs, each placed by the line endings and the bytes that
come before it. So a token can be cut out of the bytes of the source at its range, tokens stand
in the order of the source with something between each two, and every character that belongs
to no token is blank.

Scanning is followed step by step: a blank at the front is a blank in front of every run, and a
solid character at the front opens the first run, behind which all others stand.
-/

namespace GenomeScript.Token

open GenomeScript.Text

/-- The number of line endings in a text; a carriage return with a line feed is one of them. -/
def lineEndings : List Char → Nat
  | [] => 0
  | '\r' :: '\n' :: cs => 1 + lineEndings cs
  | '\r' :: cs => 1 + lineEndings cs
  | '\n' :: cs => 1 + lineEndings cs
  | _ :: cs => lineEndings cs

@[simp] theorem lineEndings_nil : lineEndings [] = 0 := rfl

/-- The first character ends a line or not by what follows it. -/
theorem lineEndings_cons (c : Char) (cs : List Char) :
    lineEndings (c :: cs) = lineEnds c cs + lineEndings cs := by
  by_cases hreturn : c = '\r'
  · subst hreturn
    cases cs with
    | nil => rfl
    | cons d cs =>
      by_cases hfeed : d = '\n'
      · subst hfeed
        simp [lineEndings, lineEnds]
      · simp [lineEndings, lineEnds, hfeed]
  · by_cases hfeed : c = '\n'
    · subst hfeed
      simp [lineEndings, lineEnds]
    · simp [lineEndings, lineEnds, hreturn, hfeed]

/-- Only the next character matters to whether a line ends. -/
theorem lineEnds_congr (c : Char) {xs ys : List Char} (h : xs.head? = ys.head?) :
    lineEnds c xs = lineEnds c ys := by
  rw [lineEnds, lineEnds, h]

/-- Only a carriage return depends on what follows it. -/
theorem lineEnds_of_ne_return {c : Char} (h : c ≠ '\r') (xs ys : List Char) :
    lineEnds c xs = lineEnds c ys := by
  simp [lineEnds, h]

/-- What stands behind a text changes none of its line endings, unless it is a line feed. -/
theorem lineEnds_append (c : Char) (xs : List Char) {ys : List Char} (h : ys.head? ≠ some '\n') :
    lineEnds c (xs ++ ys) = lineEnds c xs := by
  cases xs with
  | nil => simp [lineEnds, h]
  | cons d xs => exact lineEnds_congr c rfl

/-- No line ends at a solid character. -/
theorem lineEnds_of_not_isBlank {c : Char} (cs : List Char) (h : isBlank c = false) :
    lineEnds c cs = 0 := by
  have hfeed : c ≠ '\n' := by rintro rfl; exact absurd h (by decide)
  have hreturn : c ≠ '\r' := by rintro rfl; exact absurd h (by decide)
  simp [lineEnds, hfeed, hreturn]

/-- No line ends inside a word. -/
theorem lineEndings_append_of_solid {word : List Char} (h : ∀ c ∈ word, isBlank c = false)
    (cs : List Char) : lineEndings (word ++ cs) = lineEndings cs := by
  induction word with
  | nil => rfl
  | cons c word ih =>
    rw [List.cons_append, lineEndings_cons, lineEnds_of_not_isBlank _ (h c (by simp)),
      ih fun d hd => h d (by simp [hd]), Nat.zero_add]

/-- A stretch of solid characters of a text that is not part of a longer one. -/
structure Run (cs : List Char) where
  before : List Char
  word : List Char
  after : List Char
  parts : before ++ word ++ after = cs
  nonempty : word ≠ []
  solid : ∀ c ∈ word, isBlank c = false
  opens : ∀ c ∈ before.getLast?, isBlank c = true
  closes : ∀ c ∈ after.head?, isBlank c = true

namespace Run

variable {cs : List Char}

/-- The text of a run. -/
def text (run : Run cs) : String := String.ofList run.word

/-- The bytes of a run in a text that begins at the given offset. -/
def spanFrom (offset : Nat) (run : Run cs) : Span :=
  ⟨offset + width run.before, offset + width run.before + width run.word⟩

/-- A run as a token of a text that begins on the given line at the given offset. -/
def tokenFrom (line offset : Nat) (run : Run cs) : Token :=
  { text := run.text, line := line + lineEndings run.before, span := run.spanFrom offset }

/-- A run has a first character, which is solid. -/
theorem exists_word_eq_cons (run : Run cs) :
    ∃ c rest, run.word = c :: rest ∧ isBlank c = false := by
  obtain ⟨c, rest, hword⟩ := List.exists_cons_of_ne_nil run.nonempty
  exact ⟨c, rest, hword, run.solid c (by simp [hword])⟩

/-- No line feed stands right behind what comes before a run. -/
theorem head?_word_append (run : Run cs) : (run.word ++ run.after).head? ≠ some '\n' := by
  obtain ⟨c, rest, hword, hc⟩ := run.exists_word_eq_cons
  rw [hword, List.cons_append, List.head?_cons, Ne, Option.some.injEq]
  intro hfeed
  rw [hfeed] at hc
  exact absurd hc (by decide)

/-- A run behind a blank. -/
def behindBlank (run : Run cs) {c : Char} (h : isBlank c = true) : Run (c :: cs) where
  before := c :: run.before
  word := run.word
  after := run.after
  parts := by simp [← run.parts]
  nonempty := run.nonempty
  solid := run.solid
  opens := by
    intro d hd
    rw [List.getLast?_cons, Option.mem_some_iff] at hd
    cases hlast : run.before.getLast? with
    | none => rw [← hd, hlast]; exact h
    | some e => rw [← hd, hlast]; exact run.opens e hlast
  closes := run.closes

/-- Behind a blank, a run stands one character later, on the next line if the blank ends one. -/
theorem tokenFrom_behindBlank (run : Run cs) {c : Char} (h : isBlank c = true) (line offset : Nat) :
    (run.behindBlank h).tokenFrom line offset =
      run.tokenFrom (line + lineEnds c cs) (offset + c.utf8Size) := by
  have hnext := lineEnds_append c run.before run.head?_word_append
  rw [← List.append_assoc, run.parts] at hnext
  simp only [tokenFrom, text, spanFrom, behindBlank, lineEndings_cons, width_cons, hnext,
    Nat.add_assoc]

/-- With a blank at the front, every run stands behind it. -/
theorem exists_eq_behindBlank {c : Char} (h : isBlank c = true) (run : Run (c :: cs)) :
    ∃ later : Run cs, run = later.behindBlank h := by
  obtain ⟨before, word, after, parts, nonempty, solid, opens, closes⟩ := run
  cases before with
  | nil =>
    obtain ⟨d, rest, rfl⟩ := List.exists_cons_of_ne_nil nonempty
    obtain ⟨rfl, -⟩ := List.cons.inj parts
    exact absurd (solid d (by simp)) (by simp [h])
  | cons d before =>
    obtain ⟨rfl, rfl⟩ := List.cons.inj parts
    refine ⟨⟨before, word, after, rfl, nonempty, solid, ?_, closes⟩, rfl⟩
    intro e he
    exact opens e (by simp_all [List.getLast?_cons])

/-- What follows a run of solid characters begins with a blank. -/
theorem isBlank_of_mem_head?_dropWhile {c : Char} (hc : c ∈ (cs.dropWhile isSolid).head?) :
    isBlank c = true := by
  have hnot := List.head?_dropWhile_not isSolid cs
  rw [Option.mem_def.mp hc] at hnot
  simpa [isSolid] using hnot

/-- The characters taken into a word are solid. -/
theorem isBlank_of_mem_takeWhile {c : Char} (hc : c ∈ cs.takeWhile isSolid) : isBlank c = false := by
  simpa [isSolid] using List.mem_takeWhile_imp hc

/-- The characters of a word are solid if its first one is. -/
theorem isBlank_of_mem_word {c d : Char} (h : isBlank c = false)
    (hd : d ∈ c :: cs.takeWhile isSolid) : isBlank d = false := by
  rcases List.mem_cons.mp hd with rfl | hd
  · exact h
  · exact isBlank_of_mem_takeWhile hd

/-- The run that a solid character at the front opens. -/
def first (c : Char) (cs : List Char) (h : isBlank c = false) : Run (c :: cs) where
  before := []
  word := c :: cs.takeWhile isSolid
  after := cs.dropWhile isSolid
  parts := by simp
  nonempty := by simp
  solid := fun _ => isBlank_of_mem_word h
  opens := by simp
  closes := fun _ => isBlank_of_mem_head?_dropWhile

/-- After a word a run has a blank before it. -/
theorem before_ne_nil (run : Run (cs.dropWhile isSolid)) : run.before ≠ [] := by
  intro hnil
  obtain ⟨c, rest, hword, hc⟩ := run.exists_word_eq_cons
  have hhead : c ∈ (cs.dropWhile isSolid).head? := by
    rw [← run.parts, hnil, hword]
    rfl
  exact absurd (isBlank_of_mem_head?_dropWhile hhead) (by simp [hc])

/-- A run behind the first one. -/
def behindFirst (c : Char) (run : Run (cs.dropWhile isSolid)) : Run (c :: cs) where
  before := c :: cs.takeWhile isSolid ++ run.before
  word := run.word
  after := run.after
  parts := by
    have hparts : run.before ++ (run.word ++ run.after) = cs.dropWhile isSolid := by
      rw [← List.append_assoc, run.parts]
    simp [hparts]
  nonempty := run.nonempty
  solid := run.solid
  opens := by
    intro d hd
    rw [List.getLast?_append_of_ne_nil _ run.before_ne_nil] at hd
    exact run.opens d hd
  closes := run.closes

/-- Behind the first run, a run stands on the line and at the offset where the first one ends. -/
theorem tokenFrom_behindFirst {c : Char} (h : isBlank c = false) (run : Run (cs.dropWhile isSolid))
    (line offset : Nat) :
    (run.behindFirst c).tokenFrom line offset =
      run.tokenFrom line (offset + width (c :: cs.takeWhile isSolid)) := by
  simp only [tokenFrom, text, spanFrom, behindFirst,
    lineEndings_append_of_solid fun _ => isBlank_of_mem_word h, width_append, Nat.add_assoc]

/-- With a solid character at the front, every run is the first one or stands behind it. -/
theorem eq_first_or_exists_eq_behindFirst {c : Char} (h : isBlank c = false) (run : Run (c :: cs)) :
    run = first c cs h ∨ ∃ later : Run (cs.dropWhile isSolid), run = later.behindFirst c := by
  obtain ⟨before, word, after, parts, nonempty, solid, opens, closes⟩ := run
  cases before with
  | nil =>
    left
    obtain ⟨d, rest, rfl⟩ := List.exists_cons_of_ne_nil nonempty
    obtain ⟨rfl, rfl⟩ := List.cons.inj parts
    have hrest : ∀ e ∈ rest, isSolid e = true := fun e he => by simp [isSolid, solid e (by simp [he])]
    have hafter : after.takeWhile isSolid = [] ∧ after.dropWhile isSolid = after := by
      cases after with
      | nil => exact ⟨rfl, rfl⟩
      | cons e after => simp [isSolid, closes e rfl]
    simp [first, List.takeWhile_append_of_pos hrest, List.dropWhile_append_of_pos hrest, hafter]
  | cons d before =>
    right
    obtain ⟨rfl, hparts⟩ := List.cons.inj parts
    -- The blank right before the run lies behind the first word.
    rcases List.eq_nil_or_concat before with rfl | ⟨front, b, rfl⟩
    · exact absurd (opens d rfl) (by simp [h])
    · have hb : isBlank b = true := opens b (by simp [List.getLast?_cons])
      obtain ⟨htake, hdrop⟩ := takeWhile_isSolid_append front (word ++ after) hb
      obtain rfl : front ++ b :: (word ++ after) = cs := by simpa using hparts
      refine ⟨⟨front.dropWhile isSolid ++ [b], word, after, ?_, nonempty, solid, ?_, closes⟩, ?_⟩
      · simp [hdrop]
      · simpa using hb
      · have hfront : front.takeWhile isSolid ++ (front.dropWhile isSolid ++ [b]) = front ++ [b] := by
          rw [← List.append_assoc, List.takeWhile_append_dropWhile]
        simp [behindFirst, htake, hfront]

/-- Every solid character lies in a run. -/
theorem exists_mem_of_not_isBlank (xs ys : List Char) {c : Char} (h : isBlank c = false) :
    ∃ run : Run (xs ++ c :: ys), width run.before ≤ width xs ∧
      width xs < width run.before + width run.word := by
  have hxs : xs.rdropWhile isSolid ++ xs.rtakeWhile isSolid = xs := List.rdropWhile_append_rtakeWhile
  have hwidth := congrArg width hxs
  rw [width_append] at hwidth
  have hpos := Char.utf8Size_pos c
  refine ⟨⟨xs.rdropWhile isSolid, xs.rtakeWhile isSolid ++ c :: ys.takeWhile isSolid,
    ys.dropWhile isSolid, ?_, by simp, ?_, ?_, fun _ => isBlank_of_mem_head?_dropWhile⟩, ?_, ?_⟩
  · have hparts : xs.rdropWhile isSolid ++ (xs.rtakeWhile isSolid ++ c :: ys) = xs ++ c :: ys := by
      rw [← List.append_assoc, hxs]
    simpa using hparts
  · intro d hd
    rcases List.mem_append.mp hd with hd | hd
    · simpa [isSolid] using List.mem_rtakeWhile_imp hd
    · exact isBlank_of_mem_word h hd
  · intro d hd
    obtain ⟨hne, rfl⟩ := List.mem_getLast?_eq_getLast hd
    simpa [isSolid] using List.rdropWhile_last_not isSolid xs hne
  · simp only
    omega
  · simp only [width_append, width_cons]
    omega

end Run

/-- The tokens of a text are its runs. -/
theorem mem_scanFrom_iff {line offset : Nat} {cs : List Char} {token : Token} :
    token ∈ scanFrom line offset cs ↔ ∃ run : Run cs, run.tokenFrom line offset = token := by
  fun_induction scanFrom line offset cs with
  | case1 line offset =>
    refine iff_of_false (by simp) ?_
    rintro ⟨run, -⟩
    have hparts := run.parts
    simp [run.nonempty] at hparts
  | case2 line offset c cs hblank ih =>
    rw [ih]
    constructor
    · rintro ⟨run, rfl⟩
      exact ⟨run.behindBlank hblank, run.tokenFrom_behindBlank hblank line offset⟩
    · rintro ⟨run, rfl⟩
      obtain ⟨later, rfl⟩ := run.exists_eq_behindBlank hblank
      exact ⟨later, (later.tokenFrom_behindBlank hblank line offset).symm⟩
  | case3 line offset c cs hsolid word past ih =>
    have hc : isBlank c = false := by simpa using hsolid
    have hfirst : (Run.first c cs hc).tokenFrom line offset =
        { text := String.ofList word, line, span := ⟨offset, past⟩ } := by
      simp [Run.tokenFrom, Run.text, Run.spanFrom, Run.first, word, past]
    rw [List.mem_cons, ih]
    constructor
    · rintro (rfl | ⟨run, rfl⟩)
      · exact ⟨Run.first c cs hc, hfirst⟩
      · exact ⟨run.behindFirst c, run.tokenFrom_behindFirst hc line offset⟩
    · rintro ⟨run, rfl⟩
      rcases run.eq_first_or_exists_eq_behindFirst hc with rfl | ⟨later, rfl⟩
      · exact .inl hfirst
      · exact .inr ⟨later, (later.tokenFrom_behindFirst hc line offset).symm⟩

/-- Tokens stand in order, and no two of them touch. -/
theorem pairwise_scanFrom (line offset : Nat) (cs : List Char) :
    (scanFrom line offset cs).Pairwise fun earlier later => earlier.span.past < later.span.first := by
  fun_induction scanFrom line offset cs with
  | case1 => exact List.Pairwise.nil
  | case2 line offset c cs hblank ih => exact ih
  | case3 line offset c cs hsolid word past ih =>
    refine List.Pairwise.cons ?_ ih
    intro later hlater
    obtain ⟨run, rfl⟩ := mem_scanFrom_iff.mp hlater
    have hgap : width run.before ≠ 0 := fun h => run.before_ne_nil (width_eq_zero_iff.mp h)
    simp only [Run.tokenFrom, Run.spanFrom]
    omega

/-- The range of a token cuts its text out of the bytes of a source, between whole characters. -/
structure CutsOut (source : String) (token : Token) : Prop where
  nonempty : token.span.first < token.span.past
  first_valid : String.Pos.Raw.IsValid source ⟨token.span.first⟩
  past_valid : String.Pos.Raw.IsValid source ⟨token.span.past⟩
  bytes : source.toByteArray.extract token.span.first token.span.past = token.text.toByteArray
  solid : ∀ c ∈ token.text.toList, isBlank c = false

/-- The sizes of what stands before a part and of the part find its bytes. -/
theorem toByteArray_extract_append (before text after : String) :
    (before ++ text ++ after).toByteArray.extract before.utf8ByteSize
      (before.utf8ByteSize + text.utf8ByteSize) = text.toByteArray := by
  rw [String.append_assoc, String.toByteArray_append, String.toByteArray_append,
    ← String.size_toByteArray, ← String.size_toByteArray]
  have hskip := @ByteArray.extract_append_size_add before.toByteArray
    (text.toByteArray ++ after.toByteArray) 0 text.toByteArray.size
  rw [Nat.add_zero] at hskip
  rw [hskip, ByteArray.extract_append_eq_left rfl]

/-- The text before a run, the run and the text after it are the source. -/
theorem Run.source_eq {source : String} (run : Run source.toList) :
    source = String.ofList run.before ++ run.text ++ String.ofList run.after := by
  rw [← String.toList_inj]
  simp [Run.text, run.parts]

/-- The token of a run is cut out by its range. -/
theorem Run.cutsOut {source : String} (run : Run source.toList) :
    CutsOut source (run.tokenFrom 1 0) := by
  have hspan : (run.tokenFrom 1 0).span = ⟨(String.ofList run.before).utf8ByteSize,
      (String.ofList run.before).utf8ByteSize + run.text.utf8ByteSize⟩ := by
    simp [tokenFrom, spanFrom, text, utf8ByteSize_ofList]
  have hword : 0 < width run.word :=
    Nat.pos_of_ne_zero fun h => run.nonempty (width_eq_zero_iff.mp h)
  have hbytes := toByteArray_extract_append (String.ofList run.before) run.text (String.ofList run.after)
  rw [← run.source_eq] at hbytes
  constructor
  · simp only [tokenFrom, spanFrom]
    omega
  · rw [hspan]
    exact String.Pos.Raw.isValid_iff_exists_append.mpr
      ⟨String.ofList run.before, run.text ++ String.ofList run.after,
        run.source_eq.trans String.append_assoc, rfl⟩
  · rw [hspan]
    exact String.Pos.Raw.isValid_iff_exists_append.mpr
      ⟨String.ofList run.before ++ run.text, String.ofList run.after, run.source_eq,
        String.Pos.Raw.ext String.utf8ByteSize_append.symm⟩
  · rw [hspan]
    exact hbytes
  · simpa [tokenFrom, text] using run.solid

/-- The tokens of a source are the runs of its characters. -/
theorem mem_scan_iff {source : String} {token : Token} :
    token ∈ scan source ↔ ∃ run : Run source.toList, run.tokenFrom 1 0 = token :=
  mem_scanFrom_iff

/-- Every token is cut out of its source. -/
theorem cutsOut_of_mem_scan {source : String} {token : Token} (h : token ∈ scan source) :
    CutsOut source token := by
  obtain ⟨run, rfl⟩ := mem_scan_iff.mp h
  exact run.cutsOut

/-- Every solid character of a source belongs to a token. -/
theorem exists_mem_scan_of_not_isBlank {before after : String} {c : Char} (h : isBlank c = false) :
    ∃ token ∈ scan (before ++ String.singleton c ++ after),
      token.span.first ≤ before.utf8ByteSize ∧ before.utf8ByteSize < token.span.past := by
  have hcs : (before ++ String.singleton c ++ after).toList = before.toList ++ c :: after.toList := by
    simp
  obtain ⟨run, hfirst, hpast⟩ := Run.exists_mem_of_not_isBlank before.toList after.toList h
  refine ⟨run.tokenFrom 1 0, ?_, ?_, ?_⟩
  · rw [scan, hcs]
    exact mem_scanFrom_iff.mpr ⟨run, rfl⟩
  · simpa [Run.tokenFrom, Run.spanFrom, width_toList] using hfirst
  · simpa [Run.tokenFrom, Run.spanFrom, width_toList] using hpast

/-- The tokens of a source are its runs, each cut out by its range, in order and apart from each
other; and what belongs to no token is blank. -/
theorem scan_lists_maximal_runs (source : String) :
    (∀ token, token ∈ scan source ↔ ∃ run : Run source.toList, run.tokenFrom 1 0 = token) ∧
      (∀ token ∈ scan source, CutsOut source token) ∧
      ((scan source).Pairwise fun earlier later => earlier.span.past < later.span.first) ∧
      ∀ (before after : String) (c : Char), source = before ++ String.singleton c ++ after →
        (∀ token ∈ scan source, before.utf8ByteSize < token.span.first ∨
          token.span.past ≤ before.utf8ByteSize) → isBlank c = true := by
  refine ⟨fun token => mem_scan_iff, fun token => cutsOut_of_mem_scan, pairwise_scanFrom 1 0 _, ?_⟩
  intro before after c hsource houtside
  by_contra hc
  subst hsource
  obtain ⟨token, hmem, hfirst, hpast⟩ := exists_mem_scan_of_not_isBlank (by simpa using hc)
  have hapart := houtside token hmem
  omega

/-- Bytes are counted where characters are wide, and the wide blank belongs to no token. -/
theorem scan_lists_maximal_runs_wide :
    scan "αβ\u2003\r\n7é x" =
        [⟨"αβ", 1, ⟨0, 4⟩⟩, ⟨"7é", 2, ⟨9, 12⟩⟩, ⟨"x", 2, ⟨13, 14⟩⟩] ∧
      CutsOut "αβ\u2003\r\n7é x" ⟨"7é", 2, ⟨9, 12⟩⟩ ∧ isBlank '\u2003' = true := by
  have hscan : scan "αβ\u2003\r\n7é x" =
      [⟨"αβ", 1, ⟨0, 4⟩⟩, ⟨"7é", 2, ⟨9, 12⟩⟩, ⟨"x", 2, ⟨13, 14⟩⟩] := by decide +kernel
  obtain ⟨_, hcuts, _, hblank⟩ := scan_lists_maximal_runs "αβ\u2003\r\n7é x"
  refine ⟨hscan, hcuts _ (by simp [hscan]), hblank "αβ" "\r\n7é x" '\u2003' (by decide) ?_⟩
  rw [hscan]
  decide

end GenomeScript.Token
