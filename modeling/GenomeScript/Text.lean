/-!
# Text

Texts are lists of characters. Blanks separate the tokens of a script and pad names and numerals
typed by hand; they are the characters with the Unicode property `White_Space`, given here as a
table of ranges. Positions in a script are offsets into its UTF-8 form, in which a character is one
to four bytes wide. A text can be divided at the first occurrence of a mark, and into its lines.
-/

namespace GenomeScript.Text

/-! ## Blanks -/

/-- The code point ranges of the blank characters, in increasing order, both ends included. -/
def blankRanges : List (Nat × Nat) :=
  [(0x0009, 0x000D), (0x0020, 0x0020), (0x0085, 0x0085), (0x00A0, 0x00A0), (0x1680, 0x1680),
    (0x2000, 0x200A), (0x2028, 0x2029), (0x202F, 0x202F), (0x205F, 0x205F), (0x3000, 0x3000)]

/-- A character is blank when its code point lies in one of the ranges. -/
def isBlank (c : Char) : Bool :=
  blankRanges.any fun range => range.1 ≤ c.toNat && c.toNat ≤ range.2

/-- The characters from the first one that is not blank. -/
def trimStart (cs : List Char) : List Char :=
  cs.dropWhile isBlank

/-- The characters up to the last one that is not blank. -/
def trimEnd (cs : List Char) : List Char :=
  (trimStart cs.reverse).reverse

/-- The characters between the blanks at both ends. -/
def trim (cs : List Char) : List Char :=
  trimEnd (trimStart cs)

/-- A text without the blanks at both ends. -/
def trimmed (text : String) : String :=
  String.ofList (trim text.toList)

/-- The ranges stand in increasing order and hold twenty-five characters. -/
example : (blankRanges.map fun range => range.2 + 1 - range.1).sum = 25 ∧
    blankRanges.Pairwise (fun a b => a.2 < b.1) := by decide

/-- Trimming a text that starts with no blank leaves its start alone. -/
theorem trimStart_cons_of_not_isBlank {c : Char} (cs : List Char) (h : isBlank c = false) :
    trimStart (c :: cs) = c :: cs := by
  simp [trimStart, h]

/-- A leading blank is dropped. -/
theorem trimStart_cons_of_isBlank {c : Char} (cs : List Char) (h : isBlank c = true) :
    trimStart (c :: cs) = trimStart cs := by
  simp [trimStart, h]

/-- Leading blanks are dropped together. -/
theorem trimStart_append_of_blank (blanks cs : List Char) (h : ∀ c ∈ blanks, isBlank c = true) :
    trimStart (blanks ++ cs) = trimStart cs := by
  induction blanks with
  | nil => rfl
  | cons c blanks ih =>
    rw [List.cons_append, trimStart_cons_of_isBlank _ (h c (by simp))]
    exact ih fun d hd => h d (by simp [hd])

/-- Trailing blanks are dropped together. -/
theorem trimEnd_append_of_blank (cs blanks : List Char) (h : ∀ c ∈ blanks, isBlank c = true) :
    trimEnd (cs ++ blanks) = trimEnd cs := by
  simp only [trimEnd, List.reverse_append]
  rw [trimStart_append_of_blank _ _ fun c hc => h c (by simpa using hc)]

/-! ## Widths in bytes -/

/-- The number of bytes of the UTF-8 form. -/
def width : List Char → Nat
  | [] => 0
  | c :: cs => c.utf8Size + width cs

/-- Cut a text where its first `n` bytes end. -/
def cutAt : Nat → List Char → List Char × List Char
  | 0, cs => ([], cs)
  | _ + 1, [] => ([], [])
  | n + 1, c :: cs =>
    let (before, after) := cutAt (n + 1 - c.utf8Size) cs
    (c :: before, after)

@[simp] theorem width_nil : width [] = 0 := rfl

@[simp] theorem width_cons (c : Char) (cs : List Char) :
    width (c :: cs) = c.utf8Size + width cs := rfl

/-- Widths add up. -/
@[simp] theorem width_append (xs ys : List Char) : width (xs ++ ys) = width xs + width ys := by
  induction xs with
  | nil => simp
  | cons c xs ih => simp [ih, Nat.add_assoc]

/-- Only the empty text has no width. -/
theorem width_eq_zero_iff {cs : List Char} : width cs = 0 ↔ cs = [] := by
  cases cs with
  | nil => simp
  | cons c cs =>
    have := Char.utf8Size_pos c
    simp only [width_cons, reduceCtorEq, iff_false]
    omega

/-- The width is the size of the string of the characters. -/
theorem utf8ByteSize_ofList (cs : List Char) : (String.ofList cs).utf8ByteSize = width cs := by
  induction cs with
  | nil => rfl
  | cons c cs ih =>
    rw [String.ofList_cons, String.utf8ByteSize_append, String.utf8ByteSize_singleton, ih, width_cons]

/-- The width of the characters of a string is its size. -/
theorem width_toList (text : String) : width text.toList = text.utf8ByteSize := by
  rw [← utf8ByteSize_ofList, String.ofList_toList]

/-- A cut at the width of a leading part splits off exactly that part. -/
@[simp] theorem cutAt_width (xs ys : List Char) : cutAt (width xs) (xs ++ ys) = (xs, ys) := by
  induction xs with
  | nil => simp [cutAt]
  | cons c xs ih =>
    have hpos := Char.utf8Size_pos c
    obtain ⟨n, hn⟩ : ∃ n, width (c :: xs) = n + 1 := ⟨width (c :: xs) - 1, by simp; omega⟩
    have hrest : n + 1 - c.utf8Size = width xs := by rw [← hn]; simp
    rw [hn, List.cons_append, cutAt, hrest, ih]

/-! ## Dividing a text -/

/-- Divide a text at the first occurrence of a character, which belongs to neither part. -/
def divideAt? (mark : Char) : List Char → Option (List Char × List Char)
  | [] => none
  | c :: cs =>
    if c = mark then some ([], cs)
    else (divideAt? mark cs).map fun (before, after) => (c :: before, after)

/-- A text is divided exactly at its first mark. -/
theorem divideAt?_eq_some_iff {mark : Char} {text before after : List Char} :
    divideAt? mark text = some (before, after) ↔
      text = before ++ mark :: after ∧ mark ∉ before := by
  induction text generalizing before with
  | nil => simp [divideAt?]
  | cons c cs ih =>
    rw [divideAt?]
    split
    next h =>
      subst h
      cases before with
      | nil => simp [eq_comm]
      | cons b before => simp +contextual
    next h =>
      rw [Option.map_eq_some_iff]
      constructor
      · rintro ⟨⟨front, back⟩, hdivided, heq⟩
        obtain ⟨rfl, rfl⟩ := Prod.mk.inj heq
        obtain ⟨rfl, hmark⟩ := ih.mp hdivided
        simp [hmark, Ne.symm h]
      · rintro ⟨heq, hmark⟩
        cases before with
        | nil => exact absurd (List.cons.inj heq).1 h
        | cons b before =>
          obtain ⟨rfl, rfl⟩ := List.cons.inj heq
          exact ⟨(before, after), ih.mpr ⟨rfl, fun hm => hmark (List.mem_cons_of_mem _ hm)⟩, rfl⟩

/-- A text is not divided exactly when it holds no mark. -/
theorem divideAt?_eq_none_iff {mark : Char} {text : List Char} :
    divideAt? mark text = none ↔ mark ∉ text := by
  induction text with
  | nil => simp [divideAt?]
  | cons c cs ih =>
    rw [divideAt?]
    split
    next h => simp [h]
    next h => simp [ih, Ne.symm h]

/-! ## Lines -/

/-- The lines of a text, which line feeds alone divide; what follows the last line feed is one too. -/
def linesOf (cs : List Char) : List (List Char) :=
  cs.splitOn '\n'

/-- A line without a carriage return at its end. -/
def withoutReturn (line : List Char) : List Char :=
  if line.getLast? = some '\r' then line.dropLast else line

/-- The lines of an input. A carriage return right before a line feed belongs to the line's end, and
text after the last line feed is a line of its own, taken as it stands. -/
def lines (input : String) : List String :=
  let pieces := linesOf input.toList
  let ended := pieces.dropLast.map withoutReturn
  let unended := pieces.getLast?.toList.filter fun piece => !piece.isEmpty
  (ended ++ unended).map String.ofList

end GenomeScript.Text
