import GenomeScript.CommandLine.Settings
import GenomeScript.Proofs.Canonical
import GenomeScript.Proofs.Trimming

/-!
# The form of assignments

An assignment is a name, an equals sign and a literal. Dots may stand in front of the name, and
blanks around either side, but neither between the dots and the name nor inside the literal. The
two sides are given as types that hold their own spelling. A text is read as an assignment exactly
when it is a left side, an equals sign and a right side. Otherwise the first thing that is missing
is reported: the equals sign, then the left side, and the right side only if the left one is there.
-/

namespace GenomeScript.Assignment

open Grammar Text

/-- What stands in front of the equals sign: dots and a name, with blanks around them. -/
structure NameSide where
  before : Blanks
  dots : Nat
  name : Name
  after : Blanks

/-- The characters of a left side. -/
def NameSide.chars (side : NameSide) : List Char :=
  side.before.chars ++ (List.replicate side.dots '.' ++ side.name.chars) ++ side.after.chars

/-- What stands behind the equals sign: a literal whose integer is a value, with blanks around it. -/
structure ValueSide where
  before : Blanks
  literal : Numeral.Literal
  value : Value
  spelled : literal.value = value.toInt
  after : Blanks

/-- The characters of a right side. -/
def ValueSide.chars (side : ValueSide) : List Char :=
  side.before.chars ++ side.literal.chars ++ side.after.chars

/-- Dots and a name are tight. -/
theorem tight_dots_name (dots : Nat) (name : Name) : Tight (List.replicate dots '.' ++ name.chars) := by
  apply tight_of_forall
  intro c hc
  rcases List.mem_append.mp hc with hdot | hname
  · rw [List.eq_of_mem_replicate hdot]
    decide
  · exact name.isBlank_eq_false c hname

/-- Dropping dots from dots and a name leaves the name. -/
theorem dropWhile_dots_name (dots : Nat) (name : Name) :
    (List.replicate dots '.' ++ name.chars).dropWhile (· == '.') = name.chars := by
  have hdots : ∀ c ∈ List.replicate dots '.', (c == '.') = true := by simp
  have hfirst : name.first ≠ '.' := by
    intro hdot
    have hletter := name.opens
    rw [hdot] at hletter
    revert hletter
    unfold IsLetter
    decide
  rw [List.dropWhile_append_of_pos hdots, Name.chars, List.dropWhile_cons_of_neg (by simpa using hfirst)]

/-- The bare name of a left side is its name. -/
theorem bareName_chars (side : NameSide) : bareName side.chars = side.name.chars := by
  rw [bareName, NameSide.chars, trim_append_of_tight (tight_dots_name side.dots side.name),
    dropWhile_dots_name]

/-- A text whose bare name is a name is a left side with that name. -/
theorem exists_nameSide {left : List Char} {name : Name} (h : bareName left = name.chars) :
    ∃ side : NameSide, side.chars = left ∧ side.name = name := by
  obtain ⟨before, after, hleft⟩ := exists_blanks_trim left
  have hdots : (trim left).takeWhile (· == '.') =
      List.replicate ((trim left).takeWhile (· == '.')).length '.' := by
    apply List.eq_replicate_of_mem
    intro c hc
    simpa using List.mem_takeWhile_imp hc
  refine ⟨⟨before, ((trim left).takeWhile (· == '.')).length, name, after⟩, ?_, rfl⟩
  rw [NameSide.chars, ← hdots, ← h, bareName, List.takeWhile_append_dropWhile, ← hleft]

/-- The bare name is accepted exactly when the text is a left side. -/
theorem accepts_bareName_iff {left : List Char} :
    Identifier.accepts (bareName left) = true ↔ ∃ side : NameSide, side.chars = left := by
  rw [accepts_iff]
  constructor
  · intro ⟨name, hname⟩
    obtain ⟨side, hside, _⟩ := exists_nameSide hname.symm
    exact ⟨side, hside⟩
  · intro ⟨side, hside⟩
    exact ⟨side.name, by rw [← hside, bareName_chars]⟩

/-- A text is read as a value between blanks exactly when it is a right side with that value. -/
theorem readValue_trim_eq_ok_iff {right : List Char} {value : Value} :
    Numeral.readValue (trim right) = .ok value ↔
      ∃ side : ValueSide, side.chars = right ∧ side.value = value := by
  rw [Numeral.readValue_eq_ok_iff]
  constructor
  · intro ⟨literal, hchars, hvalue⟩
    obtain ⟨before, after, hright⟩ := exists_blanks_trim right
    refine ⟨⟨before, literal, value, hvalue, after⟩, ?_, rfl⟩
    rw [ValueSide.chars, hchars, ← hright]
  · intro ⟨side, hside, hvalue⟩
    refine ⟨side.literal, ?_, hvalue ▸ side.spelled⟩
    rw [← hside, ValueSide.chars,
      trim_append_of_tight (tight_of_forall (literal_isBlank_eq_false side.literal))]

/-- A left side holds no equals sign, so the sign behind it is the first one. -/
theorem equals_not_mem_chars (side : NameSide) : '=' ∉ side.chars := by
  intro hmem
  have hblank : isBlank '=' = false := by decide
  rw [NameSide.chars, List.mem_append, List.mem_append, List.mem_append] at hmem
  rcases hmem with (hbefore | hdot | hname) | hafter
  · exact absurd (side.before.blank _ hbefore) (by rw [hblank]; decide)
  · exact absurd (List.eq_of_mem_replicate hdot) (by decide)
  · have hletter : ¬IsLetter '=' := by unfold IsLetter; decide
    rcases List.mem_cons.mp hname with hfirst | hother
    · exact hletter (hfirst ▸ side.name.opens)
    · exact (side.name.continues _ hother).elim hletter (by decide)
  · exact absurd (side.after.blank _ hafter) (by rw [hblank]; decide)

/-- Why a text is no assignment: it holds no equals sign; or what stands in front of the first one is
no left side, whatever stands behind it; or what stands behind it is no right side. -/
inductive Refused (text : String) : Fault → Prop
  | noEquals (unmarked : '=' ∉ text.toList) : Refused text (.noEquals text)
  | badName {left right : List Char} (divided : text.toList = left ++ '=' :: right)
      (first : '=' ∉ left) (unnamed : ∀ side : NameSide, side.chars ≠ left) :
      Refused text (.badName (String.ofList (bareName left)))
  | badValue {left : NameSide} {right : List Char} {fault : Numeral.Fault}
      (divided : text.toList = left.chars ++ '=' :: right)
      (unvalued : ∀ side : ValueSide, side.chars ≠ right)
      (unread : Numeral.readValue (trim right) = .error fault) :
      Refused text (.badValue (String.ofList right) fault)

/-- Two sides around an equals sign are read as the name and the value that they hold. -/
theorem parse_of_sides {text : String} {left : NameSide} {right : ValueSide}
    (h : text.toList = left.chars ++ '=' :: right.chars) :
    parse text = .ok ⟨left.name.text, right.value⟩ := by
  have hdivided := divideAt?_eq_some_iff.mpr ⟨h, equals_not_mem_chars left⟩
  have hname := accepts_bareName_iff.mpr ⟨left, rfl⟩
  have hvalue := readValue_trim_eq_ok_iff.mpr ⟨right, rfl, rfl⟩
  simp only [parse, hdivided, if_pos hname, hvalue]
  rw [bareName_chars, Name.text]

/-- A text that is refused for a fault is read with that fault. -/
theorem Refused.parse_eq {text : String} {fault : Fault} (h : Refused text fault) :
    parse text = .error fault := by
  cases h with
  | noEquals hunmarked => simp only [parse, divideAt?_eq_none_iff.mpr hunmarked]
  | badName hdivided hfirst hunnamed =>
    have hname := mt accepts_bareName_iff.mp (not_exists.mpr hunnamed)
    simp only [parse, divideAt?_eq_some_iff.mpr ⟨hdivided, hfirst⟩, if_neg hname]
  | @badValue left right fault hdivided _ hunread =>
    have hfirst := divideAt?_eq_some_iff.mpr ⟨hdivided, equals_not_mem_chars left⟩
    have hname := accepts_bareName_iff.mpr ⟨left, rfl⟩
    simp only [parse, hfirst, if_pos hname, hunread]

/-- A text is two sides around an equals sign, or it is refused. -/
theorem sides_or_refused (text : String) :
    (∃ (left : NameSide) (right : ValueSide), text.toList = left.chars ++ '=' :: right.chars) ∨
      ∃ fault, Refused text fault := by
  by_cases hmarked : '=' ∈ text.toList
  · obtain ⟨left, right, hdivided, hfirst⟩ := List.eq_append_cons_of_mem hmarked
    by_cases hname : ∃ side : NameSide, side.chars = left
    · obtain ⟨side, rfl⟩ := hname
      cases hread : Numeral.readValue (trim right) with
      | ok value =>
        obtain ⟨valueSide, rfl, _⟩ := readValue_trim_eq_ok_iff.mp hread
        exact .inl ⟨side, valueSide, hdivided⟩
      | error fault =>
        refine .inr ⟨_, .badValue hdivided ?_ hread⟩
        intro valueSide hright
        have hvalue := readValue_trim_eq_ok_iff.mpr ⟨valueSide, hright, rfl⟩
        rw [hread] at hvalue
        cases hvalue
    · exact .inr ⟨_, .badName hdivided hfirst (not_exists.mp hname)⟩
  · exact .inr ⟨_, .noEquals hmarked⟩

/-- A text is read as an assignment exactly when it is two sides around an equals sign. -/
theorem parse_eq_ok_iff {text : String} {seed : Assignment} :
    parse text = .ok seed ↔
      ∃ (left : NameSide) (right : ValueSide), text.toList = left.chars ++ '=' :: right.chars ∧
        left.name.text = seed.name ∧ right.value = seed.value := by
  constructor
  · intro h
    rcases sides_or_refused text with ⟨left, right, hsides⟩ | ⟨fault, hrefused⟩
    · rw [parse_of_sides hsides] at h
      rw [← Except.ok.inj h]
      exact ⟨left, right, hsides, rfl, rfl⟩
    · rw [hrefused.parse_eq] at h
      cases h
  · intro ⟨left, right, hsides, hname, hvalue⟩
    rw [parse_of_sides hsides, hname, hvalue]

/-- A text is read as an assignment of a value to a name exactly when it is blanks, dots, the name,
blanks, an equals sign, blanks, a literal of the value and blanks. Otherwise the fault is the missing
equals sign if there is none, else the name if what stands in front of the first equals sign is not of
that form, and the value only if it is. -/
theorem parse_eq_iff_sides (text : String) :
    (∀ name value, parse text = .ok ⟨name, value⟩ ↔
      ∃ (left : NameSide) (right : ValueSide), text.toList = left.chars ++ '=' :: right.chars ∧
        left.name.text = name ∧ right.value = value) ∧
      ∀ fault, parse text = .error fault ↔ Refused text fault := by
  refine ⟨fun name value => parse_eq_ok_iff, ?_⟩
  intro fault
  constructor
  · intro h
    rcases sides_or_refused text with ⟨left, right, hsides⟩ | ⟨other, hrefused⟩
    · rw [parse_of_sides hsides] at h
      cases h
    · rw [hrefused.parse_eq] at h
      rwa [Except.error.inj h] at hrefused
  · exact Refused.parse_eq

/-- Blanks may stand around the dots and the name but not between them, and the second equals sign
belongs to the value. -/
example :
    parse "\u00a0..x\t=\n+07 " = .ok ⟨"x", 7⟩ ∧ parse ".. x=7" = .error (.badName " x") ∧
      parse "x==7" = .error (.badValue "=7" .invalidDigit) := by decide +kernel

end GenomeScript.Assignment
