import GenomeScript.Text

/-!
# Trimming

A text is a run of blanks, a core and another run of blanks. If the core neither begins nor ends
with a blank, the text determines it, and it is what trimming keeps. So a reader that trims its
input accepts what it would accept as it stands, with any blanks around it, and nothing else.
-/

namespace GenomeScript.Text

/-- A run of blanks, possibly empty. -/
structure Blanks where
  chars : List Char
  blank : ∀ c ∈ chars, isBlank c = true

/-- No blanks. -/
def Blanks.none : Blanks := ⟨[], by simp⟩

/-- One space. -/
def Blanks.space : Blanks := ⟨[' '], List.forall_mem_singleton.mpr (by decide)⟩

/-- One run of blanks behind another. -/
def Blanks.append (first second : Blanks) : Blanks where
  chars := first.chars ++ second.chars
  blank c hc := (List.mem_append.mp hc).elim (first.blank c) (second.blank c)

/-- The text of a run of blanks. -/
def Blanks.text (blanks : Blanks) : String := String.ofList blanks.chars

/-- A text that neither begins nor ends with a blank. -/
structure Tight (cs : List Char) : Prop where
  first : ∀ c ∈ cs.head?, isBlank c = false
  last : ∀ c ∈ cs.getLast?, isBlank c = false

/-- A text without blanks is tight. -/
theorem tight_of_forall {cs : List Char} (h : ∀ c ∈ cs, isBlank c = false) : Tight cs where
  first c hc := h c (List.mem_of_mem_head? hc)
  last c hc := h c (List.mem_of_mem_getLast? hc)

/-- Reversing a text keeps it tight. -/
theorem Tight.reverse {cs : List Char} (h : Tight cs) : Tight cs.reverse where
  first c hc := h.last c (by rwa [List.head?_reverse] at hc)
  last c hc := h.first c (by rwa [List.getLast?_reverse] at hc)

/-- Nothing is dropped from a text that begins with no blank. -/
theorem trimStart_eq_self {cs : List Char} (h : ∀ c ∈ cs.head?, isBlank c = false) :
    trimStart cs = cs := by
  cases cs with
  | nil => rfl
  | cons c cs => exact trimStart_cons_of_not_isBlank cs (h c rfl)

/-- Blanks alone are dropped altogether. -/
theorem trimStart_blanks (blanks : Blanks) : trimStart blanks.chars = [] := by
  have hnothing := trimStart_append_of_blank blanks.chars [] blanks.blank
  rwa [List.append_nil] at hnothing

/-- A text is the blanks in front of it and what is kept. -/
theorem exists_blanks_trimStart (cs : List Char) :
    ∃ before : Blanks, cs = before.chars ++ trimStart cs := by
  induction cs with
  | nil => exact ⟨.none, rfl⟩
  | cons c cs ih =>
    by_cases hc : isBlank c = true
    · obtain ⟨before, hcs⟩ := ih
      refine ⟨⟨c :: before.chars, List.forall_mem_cons.mpr ⟨hc, before.blank⟩⟩, ?_⟩
      rw [trimStart_cons_of_isBlank cs hc, List.cons_append, ← hcs]
    · rw [Bool.not_eq_true] at hc
      exact ⟨.none, (trimStart_cons_of_not_isBlank cs hc).symm⟩

/-- What is kept begins with no blank. -/
theorem isBlank_of_mem_head?_trimStart (cs : List Char) :
    ∀ c ∈ (trimStart cs).head?, isBlank c = false := by
  intro c hc
  have hfirst := List.head?_dropWhile_not isBlank cs
  rw [Option.mem_def, trimStart] at hc
  rw [hc] at hfirst
  simpa using hfirst

/-- A text is what is kept and the blanks behind it. -/
theorem exists_blanks_trimEnd (cs : List Char) :
    ∃ after : Blanks, cs = trimEnd cs ++ after.chars := by
  obtain ⟨after, hafter⟩ := exists_blanks_trimStart cs.reverse
  refine ⟨⟨after.chars.reverse, fun c hc => after.blank c (List.mem_reverse.mp hc)⟩, ?_⟩
  rw [trimEnd, ← List.reverse_append, ← hafter, List.reverse_reverse]

/-- A text is the blanks around it and what trimming keeps. -/
theorem exists_blanks_trim (cs : List Char) :
    ∃ before after : Blanks, cs = before.chars ++ trim cs ++ after.chars := by
  obtain ⟨before, hbefore⟩ := exists_blanks_trimStart cs
  obtain ⟨after, hafter⟩ := exists_blanks_trimEnd (trimStart cs)
  refine ⟨before, after, ?_⟩
  rw [List.append_assoc, trim, ← hafter]
  exact hbefore

/-- What trimming keeps is tight. -/
theorem tight_trim (cs : List Char) : Tight (trim cs) where
  first := by
    -- Trimming the end leaves the beginning alone, if it leaves anything.
    intro c hc
    obtain ⟨after, hafter⟩ := exists_blanks_trimEnd (trimStart cs)
    apply isBlank_of_mem_head?_trimStart cs c
    rw [hafter, ← trim, List.head?_append, hc, Option.some_or]
    rfl
  last := by
    intro c hc
    rw [trim, trimEnd, List.getLast?_reverse] at hc
    exact isBlank_of_mem_head?_trimStart _ c hc

/-- Blanks around a tight text are trimmed, and nothing else is. -/
theorem trim_append_of_tight {core : List Char} (h : Tight core) (before after : Blanks) :
    trim (before.chars ++ core ++ after.chars) = core := by
  rw [trim, List.append_assoc, trimStart_append_of_blank _ _ before.blank]
  cases core with
  | nil => rw [List.nil_append, trimStart_blanks]; rfl
  | cons c core =>
    rw [List.cons_append, trimStart_cons_of_not_isBlank _ (h.first c rfl), ← List.cons_append,
      trimEnd_append_of_blank _ _ after.blank, trimEnd, trimStart_eq_self h.reverse.first,
      List.reverse_reverse]

/-- Trimming keeps a core exactly when the core is tight and blanks are all that stands around it. -/
theorem trim_eq_iff {cs core : List Char} :
    trim cs = core ↔ Tight core ∧ ∃ before after : Blanks, cs = before.chars ++ core ++ after.chars := by
  constructor
  · intro h
    rw [← h]
    exact ⟨tight_trim cs, exists_blanks_trim cs⟩
  · intro h
    obtain ⟨htight, before, after, hcs⟩ := h
    rw [hcs]
    exact trim_append_of_tight htight before after

/-- More blanks around a text make no difference to what trimming keeps. -/
theorem trim_append_blanks (cs : List Char) (before after : Blanks) :
    trim (before.chars ++ cs ++ after.chars) = trim cs := by
  obtain ⟨first, last, hcs⟩ := exists_blanks_trim cs
  refine trim_eq_iff.mpr ⟨tight_trim cs, before.append first, last.append after, ?_⟩
  calc before.chars ++ cs ++ after.chars
      = before.chars ++ (first.chars ++ trim cs ++ last.chars) ++ after.chars := by rw [← hcs]
    _ = (before.append first).chars ++ trim cs ++ (last.append after).chars := by
      simp [Blanks.append]

/-- A text without blanks stays as it is. -/
theorem trim_eq_self_of_forall {cs : List Char} (h : ∀ c ∈ cs, isBlank c = false) : trim cs = cs :=
  trim_eq_iff.mpr ⟨tight_of_forall h, .none, .none, by simp [Blanks.none]⟩

end GenomeScript.Text
