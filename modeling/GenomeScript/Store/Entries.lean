import GenomeScript.Numeral

/-!
# Ordered entries

Names with values, listed in strictly increasing order of the names, by code point. That is
also the order of their UTF-8 forms. Inserting keeps the order, and ordered entries are
determined by what is found under each name.
-/

namespace GenomeScript.Store

/-- One name and its value. -/
abbrev Entry := String × Value

/-- Names strictly increase along the entries. -/
abbrev Ordered (entries : List Entry) : Prop :=
  entries.Pairwise fun a b => a.1 < b.1

/-- The value listed under a name. -/
def lookup (name : String) : List Entry → Option Value
  | [] => none
  | entry :: entries => if entry.1 = name then some entry.2 else lookup name entries

/-- List a value under a name, in place of an earlier one, and keep the order. -/
def insert (name : String) (value : Value) : List Entry → List Entry
  | [] => [(name, value)]
  | entry :: entries =>
    if name < entry.1 then (name, value) :: entry :: entries
    else if name = entry.1 then (name, value) :: entries
    else entry :: insert name value entries

/-- Of two different names one comes first. -/
theorem name_lt_of_not_lt {a b : String} (hlt : ¬a < b) (hne : a ≠ b) : b < a := by
  rcases String.le_total a b with h | h
  · exact absurd (String.le_antisymm h (String.not_lt.mp hlt)) hne
  · exact String.not_le.mp fun h' => hne (String.le_antisymm h' h)

/-- Inserting adds the new entry and keeps no others than the old ones. -/
theorem mem_insert {name : String} {value : Value} {entry : Entry} {entries : List Entry}
    (h : entry ∈ insert name value entries) : entry = (name, value) ∨ entry ∈ entries := by
  induction entries with
  | nil => simpa [insert] using h
  | cons first entries ih =>
    rw [insert] at h
    split at h
    · simpa using h
    · split at h
      · rcases List.mem_cons.mp h with h | h
        · exact .inl h
        · exact .inr (List.mem_cons_of_mem _ h)
      · rcases List.mem_cons.mp h with rfl | h
        · exact .inr List.mem_cons_self
        · exact (ih h).imp_right (List.mem_cons_of_mem _)

/-- Inserting keeps the order. -/
theorem ordered_insert (name : String) (value : Value) {entries : List Entry}
    (h : Ordered entries) : Ordered (insert name value entries) := by
  induction entries with
  | nil => simp [insert]
  | cons first entries ih =>
    obtain ⟨hfirst, hrest⟩ := List.pairwise_cons.mp h
    rw [insert]
    split
    next hlt =>
      refine List.pairwise_cons.mpr ⟨fun entry hentry => ?_, h⟩
      rcases List.mem_cons.mp hentry with rfl | hentry
      · exact hlt
      · exact String.lt_trans hlt (hfirst entry hentry)
    next hlt =>
      split
      next heq =>
        refine List.pairwise_cons.mpr ⟨fun entry hentry => ?_, hrest⟩
        exact heq ▸ hfirst entry hentry
      next hne =>
        refine List.pairwise_cons.mpr ⟨fun entry hentry => ?_, ih hrest⟩
        rcases mem_insert hentry with rfl | hentry
        · exact name_lt_of_not_lt hlt hne
        · exact hfirst entry hentry

/-- Looking up the inserted name finds the inserted value. -/
theorem lookup_insert_self (name : String) (value : Value) (entries : List Entry) :
    lookup name (insert name value entries) = some value := by
  induction entries with
  | nil => simp [insert, lookup]
  | cons first entries ih =>
    rw [insert]
    split
    · simp [lookup]
    · split
      · simp [lookup]
      next hne => rw [lookup, if_neg (Ne.symm hne), ih]

/-- Looking up another name finds what it found before. -/
theorem lookup_insert_of_ne {name other : String} (h : other ≠ name) (value : Value)
    (entries : List Entry) : lookup other (insert name value entries) = lookup other entries := by
  induction entries with
  | nil => simp [insert, lookup, Ne.symm h]
  | cons first entries ih =>
    rw [insert]
    split
    · simp [lookup, Ne.symm h]
    · split
      next heq => simp [lookup, ← heq, Ne.symm h]
      · simp [lookup, ih]

/-- In ordered entries, a value is found under a name exactly when the pair is listed. -/
theorem lookup_eq_some_iff {name : String} {value : Value} {entries : List Entry}
    (h : Ordered entries) : lookup name entries = some value ↔ (name, value) ∈ entries := by
  induction entries with
  | nil => simp [lookup]
  | cons first entries ih =>
    obtain ⟨hfirst, hrest⟩ := List.pairwise_cons.mp h
    rw [lookup]
    split
    next heq =>
      subst heq
      constructor
      · intro hvalue
        rw [← Option.some.inj hvalue]
        exact List.mem_cons_self
      · intro hmem
        rcases List.mem_cons.mp hmem with heq | hmem
        · rw [← heq]
        · exact absurd (hfirst _ hmem) (String.lt_irrefl _)
    next hne =>
      rw [ih hrest, List.mem_cons]
      exact ⟨.inr, fun hmem => hmem.resolve_left fun heq => hne (congrArg Prod.fst heq).symm⟩

/-- Ordered entries are determined by what is looked up in them. -/
theorem entries_ext {xs ys : List Entry} (hx : Ordered xs) (hy : Ordered ys)
    (h : ∀ name, lookup name xs = lookup name ys) : xs = ys := by
  have hmem (entry : Entry) : entry ∈ xs ↔ entry ∈ ys := by
    rw [show entry = (entry.1, entry.2) from rfl, ← lookup_eq_some_iff hx,
      ← lookup_eq_some_iff hy, h]
  induction xs generalizing ys with
  | nil =>
    cases ys with
    | nil => rfl
    | cons y ys => exact absurd ((hmem y).mpr List.mem_cons_self) List.not_mem_nil
  | cons x xs ih =>
    cases ys with
    | nil => exact absurd ((hmem x).mp List.mem_cons_self) List.not_mem_nil
    | cons y ys =>
      obtain ⟨hxfirst, hxs⟩ := List.pairwise_cons.mp hx
      obtain ⟨hyfirst, hys⟩ := List.pairwise_cons.mp hy
      have hxy : x = y := by
        rcases List.mem_cons.mp ((hmem x).mp List.mem_cons_self) with heq | hx'
        · exact heq
        · rcases List.mem_cons.mp ((hmem y).mpr List.mem_cons_self) with heq | hy'
          · exact heq.symm
          · exact absurd (String.lt_trans (hxfirst y hy') (hyfirst x hx')) (String.lt_irrefl _)
      subst hxy
      have hsub (entry : Entry) : entry ∈ xs ↔ entry ∈ ys := by
        constructor
        · intro hentry
          rcases List.mem_cons.mp ((hmem entry).mp (List.mem_cons_of_mem _ hentry)) with rfl | h'
          · exact absurd (hxfirst _ hentry) (String.lt_irrefl _)
          · exact h'
        · intro hentry
          rcases List.mem_cons.mp ((hmem entry).mpr (List.mem_cons_of_mem _ hentry)) with rfl | h'
          · exact absurd (hyfirst _ hentry) (String.lt_irrefl _)
          · exact h'
      refine congrArg (x :: ·) (ih hxs hys (fun name => ?_) hsub)
      refine Option.ext fun value => ?_
      rw [lookup_eq_some_iff hxs, lookup_eq_some_iff hys, hsub]

end GenomeScript.Store
