import Mathlib.Data.List.TakeWhile
import GenomeScript.Token

/-!
# The words of a source

Scanning yields the words of a source together with their places. The words alone do not
depend on where the source begins, and they split at every blank: the words of two sources
with a blank between them are the words of the one followed by the words of the other. So
joining words by spaces and scanning gives the words back, if none is empty or holds a blank.
-/

namespace GenomeScript.Token

open GenomeScript.Text

/-- The words of a text. -/
def wordsOf (cs : List Char) : List String :=
  (scanFrom 1 0 cs).map Token.text

/-- The words of a source. -/
def words (source : String) : List String :=
  (scan source).map Token.text

/-- The words do not depend on the line and the offset at which the text begins. -/
theorem map_text_scanFrom (line offset : Nat) (cs : List Char) :
    (scanFrom line offset cs).map Token.text = wordsOf cs := by
  have hplace (line' offset' : Nat) : (scanFrom line offset cs).map Token.text =
      (scanFrom line' offset' cs).map Token.text := by
    fun_induction scanFrom line offset cs generalizing line' offset' with
    | case1 => simp
    | case2 line offset c cs hblank ih => rw [scanFrom_cons_of_isBlank _ _ _ hblank, ih]
    | case3 line offset c cs hsolid word past ih =>
      rw [scanFrom_cons_of_not_isBlank _ _ _ (by simpa using hsolid), List.map_cons, List.map_cons]
      exact congrArg (String.ofList word :: ·) (ih _ _)
  exact hplace 1 0

@[simp] theorem wordsOf_nil : wordsOf [] = [] := by
  simp [wordsOf]

/-- A leading blank belongs to no word. -/
theorem wordsOf_cons_of_isBlank {c : Char} (cs : List Char) (h : isBlank c = true) :
    wordsOf (c :: cs) = wordsOf cs := by
  rw [wordsOf, scanFrom_cons_of_isBlank _ _ _ h, map_text_scanFrom]

/-- A solid character opens a word that takes in the whole run. -/
theorem wordsOf_cons_of_not_isBlank {c : Char} (cs : List Char) (h : isBlank c = false) :
    wordsOf (c :: cs) =
      String.ofList (c :: cs.takeWhile isSolid) :: wordsOf (cs.dropWhile isSolid) := by
  rw [wordsOf, scanFrom_cons_of_not_isBlank _ _ _ h, List.map_cons, map_text_scanFrom]

/-- A run of solid characters ends at a blank, whatever comes before it. -/
theorem takeWhile_isSolid_append (xs ys : List Char) {b : Char} (hb : isBlank b = true) :
    (xs ++ b :: ys).takeWhile isSolid = xs.takeWhile isSolid ∧
      (xs ++ b :: ys).dropWhile isSolid = xs.dropWhile isSolid ++ b :: ys := by
  induction xs with
  | nil => simp [isSolid, hb]
  | cons c xs ih =>
    by_cases hc : isSolid c = true
    · simp [hc, ih]
    · simp [hc]

/-- A blank divides the words of a text. -/
theorem wordsOf_append_blank (xs ys : List Char) {b : Char} (hb : isBlank b = true) :
    wordsOf (xs ++ b :: ys) = wordsOf xs ++ wordsOf ys := by
  induction hn : xs.length using Nat.strongRecOn generalizing xs with
  | ind n ih =>
    cases xs with
    | nil => rw [List.nil_append, wordsOf_cons_of_isBlank _ hb, wordsOf_nil, List.nil_append]
    | cons c xs =>
      rw [List.length_cons] at hn
      by_cases hc : isBlank c = true
      · rw [List.cons_append, wordsOf_cons_of_isBlank _ hc, wordsOf_cons_of_isBlank _ hc,
          ih xs.length (by omega) xs rfl]
      · have hsolid : isBlank c = false := by simpa using hc
        have hrun := takeWhile_isSolid_append xs ys hb
        have hshort := length_dropWhile_isSolid_le xs
        rw [List.cons_append, wordsOf_cons_of_not_isBlank _ hsolid, wordsOf_cons_of_not_isBlank _ hsolid,
          hrun.1, hrun.2, ih (xs.dropWhile isSolid).length (by omega) _ rfl]
        rfl

/-- The words of a source are those of its characters. -/
theorem words_eq (source : String) : words source = wordsOf source.toList := rfl

/-- A text that is one word. -/
def IsWord (text : String) : Prop :=
  text.toList ≠ [] ∧ ∀ c ∈ text.toList, isBlank c = false

instance (text : String) : Decidable (IsWord text) :=
  decidable_of_iff (text.toList.isEmpty = false ∧ text.toList.all isSolid = true)
    (by simp [IsWord, isSolid])

/-- A single word is its only word. -/
theorem words_of_isWord {text : String} (h : IsWord text) : words text = [text] := by
  obtain ⟨hne, hsolid⟩ := h
  rw [words_eq]
  cases hcs : text.toList with
  | nil => exact absurd hcs hne
  | cons c cs =>
    rw [hcs] at hsolid
    have hrun : ∀ d ∈ cs, isSolid d = true := by
      intro d hd
      simp [isSolid, hsolid d (by simp [hd])]
    rw [wordsOf_cons_of_not_isBlank _ (hsolid c (by simp)), List.takeWhile_eq_self_iff.mpr hrun,
      List.dropWhile_eq_nil_iff.mpr hrun, wordsOf_nil, ← hcs, String.ofList_toList]

section Gap

variable {gap : String} (blank : Char) (hgap : gap.toList = [blank]) (hblank : isBlank blank = true)

include hgap hblank

/-- A gap divides the words of a source. -/
theorem words_append_gap (a b : String) : words (a ++ gap ++ b) = words a ++ words b := by
  rw [words_eq, String.toList_append, String.toList_append, hgap, List.append_assoc,
    List.singleton_append, wordsOf_append_blank _ _ hblank]
  rfl

/-- Sources joined by gaps have the words of the sources in order. -/
theorem words_intercalate (sources : List String) :
    words (gap.intercalate sources) = sources.flatMap words := by
  induction sources with
  | nil => simp [words_eq]
  | cons source sources ih =>
    cases sources with
    | nil => simp
    | cons next sources =>
      rw [String.intercalate_cons_cons, words_append_gap blank hgap hblank, ih]
      rfl

/-- Sources that each end in a gap have the words of the sources in order. -/
theorem words_join (sources : List String) :
    words (String.join (sources.map (· ++ gap))) = sources.flatMap words := by
  induction sources with
  | nil => simp [words_eq]
  | cons source sources ih =>
    rw [List.map_cons, String.join_cons, words_append_gap blank hgap hblank, ih]
    rfl

end Gap

/-- Words joined by spaces are read back. -/
theorem words_intercalate_space {texts : List String} (h : ∀ text ∈ texts, IsWord text) :
    words (" ".intercalate texts) = texts := by
  rw [words_intercalate ' ' rfl (by decide)]
  induction texts with
  | nil => rfl
  | cons text texts ih =>
    rw [List.flatMap_cons, words_of_isWord (h text (by simp)), ih fun t ht => h t (by simp [ht])]
    rfl

end GenomeScript.Token
