import GenomeScript.Proofs.Canonical
import GenomeScript.Proofs.TextLines
import GenomeScript.Text

/-!
# Listings

The text of a store is one line for each entry: the name, an equals sign between spaces and the
value. Names in general may hold spaces and line feeds, and then different stores can have the same
text. If every name is a single word, the lines of the text are the lines of the entries, and the
first space of a line ends its name, so the text determines the store.
-/

namespace GenomeScript

/-- The decimal text of a value is one word. -/
theorem Numeral.isWord_render (value : Value) : Token.IsWord (render value) := by
  have hword : (Grammar.Leaf.ofValue value).word = render value :=
    congrArg String.ofList (Literal.chars_ofInt value.toInt)
  rw [← hword]
  exact Grammar.Leaf.isWord_word _

/-- Rendering loses no value. -/
theorem Numeral.render_injective : Function.Injective render := by
  intro v w h
  have hread := readValue_render v
  rw [h, readValue_render w] at hread
  exact (Except.ok.inj hread).symm

/-- An identifier is one word. -/
theorem Token.isWord_of_isIdentifier {name : String} (h : Identifier.isIdentifier name = true) :
    IsWord name := by
  obtain ⟨spelled, rfl⟩ := Grammar.exists_name h
  rw [IsWord, Grammar.Name.text, String.toList_ofList]
  exact ⟨List.cons_ne_nil _ _, spelled.isBlank_eq_false⟩

/-- A word holds no blank. -/
theorem Token.IsWord.not_mem {word : String} (h : IsWord word) {c : Char} (hc : Text.isBlank c = true) :
    c ∉ word.toList := by
  intro hmem
  rw [h.2 c hmem] at hc
  cases hc

namespace Store

/-- The line that shows an entry, without its line feed. -/
def entryLine (entry : Entry) : List Char :=
  entry.1.toList ++ ' ' :: '=' :: ' ' :: (Numeral.render entry.2).toList

/-- Every name of the store is a single word. -/
def HoldsWords (store : Store) : Prop :=
  ∀ entry ∈ store.entries, Token.IsWord entry.1

/-- The text of a store is the lines of its entries written out. -/
theorem toList_display (store : Store) :
    store.display.toList = Text.writeLines (store.entries.map entryLine) := by
  simp [display, showEntry, entryLine, Text.writeLines, String.toList_join, List.flatMap_map]

/-- The line of an entry whose name is a word holds no line feed. -/
theorem feed_not_mem_entryLine {entry : Entry} (h : Token.IsWord entry.1) : '\n' ∉ entryLine entry := by
  have hname := h.not_mem (c := '\n') (by decide)
  have hvalue := (Numeral.isWord_render entry.2).not_mem (c := '\n') (by decide)
  simp [entryLine, hname, hvalue]

/-- No line of a store whose names are words holds a line feed. -/
theorem HoldsWords.feed_not_mem {store : Store} (h : store.HoldsWords) :
    ∀ line ∈ store.entries.map entryLine, '\n' ∉ line := by
  intro line hline
  obtain ⟨entry, hentry, rfl⟩ := List.mem_map.mp hline
  exact feed_not_mem_entryLine (h entry hentry)

/-- The lines of the text are the lines of the entries, and an empty one behind the last line feed. -/
theorem linesOf_display {store : Store} (h : store.HoldsWords) :
    Text.linesOf store.display.toList = store.entries.map entryLine ++ [[]] := by
  rw [toList_display, ← List.append_nil (Text.writeLines _),
    Text.linesOf_writeLines_append h.feed_not_mem]
  rfl

/-- The line of an entry whose name is a word is divided at the space behind the name. -/
theorem divideAt?_entryLine {entry : Entry} (h : Token.IsWord entry.1) :
    Text.divideAt? ' ' (entryLine entry) =
      some (entry.1.toList, '=' :: ' ' :: (Numeral.render entry.2).toList) :=
  Text.divideAt?_eq_some_iff.mpr ⟨rfl, h.not_mem (by decide)⟩

/-- A line determines the entry that it shows, if names are words. -/
theorem eq_of_entryLine_eq {a b : Entry} (ha : Token.IsWord a.1) (hb : Token.IsWord b.1)
    (h : entryLine a = entryLine b) : a = b := by
  have hdivided := divideAt?_entryLine ha
  rw [h, divideAt?_entryLine hb] at hdivided
  obtain ⟨hname, hvalue⟩ := Prod.mk.inj (Option.some.inj hdivided)
  have hrender : Numeral.render b.2 = Numeral.render a.2 := String.toList_inj.mp (by simpa using hvalue)
  exact Prod.ext (String.toList_inj.mp hname.symm) (Numeral.render_injective hrender.symm)

/-- Lines in order determine the entries that they show, if names are words. -/
theorem eq_of_map_entryLine_eq {xs ys : List Entry} (hx : ∀ entry ∈ xs, Token.IsWord entry.1)
    (hy : ∀ entry ∈ ys, Token.IsWord entry.1) (h : xs.map entryLine = ys.map entryLine) : xs = ys := by
  induction xs generalizing ys with
  | nil => exact (List.map_eq_nil_iff.mp h.symm).symm
  | cons x xs ih =>
    cases ys with
    | nil => cases h
    | cons y ys =>
      obtain ⟨hfirst, hothers⟩ := List.cons.inj h
      rw [eq_of_entryLine_eq (hx x List.mem_cons_self) (hy y List.mem_cons_self) hfirst,
        ih (fun e he => hx e (List.mem_cons_of_mem _ he)) (fun e he => hy e (List.mem_cons_of_mem _ he))
          hothers]

/-- Stores whose names are words are equal if they have the same text. -/
theorem HoldsWords.eq_of_display_eq {s t : Store} (hs : s.HoldsWords) (ht : t.HoldsWords)
    (h : s.display = t.display) : s = t := by
  have hlines : s.entries.map entryLine ++ [[]] = t.entries.map entryLine ++ [[]] := by
    rw [← linesOf_display hs, ← linesOf_display ht, h]
  have hentries := eq_of_map_entryLine_eq hs ht (List.append_cancel_right hlines)
  apply ext_get?
  intro name
  rw [get?, get?, hentries]

/-- A name with a line feed can make one entry look like two. -/
example : (ofList [("a", 1), ("b", 2)]).display = (ofList [("a = 1\nb", 2)]).display := by
  decide +kernel

end Store

end GenomeScript
