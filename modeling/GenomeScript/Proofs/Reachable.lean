import GenomeScript.CommandLine.Settings
import GenomeScript.Proofs.Assignments
import GenomeScript.Proofs.Frame
import GenomeScript.Proofs.Listing
import GenomeScript.Proofs.Replay
import GenomeScript.Terminal

/-!
# Reachable stores

The front end seeds a store with assignments and then holds a session over it, or runs the genome
of a file for a number of cycles. Every name in a store that comes about in this way is an
identifier or the decimal text of a value: assignments accept identifiers only, and a script
writes under a plain name, which is an identifier, or under the text of a number. Such names are
words, so the text that is shown of the store tells it from every other store that can be reached.

The invariant is kept by every write, hence by cycles, and by each line of a session; a whole
session keeps it by induction on its lines.
-/

namespace GenomeScript

open CommandLine (Settings)

/-- A name that scripts and assignments can write under: an identifier, or the decimal text of a
value. -/
def Store.IsWritable (name : String) : Prop :=
  Identifier.isIdentifier name = true ∨ ∃ value, name = Numeral.render value

/-- Every name in the store is writable. -/
def Store.WellNamed (store : Store) : Prop :=
  ∀ name, store.contains name = true → IsWritable name

/-- The seeds were all read from assignments. -/
def CommandLine.Settings.Seeded (settings : Settings) : Prop :=
  ∀ seed ∈ settings.seeds, ∃ text, Assignment.parse text = .ok seed

/-- The stores that the front end can come to: by a session, or by cycles of a genome, on a store
that assignments seeded. -/
inductive Store.Reachable : Store → Prop
  | session (canvas : Canvas) (settings : Settings) (seeded : settings.Seeded)
      (lines : List String) :
      Reachable (Transcript.ofLines canvas settings.tree lines settings.store).2
  | cycles (settings : Settings) (seeded : settings.Seeded) {source : String} {genome : Genome}
      (read : Genome.ofSource source = .ok genome) (count : Nat) :
      Reachable (genome.runCycles count settings.store)

namespace Store

/-- A writable name is one word. -/
theorem IsWritable.isWord {name : String} (h : IsWritable name) : Token.IsWord name := by
  cases h with
  | inl hidentifier => exact Token.isWord_of_isIdentifier hidentifier
  | inr hnumeral =>
    obtain ⟨value, rfl⟩ := hnumeral
    exact Numeral.isWord_render value

/-- The names of a well-named store are words. -/
theorem WellNamed.holdsWords {store : Store} (h : store.WellNamed) : store.HoldsWords := by
  intro entry hentry
  have hvalue : store.get? entry.1 = some entry.2 := store.mem_entries_iff.mp hentry
  have hname : store.contains entry.1 = true := by rw [contains, hvalue, Option.isSome_some]
  exact (h entry.1 hname).isWord

/-- Nothing is written in the empty store. -/
theorem wellNamed_empty : empty.WellNamed := by
  intro name hname
  cases hname

/-- Writes under writable names keep a store well named. -/
theorem WellNamed.setAll {store : Store} (h : store.WellNamed) {entries : List Entry}
    (hentries : ∀ entry ∈ entries, IsWritable entry.1) : (store.setAll entries).WellNamed := by
  intro name hname
  rw [contains_setAll, Bool.or_eq_true] at hname
  cases hname with
  | inl hwritten =>
    obtain ⟨value, hvalue⟩ := contains_ofList_iff.mp hwritten
    exact hentries (name, value) hvalue
  | inr hold => exact h name hold

end Store

open Store (WellNamed)

/-- An assignment that is read names an identifier. -/
theorem Assignment.isIdentifier_of_parse {text : String} {seed : Assignment}
    (h : parse text = .ok seed) : Identifier.isIdentifier seed.name = true := by
  obtain ⟨left, _, _, hname, _⟩ := parse_eq_ok_iff.mp h
  rw [← hname]
  exact left.name.isIdentifier_text

/-- The store that assignments seed is well named. -/
theorem CommandLine.Settings.Seeded.wellNamed {settings : Settings} (h : settings.Seeded) :
    settings.store.WellNamed := by
  apply Store.wellNamed_empty.setAll
  intro entry hentry
  obtain ⟨seed, hseed, rfl⟩ := List.mem_map.mp hentry
  obtain ⟨text, htext⟩ := h seed hseed
  exact .inl (Assignment.isIdentifier_of_parse htext)

/-- Cycles of a canonical genome keep a store well named. -/
theorem Genome.Canonical.wellNamed_runCycles {genome : Genome} (h : genome.Canonical) {store : Store}
    (hstore : store.WellNamed) (count : Nat) : (genome.runCycles count store).WellNamed := by
  rw [genome.runCycles_eq_setAll]
  apply hstore.setAll
  intro entry hentry
  obtain ⟨command, _, hexpression, s, hs⟩ := h.exists_of_mem_writes hentry
  cases hexpression.name_of_mem_writes hs with
  | inl hplain => exact .inl hplain.1
  | inr hcomputed => exact .inr hcomputed.1

/-- A line of a session keeps the store well named. -/
theorem Session.wellNamed_answerTyped {store : Store} (h : store.WellNamed) (line : String) :
    (answerTyped? line store).2.WellNamed := by
  by_cases hclears : clears line = true
  · rw [store_of_clears hclears]
    exact Store.wellNamed_empty
  · rw [Bool.not_eq_true] at hclears
    by_cases hruns : runs line = true
    · -- The commands of the line change the store as one cycle of a script does.
      obtain ⟨found, hfound, hstore⟩ := store_of_runs hclears hruns store
      obtain ⟨script, _, hscript⟩ := exists_script_of_commands hfound
      rw [hstore, ← hscript]
      exact script.canonical_genome.wellNamed_runCycles h 1
    · rw [Bool.not_eq_true] at hruns
      rw [store_of_not_runs hclears hruns]
      exact h

/-- A session keeps the store well named. -/
theorem Session.wellNamed_ofLines {store : Store} (h : store.WellNamed) (canvas : Canvas)
    (showTree : Bool) (lines : List String) :
    (Transcript.ofLines canvas showTree lines store).2.WellNamed := by
  rw [store_ofLines]
  induction lines generalizing store with
  | nil => exact h
  | cons line lines ih =>
    rw [List.foldl_cons]
    exact ih (wellNamed_answerTyped h line)

/-- Every reachable store is well named. -/
theorem Store.Reachable.wellNamed {store : Store} (h : store.Reachable) : store.WellNamed := by
  cases h with
  | session canvas settings seeded lines =>
    exact Session.wellNamed_ofLines seeded.wellNamed canvas settings.tree lines
  | cycles settings seeded read count =>
    exact (Genome.canonical_of_ofSource read).wellNamed_runCycles seeded.wellNamed count

/-- Every name in a reachable store is an identifier or the decimal text of a value, and reachable
stores that have the same text are equal. -/
theorem Store.reachable_names_and_display :
    (∀ store : Store, store.Reachable → ∀ name, store.contains name = true →
      Identifier.isIdentifier name = true ∨ ∃ value, name = Numeral.render value) ∧
    ∀ s t : Store, s.Reachable → t.Reachable → s.display = t.display → s = t := by
  constructor
  · intro store h name hname
    exact h.wellNamed name hname
  · intro s t hs ht hdisplay
    exact hs.wellNamed.holdsWords.eq_of_display_eq ht.wellNamed.holdsWords hdisplay

/-- A session that reads its address and the cycles of a genome that computes it reach one store,
with an identifier and a negative numeral in it. -/
theorem Store.reachable_names_and_display_two_ways :
    let settings : Settings := { seeds := [⟨"x", -7⟩] }
    let genome : Genome := ⟨[.sequence [.store (.binary .sub (.number 0) (.number 7)) (.number 2)]]⟩
    let lines := ["2 *.x store", ":vars", "5 .y"]
    let typed := (Transcript.ofLines Terminal.canvas settings.tree lines settings.store).2
    let cycled := genome.runCycles 3 settings.store
    typed.Reachable ∧ cycled.Reachable ∧ typed.contains "-7" = true ∧
      (Identifier.isIdentifier "-7" = true ∨ ∃ value, "-7" = Numeral.render value) ∧
      typed.display = cycled.display ∧ typed = cycled := by
  intro settings genome lines typed cycled
  have hseeded : settings.Seeded := by
    intro seed hseed
    rw [List.mem_singleton.mp hseed]
    exact ⟨" .x = -7", by decide +kernel⟩
  have hread : Genome.ofSource "start 2 0 7 sub store stop" = .ok genome := by decide +kernel
  have htyped : typed.Reachable := .session Terminal.canvas settings hseeded lines
  have hcycled : cycled.Reachable := .cycles settings hseeded hread 3
  have hname : typed.contains "-7" = true := by decide +kernel
  have hdisplay : typed.display = cycled.display := by decide +kernel
  obtain ⟨hnames, hequal⟩ := Store.reachable_names_and_display
  exact ⟨htyped, hcycled, hname, hnames typed htyped "-7" hname, hdisplay,
    hequal typed cycled htyped hcycled hdisplay⟩

end GenomeScript
