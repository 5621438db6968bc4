import GenomeScript.CommandLine.Settings
import GenomeScript.Proofs.Assignments
import GenomeScript.Proofs.Listing
import GenomeScript.Proofs.Writes
import GenomeScript.Text

/-!
# Listings as seeds

The text of a store shows one entry a line, as a name, an equals sign and a value. If every name is
an identifier, each line is an assignment, and the assignments seed the store that was shown: no
line is refused, the digits of every value are read back, and writing entries in the order of their
names lists them as they were.
-/

namespace GenomeScript

namespace Text

/-- A line that ends in no carriage return is kept whole. -/
theorem withoutReturn_eq_self {line : List Char} (h : line.getLast? ≠ some '\r') :
    withoutReturn line = line := by
  rw [withoutReturn, if_neg h]

/-- Lines that are written out are the lines of the text, if none of them holds a line feed or ends
in a carriage return. -/
theorem lines_writeLines {written : List (List Char)} (hfeed : ∀ line ∈ written, '\n' ∉ line)
    (hreturn : ∀ line ∈ written, line.getLast? ≠ some '\r') :
    lines (String.ofList (writeLines written)) = written.map String.ofList := by
  have hpieces : linesOf (writeLines written) = written ++ [[]] := by
    have hlines := linesOf_writeLines_append hfeed []
    rwa [List.append_nil] at hlines
  have hkept : written.map withoutReturn = written := by
    rw [List.map_congr_left fun line hline => withoutReturn_eq_self (hreturn line hline)]
    exact List.map_id' written
  simp [lines, hpieces, hkept]

end Text

namespace Store

/-- An entry whose name comes behind all the others is listed last. -/
theorem insert_eq_append {name : String} {entries : List Entry} (value : Value)
    (h : ∀ entry ∈ entries, entry.1 < name) : insert name value entries = entries ++ [(name, value)] := by
  induction entries with
  | nil => rfl
  | cons first entries ih =>
    have hfirst := h first List.mem_cons_self
    have hafter : ¬name < first.1 := fun hlt => String.lt_irrefl name (String.lt_trans hlt hfirst)
    have hne : name ≠ first.1 := fun heq => String.lt_irrefl name (heq ▸ hfirst)
    rw [insert, if_neg hafter, if_neg hne, ih fun entry hentry => h entry (List.mem_cons_of_mem _ hentry)]
    rfl

/-- Seeding with entries in the order of their names lists them as they are. -/
theorem entries_ofList {entries : List Entry} (h : Ordered entries) : (ofList entries).entries = entries := by
  induction entries using List.reverseRecOn with
  | nil => rfl
  | append_singleton entries entry ih =>
    obtain ⟨hentries, _, hlast⟩ := List.pairwise_append.mp h
    have hbehind : ∀ other ∈ entries, other.1 < entry.1 := fun other hother =>
      hlast other hother entry List.mem_cons_self
    rw [ofList, setAll_append_singleton, ← ofList]
    change insert entry.1 entry.2 (ofList entries).entries = entries ++ [entry]
    rw [ih hentries, insert_eq_append _ hbehind]

/-- Seeding with the entries of a store gives the store. -/
theorem ofList_entries (store : Store) : ofList store.entries = store := by
  apply ext_get?
  intro name
  rw [get?, get?, entries_ofList store.ordered]

/-- The line of an entry ends in no carriage return, since the digits of its value stand last. -/
theorem getLast?_entryLine (entry : Entry) : (entryLine entry).getLast? ≠ some '\r' := by
  obtain ⟨hne, hsolid⟩ := Numeral.isWord_render entry.2
  have hline : entryLine entry = entry.1.toList ++ [' ', '=', ' '] ++ (Numeral.render entry.2).toList := by
    simp [entryLine]
  intro hlast
  rw [hline, List.getLast?_append_of_ne_nil _ hne] at hlast
  have hreturn := hsolid '\r' (List.mem_of_getLast? hlast)
  exact absurd hreturn (by decide)

/-- The lines of the text of a store are the lines of its entries, if its names are words. -/
theorem lines_display {store : Store} (h : store.HoldsWords) :
    Text.lines store.display = store.entries.map fun entry => String.ofList (entryLine entry) := by
  have hreturn : ∀ line ∈ store.entries.map entryLine, line.getLast? ≠ some '\r' := by
    intro line hline
    obtain ⟨entry, _, rfl⟩ := List.mem_map.mp hline
    exact getLast?_entryLine entry
  have hdisplay : store.display = String.ofList (Text.writeLines (store.entries.map entryLine)) := by
    rw [← toList_display, String.ofList_toList]
  rw [hdisplay, Text.lines_writeLines h.feed_not_mem hreturn, List.map_map]
  rfl

/-- The line of an entry whose name is an identifier is an assignment of its value. -/
theorem parse_entryLine {entry : Entry} (h : Identifier.isIdentifier entry.1 = true) :
    Assignment.parse (String.ofList (entryLine entry)) = .ok ⟨entry.1, entry.2⟩ := by
  obtain ⟨name, hname⟩ := Grammar.exists_name h
  let left : Assignment.NameSide := ⟨.none, 0, name, .space⟩
  let right : Assignment.ValueSide :=
    ⟨.space, .ofInt entry.2.toInt, entry.2, Numeral.Literal.value_ofInt entry.2.toInt, .none⟩
  refine Assignment.parse_eq_ok_iff.mpr ⟨left, right, ?_, hname, rfl⟩
  simp [left, right, Assignment.NameSide.chars, Assignment.ValueSide.chars, Text.Blanks.none,
    Text.Blanks.space, entryLine, ← hname, Grammar.Name.text, Numeral.Literal.chars_ofInt, Numeral.render]

/-- The lines of the text of a store whose names are identifiers are assignments of its entries. -/
theorem map_parse_lines_display {store : Store}
    (h : ∀ name, store.contains name = true → Identifier.isIdentifier name = true) :
    (Text.lines store.display).map Assignment.parse =
      (store.entries.map fun entry => (⟨entry.1, entry.2⟩ : Assignment)).map .ok := by
  have hidentifier : ∀ entry ∈ store.entries, Identifier.isIdentifier entry.1 = true := by
    intro entry hentry
    apply h
    rw [contains, store.mem_entries_iff.mp hentry, Option.isSome_some]
  have hwords : store.HoldsWords := fun entry hentry =>
    Token.isWord_of_isIdentifier (hidentifier entry hentry)
  rw [lines_display hwords, List.map_map, List.map_map]
  apply List.map_congr_left
  intro entry hentry
  rw [Function.comp_apply, parse_entryLine (hidentifier entry hentry), Function.comp_apply]

end Store

open CommandLine (Settings)

/-- Settings seeded with the entries of a store begin with that store. -/
theorem CommandLine.Settings.store_of_entries {settings : Settings} {store : Store}
    (h : settings.seeds = store.entries.map fun entry => ⟨entry.1, entry.2⟩) :
    settings.store = store := by
  rw [Settings.store, h, List.map_map]
  exact (congrArg Store.ofList (List.map_id' store.entries)).trans store.ofList_entries

/-- If every name in a store is an identifier, every line of its text is read as an assignment, and
the assignments in order seed the same store. -/
theorem Store.parse_lines_display {store : Store}
    (h : ∀ name, store.contains name = true → Identifier.isIdentifier name = true) :
    ∃ seeds : List Assignment,
      (Text.lines store.display).map Assignment.parse = seeds.map .ok ∧
        Settings.store { seeds := seeds } = store :=
  ⟨_, map_parse_lines_display h, Settings.store_of_entries rfl⟩

/-- The least value is read back from its digits, and the capital letter comes before the underscore. -/
theorem Store.parse_lines_display_least :
    (∀ name, (ofList [("_b2", Int64.minValue), ("Z", 7)]).contains name = true →
      Identifier.isIdentifier name = true) ∧
    (ofList [("_b2", Int64.minValue), ("Z", 7)]).display = "Z = 7\n_b2 = -9223372036854775808\n" ∧
    ∃ seeds : List Assignment,
      (Text.lines (ofList [("_b2", Int64.minValue), ("Z", 7)]).display).map Assignment.parse =
          seeds.map .ok ∧
        Settings.store { seeds := seeds } = ofList [("_b2", Int64.minValue), ("Z", 7)] := by
  have hnames : ∀ name, (ofList [("_b2", Int64.minValue), ("Z", 7)]).contains name = true →
      Identifier.isIdentifier name = true := by
    intro name hname
    obtain ⟨value, hvalue⟩ := contains_ofList_iff.mp hname
    rcases List.mem_cons.mp hvalue with heq | hmem
    · rw [(Prod.mk.inj heq).1]
      decide
    · rw [(Prod.mk.inj (List.mem_singleton.mp hmem)).1]
      decide
  have hdisplay : (ofList [("_b2", Int64.minValue), ("Z", 7)]).display =
      "Z = 7\n_b2 = -9223372036854775808\n" := by decide +kernel
  exact ⟨hnames, hdisplay, Store.parse_lines_display hnames⟩

end GenomeScript
