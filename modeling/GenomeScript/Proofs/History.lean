import Mathlib.Data.List.Induction
import Mathlib.Data.List.Nodup
import GenomeScript.Proofs.ByteOrder
import GenomeScript.Store.Basic

/-!
# Stores and their histories

A store comes from a seed and from operations that set names or clear everything. What it shows
afterwards is determined by the last write to each name since the last clear, an entry of the
seed being a write like any other: presence, value, what the next write replaces, and the
listing, which holds each name once in the order of the UTF-8 forms. A map that kept the last writes
in no order would give the same listing after sorting. Stores that show the same are equal, however
they came about.

A history grows at its end, so the induction is on the last operation.
-/

namespace GenomeScript.Store

/-- An operation that changes a store. -/
inductive Operation where
  | set (name : String) (value : Value)
  | clear
deriving DecidableEq

/-- What an operation answers, and the store after it. Setting a name answers the value that is
replaced. -/
def Operation.run : Operation → Store → Option Value × Store
  | .set name value, store => store.replace name value
  | .clear, _ => (none, .empty)

/-- The store after operations in order. -/
def runAll (store : Store) (operations : List Operation) : Store :=
  operations.foldl (fun store operation => (operation.run store).2) store

/-- A seed and the operations after it, as operations on the empty store. -/
def history (seed : List Entry) (operations : List Operation) : List Operation :=
  seed.map (fun entry => .set entry.1 entry.2) ++ operations

/-- The value is the one of the last write to the name since the last clear. -/
def LastWrite (operations : List Operation) (name : String) (value : Value) : Prop :=
  ∃ before after, operations = before ++ .set name value :: after ∧
    .clear ∉ after ∧ ∀ other, .set name other ∉ after

/-- Entries in the order of their names. -/
def sortByName (entries : List Entry) : List Entry :=
  entries.mergeSort fun a b => decide (a.1 ≤ b.1)

/-- What a store shows of the operations that led to it. -/
structure Reflects (store : Store) (operations : List Operation) : Prop where
  present : ∀ name value, LastWrite operations name value →
    store.contains name = true ∧ store.get name = value
  absent : ∀ name, (∀ value, ¬LastWrite operations name value) →
    store.contains name = false ∧ store.get name = 0
  replaced : ∀ name value old,
    ((Operation.set name value).run store).1 = some old ↔ LastWrite operations name old
  listed : ∀ name value, (name, value) ∈ store.entries ↔ LastWrite operations name value
  listedOnce : (store.entries.map Prod.fst).Nodup
  listedInOrder : store.entries.Pairwise fun a b => Text.bytes a.1 < Text.bytes b.1
  sorted : ∀ written : List Entry, (written.map Prod.fst).Nodup →
    (∀ name value, (name, value) ∈ written ↔ LastWrite operations name value) →
      sortByName written = store.entries
  counted : store.size = store.entries.length

/-- Starting from a seed is starting from nothing with the writes of the seed. -/
theorem runAll_ofList (seed : List Entry) (operations : List Operation) :
    (ofList seed).runAll operations = empty.runAll (history seed operations) := by
  rw [runAll, runAll, history, List.foldl_append, List.foldl_map]
  rfl

/-- The last operation is run after the others. -/
theorem runAll_append_singleton (store : Store) (operations : List Operation) (operation : Operation) :
    store.runAll (operations ++ [operation]) = (operation.run (store.runAll operations)).2 := by
  simp [runAll]

/-- Nothing is written in an empty history. -/
theorem not_lastWrite_nil (name : String) (value : Value) : ¬LastWrite [] name value := by
  rintro ⟨before, after, heq, _⟩
  simp at heq

/-- The last operation is the last write to the name, or it neither clears nor writes to the name
and the last write came before it. -/
theorem lastWrite_append_singleton {operations : List Operation} {operation : Operation}
    {name : String} {value : Value} :
    LastWrite (operations ++ [operation]) name value ↔
      operation = .set name value ∨
        operation ≠ .clear ∧ (∀ other, operation ≠ .set name other) ∧ LastWrite operations name value := by
  constructor
  · rintro ⟨before, after, heq, hclear, hset⟩
    -- The last operation is the write itself, or it is the last one behind the write.
    rcases List.eq_nil_or_concat after with rfl | ⟨front, last, rfl⟩
    · obtain ⟨_, hlast⟩ := List.append_inj' heq rfl
      exact .inl (List.singleton_inj.mp hlast)
    · have hsplit : operations ++ [operation] = before ++ .set name value :: front ++ [last] := by
        simpa using heq
      obtain ⟨rfl, hlast⟩ := List.append_inj' hsplit rfl
      obtain rfl : operation = last := List.singleton_inj.mp hlast
      simp only [List.concat_eq_append, List.mem_append, List.mem_singleton, not_or] at hclear hset
      exact .inr ⟨Ne.symm hclear.2, fun other => Ne.symm (hset other).2, before, front, rfl, hclear.1,
        fun other => (hset other).1⟩
  · rintro (rfl | ⟨hclear, hset, before, after, rfl, hafter, hothers⟩)
    · exact ⟨operations, [], rfl, List.not_mem_nil, fun _ => List.not_mem_nil⟩
    · refine ⟨before, after ++ [operation], by simp, ?_, ?_⟩
      · simp [hafter, Ne.symm hclear]
      · intro other
        simp [hothers other, Ne.symm (hset other)]

/-- A store holds under each name the value last written to it. -/
theorem get?_runAll_eq_some_iff {operations : List Operation} {name : String} {value : Value} :
    (empty.runAll operations).get? name = some value ↔ LastWrite operations name value := by
  induction operations using List.reverseRecOn with
  | nil => exact iff_of_false (by simp [runAll]) (not_lastWrite_nil name value)
  | append_singleton operations operation ih =>
    rw [runAll_append_singleton, lastWrite_append_singleton]
    cases operation with
    | clear => simp [Operation.run]
    | set written new =>
      rw [Operation.run, replace, get?_set]
      by_cases hname : name = written
      · subst hname
        simp
      · simp [hname, Ne.symm hname, ih]

/-- Sorting puts the names in order. -/
theorem pairwise_sortByName (entries : List Entry) :
    (sortByName entries).Pairwise fun a b => a.1 ≤ b.1 := by
  have htrans : ∀ a b c : Entry, decide (a.1 ≤ b.1) = true → decide (b.1 ≤ c.1) = true →
      decide (a.1 ≤ c.1) = true := by
    intro a b c hab hbc
    exact decide_eq_true (String.le_trans (of_decide_eq_true hab) (of_decide_eq_true hbc))
  have htotal : ∀ a b : Entry, (decide (a.1 ≤ b.1) || decide (b.1 ≤ a.1)) = true := by
    intro a b
    simpa using String.le_total a.1 b.1
  refine (List.pairwise_mergeSort htrans htotal entries).imp ?_
  intro a b hab
  exact of_decide_eq_true hab

/-- The names of a store are listed once. -/
theorem nodup_names (store : Store) : (store.entries.map Prod.fst).Nodup := by
  refine List.pairwise_map.mpr (store.ordered.imp ?_)
  intro a b hlt heq
  exact String.lt_irrefl b.1 (heq ▸ hlt)

/-- Whatever order a map lists what is held under its names, sorting gives the entries. -/
theorem sortByName_eq_entries {store : Store} {written : List Entry}
    (hnodup : (written.map Prod.fst).Nodup)
    (h : ∀ name value, (name, value) ∈ written ↔ store.get? name = some value) :
    sortByName written = store.entries := by
  have hmem (entry : Entry) : entry ∈ written ↔ entry ∈ store.entries :=
    (h entry.1 entry.2).trans store.mem_entries_iff.symm
  have hperm : written.Perm store.entries :=
    (List.perm_ext_iff_of_nodup hnodup.of_map store.nodup_names.of_map).mpr hmem
  have hsorted : (sortByName written).Perm store.entries :=
    (List.mergeSort_perm written _).trans hperm
  have hordered : store.entries.Pairwise fun a b => a.1 ≤ b.1 := by
    refine store.ordered.imp ?_
    intro a b hlt
    exact String.not_lt.mp fun hgt => String.lt_irrefl a.1 (String.lt_trans hlt hgt)
  refine List.Perm.eq_of_pairwise ?_ (pairwise_sortByName written) hordered hsorted
  -- Entries with one name hold what is found under it, so they are equal.
  intro a b ha hb hab hba
  have hname : a.1 = b.1 := String.le_antisymm hab hba
  have hleft := store.mem_entries_iff.mp (hsorted.mem_iff.mp ha)
  have hright := store.mem_entries_iff.mp hb
  rw [hname, hright] at hleft
  exact Prod.ext hname (Option.some.inj hleft).symm

/-- What is held under names says what a store shows of its history. -/
theorem reflects_of_get? {store : Store} {operations : List Operation}
    (h : ∀ name value, store.get? name = some value ↔ LastWrite operations name value) :
    store.Reflects operations where
  present name value hlast := by
    have hvalue := (h name value).mpr hlast
    simp [contains, get, hvalue]
  absent name hnever := by
    have hnone : store.get? name = none :=
      Option.eq_none_iff_forall_ne_some.mpr fun value hvalue => hnever value ((h name value).mp hvalue)
    simp [contains, get, hnone]
  replaced name value old := h name old
  listed name value := store.mem_entries_iff.trans (h name value)
  listedOnce := store.nodup_names
  listedInOrder := store.ordered.imp Text.bytes_lt_bytes
  sorted written hnodup hwritten :=
    sortByName_eq_entries hnodup fun name value => (hwritten name value).trans (h name value).symm
  counted := rfl

/-- A store that comes from a seed and operations shows the last writes of its history, and two
such stores are equal exactly when their listings are, which is when the same last writes were
made in both histories. -/
theorem runAll_reflects_history :
    (∀ (seed : List Entry) (operations : List Operation),
      ((ofList seed).runAll operations).Reflects (history seed operations)) ∧
    ∀ (seed seed' : List Entry) (operations operations' : List Operation),
      ((ofList seed).runAll operations = (ofList seed').runAll operations' ↔
        ((ofList seed).runAll operations).entries = ((ofList seed').runAll operations').entries) ∧
      ((ofList seed).runAll operations = (ofList seed').runAll operations' ↔
        ∀ name value, LastWrite (history seed operations) name value ↔
          LastWrite (history seed' operations') name value) := by
  have hget (seed : List Entry) (operations : List Operation) (name : String) (value : Value) :
      ((ofList seed).runAll operations).get? name = some value ↔
        LastWrite (history seed operations) name value := by
    rw [runAll_ofList, get?_runAll_eq_some_iff]
  refine ⟨fun seed operations => reflects_of_get? (hget seed operations), ?_⟩
  intro seed seed' operations operations'
  refine ⟨⟨congrArg entries, ?_⟩, ?_, ?_⟩
  · intro hentries
    refine ext_get? fun name => ?_
    rw [get?, get?, hentries]
  · intro heq name value
    rw [← hget, ← hget, heq]
  · intro hlast
    refine ext_get? fun name => Option.ext fun value => ?_
    rw [hget, hget, hlast]

end GenomeScript.Store
