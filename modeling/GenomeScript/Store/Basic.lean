import GenomeScript.Store.Entries

/-!
# Stores

A store maps names to values. It is represented by its listing: the entries are kept in increasing
order of names, each name once, as a map in no order would list them after sorting by name. So a
listing needs no sorting here, and two stores with the same values under the same names are equal. A
name that was never written reads as zero.
-/

namespace GenomeScript

/-- The sysvars: names with values, in increasing order of names. -/
structure Store where
  entries : List Store.Entry
  ordered : Store.Ordered entries
deriving DecidableEq

namespace Store

/-- The store in which nothing was written. -/
def empty : Store := ⟨[], .nil⟩

/-- The value written under a name, if one was. -/
def get? (store : Store) (name : String) : Option Value :=
  lookup name store.entries

/-- The value that a name reads as; zero if it was never written. -/
def get (store : Store) (name : String) : Value :=
  (store.get? name).getD 0

/-- Whether a name was written. -/
def contains (store : Store) (name : String) : Bool :=
  (store.get? name).isSome

/-- Write a value under a name. -/
def set (store : Store) (name : String) (value : Value) : Store :=
  ⟨insert name value store.entries, ordered_insert name value store.ordered⟩

/-- Write a value under a name and give the value that it replaces. -/
def replace (store : Store) (name : String) (value : Value) : Option Value × Store :=
  (store.get? name, store.set name value)

/-- Write entries one after the other, so that a later one prevails. -/
def setAll (store : Store) (entries : List Entry) : Store :=
  entries.foldl (fun store entry => store.set entry.1 entry.2) store

/-- The store seeded with entries. -/
def ofList (entries : List Entry) : Store :=
  empty.setAll entries

/-- The number of names written. -/
def size (store : Store) : Nat := store.entries.length

/-- Whether no name was written. -/
def isEmpty (store : Store) : Bool := store.entries.isEmpty

/-- The line that shows an entry. -/
def showEntry (entry : Entry) : String :=
  entry.1 ++ " = " ++ Numeral.render entry.2 ++ "\n"

/-- The store as text: a line for each name, in order. -/
def display (store : Store) : String :=
  String.join (store.entries.map showEntry)

@[simp] theorem get?_empty (name : String) : empty.get? name = none := rfl

@[simp] theorem get?_set_self (store : Store) (name : String) (value : Value) :
    (store.set name value).get? name = some value :=
  lookup_insert_self name value store.entries

theorem get?_set_of_ne (store : Store) {name other : String} (h : other ≠ name) (value : Value) :
    (store.set name value).get? other = store.get? other :=
  lookup_insert_of_ne h value store.entries

/-- What a name reads as after one write. -/
theorem get?_set (store : Store) (name other : String) (value : Value) :
    (store.set name value).get? other = if other = name then some value else store.get? other := by
  split
  next h => rw [h, get?_set_self]
  next h => exact get?_set_of_ne store h value

/-- The entries are the names with the values found under them. -/
theorem mem_entries_iff (store : Store) {name : String} {value : Value} :
    (name, value) ∈ store.entries ↔ store.get? name = some value :=
  (lookup_eq_some_iff store.ordered).symm

/-- Stores that hold the same values under the same names are equal. -/
@[ext] theorem ext_get? {s t : Store} (h : ∀ name, s.get? name = t.get? name) : s = t := by
  obtain ⟨xs, hx⟩ := s
  obtain ⟨ys, hy⟩ := t
  have heq : xs = ys := entries_ext hx hy h
  subst heq
  rfl

end Store

end GenomeScript
