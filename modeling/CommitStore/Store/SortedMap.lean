/-!
# Maps sorted by their keys

A map from texts to values, kept as the list of its entries in ascending order of the keys.  The
keys that begin with a given text stand next to each other, from the first key that is not below
that text on, so they are found without looking at the rest (`SortedMap.below`).
-/

namespace CommitStore

/-- A finite map with its entries in strictly ascending order of the keys. -/
@[ext]
structure SortedMap (α : Type) where
  entries : List (String × α)
  ascending : entries.Pairwise fun a b => a.1 < b.1

namespace SortedMap

variable {α : Type}

/-- The map without entries. -/
def empty : SortedMap α := ⟨[], .nil⟩

instance : Inhabited (SortedMap α) := ⟨empty⟩

/-- The value under a key. -/
def get? (m : SortedMap α) (key : String) : Option α :=
  (m.entries.find? fun entry => entry.1 = key).map (·.2)

/-- Whether there is a value under a key. -/
def contains (m : SortedMap α) (key : String) : Bool := m.entries.any fun entry => entry.1 = key

/-- The number of entries. -/
def size (m : SortedMap α) : Nat := m.entries.length

/-- Remove the entry of a key. -/
def erase (m : SortedMap α) (key : String) : SortedMap α where
  entries := m.entries.filter fun entry => entry.1 ≠ key
  ascending := m.ascending.filter _

/-- Put an entry into a list of entries, at its place and over an entry with its key. -/
def insertEntry (key : String) (value : α) : List (String × α) → List (String × α)
  | [] => [(key, value)]
  | entry :: entries =>
    if key < entry.1 then (key, value) :: entry :: entries
    else if key = entry.1 then (key, value) :: entries
    else entry :: insertEntry key value entries

theorem mem_insertEntry {key : String} {value : α} {entries : List (String × α)}
    {entry : String × α} (h : entry ∈ insertEntry key value entries) :
    entry = (key, value) ∨ entry ∈ entries := by
  induction entries with
  | nil => simpa [insertEntry] using h
  | cons first rest ih =>
    unfold insertEntry at h
    split at h
    · simpa using h
    · split at h
      · simp only [List.mem_cons] at h ⊢
        rcases h with h | h
        · exact .inl h
        · exact .inr (.inr h)
      · simp only [List.mem_cons] at h ⊢
        rcases h with h | h
        · exact .inr (.inl h)
        · rcases ih h with h | h
          · exact .inl h
          · exact .inr (.inr h)

theorem pairwise_insertEntry (key : String) (value : α) {entries : List (String × α)}
    (h : entries.Pairwise fun a b => a.1 < b.1) :
    (insertEntry key value entries).Pairwise fun a b => a.1 < b.1 := by
  induction entries with
  | nil => simp [insertEntry]
  | cons first rest ih =>
    rw [List.pairwise_cons] at h
    unfold insertEntry
    split
    · rename_i hlt
      refine List.pairwise_cons.mpr ⟨?_, List.pairwise_cons.mpr h⟩
      intro entry hentry
      rcases List.mem_cons.mp hentry with rfl | hentry
      · exact hlt
      · exact String.lt_trans hlt (h.1 entry hentry)
    · rename_i hnlt
      split
      · rename_i heq
        exact List.pairwise_cons.mpr ⟨fun entry hentry => heq ▸ h.1 entry hentry, h.2⟩
      · rename_i hne
        refine List.pairwise_cons.mpr ⟨?_, ih h.2⟩
        intro entry hentry
        rcases mem_insertEntry hentry with rfl | hentry
        · exact Std.lt_of_le_of_ne (String.not_lt.mp hnlt) (Ne.symm hne)
        · exact h.1 entry hentry

/-- Put a value under a key, over the value that is there. -/
def insert (m : SortedMap α) (key : String) (value : α) : SortedMap α where
  entries := insertEntry key value m.entries
  ascending := pairwise_insertEntry key value m.ascending

/-- The entries whose key begins with `start`: those from the first key that is not below `start`
on, as long as the keys begin with it. -/
def below (m : SortedMap α) (start : String) : List (String × α) :=
  (m.entries.dropWhile fun entry => entry.1 < start).takeWhile fun entry =>
    start.toList.isPrefixOf entry.1.toList

end SortedMap

end CommitStore
