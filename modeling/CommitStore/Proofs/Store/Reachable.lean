import CommitStore.Proofs.Store.Contents
import CommitStore.Proofs.Store.Operation

/-!
# Stores in memory that can be reached

Whatever is done to a store in memory, with locations of any kind, only object locations become
keys: a location with a directory mark is refused where something is put, and where something is
taken away it names no key.  So in every store with `MemoryStore.Reachable` the text of every key
can be read back as the location of an object.
-/

namespace CommitStore

namespace MemoryStore

variable {s : MemoryStore} {source target l : Location}

/-- The stores that operations on any locations, and removing everything, lead to. -/
inductive Reachable : MemoryStore → Prop
  | empty : Reachable .empty
  | attempt {s : MemoryStore} (h : Reachable s) (op : Operation) : Reachable (op.attempt s).2
  | clear {s : MemoryStore} (h : Reachable s) : Reachable s.clear

lemma keyed_empty : Keyed .empty := by
  intro key hkey
  cases hkey

lemma Keyed.insert (h : s.Keyed) (hl : l.isObject = true) (object : StoredObject) :
    Keyed ⟨s.objects.insert l.text object⟩ := by
  intro key hkey
  rw [SortedMap.get?_insert] at hkey
  split at hkey
  · rename_i htext
    exact ⟨l, hl, htext⟩
  · exact h key hkey

lemma Keyed.erase (h : s.Keyed) (text : String) : Keyed ⟨s.objects.erase text⟩ := by
  intro key hkey
  rw [SortedMap.get?_erase] at hkey
  split at hkey
  · cases hkey
  · exact h key hkey

lemma Keyed.moveOnto (h : s.Keyed) (htarget : target.isObject = true) :
    (s.moveOnto source target).2.Keyed := by
  rw [MemoryStore.moveOnto]
  split
  · exact (h.erase source.text).insert htarget _
  · exact h

/-- An operation adds no key but that of an object location. -/
lemma Keyed.attempt (h : s.Keyed) (op : Operation) : (op.attempt s).2.Keyed := by
  cases op with
  | put location content now =>
    show (s.put location content now).2.Keyed
    rw [MemoryStore.put]
    split
    · rename_i hobject
      exact h.insert hobject _
    · exact h
  | delete location =>
    show (s.delete location).2.Keyed
    rw [MemoryStore.delete]
    split
    · exact h.erase location.text
    · exact h
  | rename source target =>
    show (s.rename source target).2.Keyed
    rw [MemoryStore.rename]
    split
    · rename_i hobject
      exact h.moveOnto hobject
    · exact h
  | claim source target =>
    show (s.claim source target).2.Keyed
    rw [MemoryStore.claim]
    split
    · rename_i hobject
      split
      · exact h
      · exact h.moveOnto hobject
    · exact h
  | get location | head location | exists? location | list location => exact h

/-- Every key that can be reached is the text of an object location. -/
lemma Reachable.keyed (h : s.Reachable) : s.Keyed := by
  induction h with
  | empty => exact keyed_empty
  | attempt h op ih => exact ih.attempt op
  | clear h ih => exact keyed_empty

end MemoryStore

end CommitStore
