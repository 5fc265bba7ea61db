import CommitStore.Proofs.Store.MemoryEntries
import CommitStore.Proofs.Text.Order

/-!
# Scanning neighbouring keys

A store in memory never looks at all of its keys.  To find those that begin with a text it goes to
the first key that does not come before the text in the order of bytes, and stops at the first one
that does not begin with it.  Nothing is missed: in that order the keys with a common beginning
stand next to each other, and the beginning itself would stand in front of them.
`SortedMap.FindsBelow` says so on bytes.

So the newest time below a directory, which such a scan finds, is the newest among all keys below
it, the one that `MemoryStore.impliedByAll?` finds by a look at every key.
-/

namespace CommitStore

/-! ## Bytes and beginnings -/

namespace Text

/-- The bytes of no character begin with those of another one, whatever follows them. -/
lemma eq_of_utf8EncodeChar_append {c d : Char} {s t : List UInt8}
    (h : String.utf8EncodeChar c ++ s = String.utf8EncodeChar d ++ t) : c = d := by
  rcases lt_trichotomy c d with hlt | hsame | hlt
  · exact absurd (h ▸ utf8EncodeChar_append_lt hlt s t) (List.lt_irrefl _)
  · exact hsame
  · exact absurd (h ▸ utf8EncodeChar_append_lt hlt t s) (List.lt_irrefl _)

lemma flatMap_utf8EncodeChar_prefix_iff {a b : List Char} :
    a.flatMap String.utf8EncodeChar <+: b.flatMap String.utf8EncodeChar ↔ a <+: b := by
  induction a generalizing b with
  | nil => simp
  | cons c a ih =>
    cases b with
    | nil => simp
    | cons d b =>
      rw [List.flatMap_cons, List.flatMap_cons, List.cons_prefix_cons]
      constructor
      · rintro ⟨rest, hrest⟩
        rw [List.append_assoc] at hrest
        obtain rfl := eq_of_utf8EncodeChar_append hrest
        exact ⟨rfl, ih.mp ⟨rest, List.append_cancel_left hrest⟩⟩
      · rintro ⟨rfl, hprefix⟩
        exact (List.prefix_append_right_inj _).mpr (ih.mpr hprefix)

theorem bytes_prefix_iff {a b : String} : bytes a <+: bytes b ↔ a.toList <+: b.toList := by
  rw [bytes_eq_flatMap, bytes_eq_flatMap, flatMap_utf8EncodeChar_prefix_iff]

end Text

/-! ## The scan of a map -/

namespace SortedMap

variable {α : Type} {m : SortedMap α} {start : String}

/-- The entries below a text, found by a scan of neighbouring keys, are all that there are. -/
structure FindsBelow (m : SortedMap α) (start : String) : Prop where
  /-- The scan begins at the first key that does not come before the text, and stops at the first
  one that does not begin with it, both byte by byte. -/
  scan : m.below start =
    (m.entries.dropWhile fun entry => Text.bytes entry.1 < Text.bytes start).takeWhile
      fun entry => (Text.bytes start).isPrefixOf (Text.bytes entry.1)
  /-- A look at every entry finds the same ones. -/
  eq_filter : m.below start =
    m.entries.filter fun entry => (Text.bytes start).isPrefixOf (Text.bytes entry.1)
  mem_iff : ∀ key value, (key, value) ∈ m.below start ↔
    m.get? key = some value ∧ Text.bytes start <+: Text.bytes key
  ascending : (m.below start).Pairwise fun a b => Text.bytes a.1 < Text.bytes b.1

lemma isPrefixOf_bytes (start key : String) :
    (Text.bytes start).isPrefixOf (Text.bytes key) = start.toList.isPrefixOf key.toList := by
  rw [Bool.eq_iff_iff, List.isPrefixOf_iff_prefix, List.isPrefixOf_iff_prefix,
    Text.bytes_prefix_iff]

/-- A scan of neighbouring keys finds all entries below a text, in their order. -/
theorem findsBelow (m : SortedMap α) (start : String) : m.FindsBelow start where
  scan := by
    simp only [isPrefixOf_bytes, Text.bytes_lt_iff]
    rfl
  eq_filter := by
    simp only [isPrefixOf_bytes]
    exact m.below_eq_filter start
  mem_iff key value := by
    rw [mem_below, get?_eq_some_iff, Text.bytes_prefix_iff]
  ascending := by
    rw [below_eq_filter]
    exact (m.ascending.imp Text.bytes_lt_iff.mpr).filter _

end SortedMap

/-! ## The directories of a store in memory -/

namespace MemoryStore

variable {s : MemoryStore} {l : Location}

/-- The directory at a location, by a look at every key. -/
def impliedByAll? (s : MemoryStore) (l : Location) : Option ObjectMeta :=
  if l.isRoot then none
  else
    (newest? ((s.objects.entries.filter fun entry =>
        (Text.bytes l.asDirectory.text).isPrefixOf (Text.bytes entry.1)).map
        (·.2.lastModified))).map
      (ObjectMeta.ofDirectory l)

/-- What is known of the directory at a location: its time is the newest below it, and it is there
if there is one.  The root of the store is never described. -/
structure KnowsDirectory (s : MemoryStore) (l : Location) : Prop where
  eq_impliedByAll? : s.impliedDirectory? l = s.impliedByAll? l
  eq_some_iff : ∀ e, s.impliedDirectory? l = some e ↔
    l.isRoot = false ∧ ∃ time, s.NewestBelow l.asDirectory.text time ∧ e = ⟨l.asDirectory, 0, time⟩
  eq_none_iff : s.impliedDirectory? l = none ↔
    l.isRoot = true ∨ ∀ key, (s.objects.get? key).isSome →
    ¬ l.asDirectory.text.toList <+: key.toList

theorem knowsDirectory (s : MemoryStore) (l : Location) : s.KnowsDirectory l where
  eq_impliedByAll? := by
    rw [impliedDirectory?, impliedByAll?, (s.objects.findsBelow _).eq_filter]
  eq_some_iff e := by
    cases hroot : l.isRoot with
    | true => simp [impliedDirectory?, hroot]
    | false =>
      rw [impliedDirectory?_eq_some_iff_newestBelow hroot]
      simp
  eq_none_iff := by
    cases hroot : l.isRoot with
    | true => simp [impliedDirectory?, hroot]
    | false => simpa using impliedDirectory?_eq_none_iff hroot

/-- In every sorted map, scanning neighbouring keys finds exactly the entries whose key begins with
a text, in their order.  So in every store in memory the scan for a directory finds the newest time
of all keys below it, and nothing exactly when there is no such key or the directory is the root. -/
theorem scan_misses_nothing :
    (∀ (α : Type) (m : SortedMap α) (start : String), m.FindsBelow start) ∧
    ∀ (s : MemoryStore) (l : Location), s.KnowsDirectory l :=
  ⟨fun _ m start => m.findsBelow start, knowsDirectory⟩

end MemoryStore

end CommitStore
