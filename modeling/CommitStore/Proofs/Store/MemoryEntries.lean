import CommitStore.Proofs.Store.MemoryListing
import CommitStore.Proofs.Store.Reachable
import Mathlib.Data.List.TakeWhile

/-!
# The entries of a listing in memory

A listing cuts its query in two, looks for keys below the first part, compares names with the second
part and collects directories on the way.  What comes out can be said without any of that, and
`MemoryStore.ListsExactly` says it: one entry for each key that begins with the text of the query
(`MemoryStore.IsObjectEntry`), and one for each beginning of a key that ends with a separator and
itself begins with that text (`MemoryStore.IsDirectoryEntry`).  The time of a directory is the
newest of those below it.
-/

namespace CommitStore

/-! ## The newest of some instants -/

namespace Instant

variable {a b c : Instant}

lemma le_iff : a ≤ b ↔ a.seconds < b.seconds ∨ a.seconds = b.seconds ∧ a.nanos ≤ b.nanos := Iff.rfl

lemma le_rfl : a ≤ a := .inr ⟨rfl, Nat.le_refl _⟩

lemma le_of_not_le (h : ¬ a ≤ b) : b ≤ a := by
  rw [le_iff] at h ⊢
  omega

lemma le_trans (hab : a ≤ b) (hbc : b ≤ c) : a ≤ c := by
  rw [le_iff] at hab hbc ⊢
  omega

lemma le_antisymm (hab : a ≤ b) (hba : b ≤ a) : a = b := by
  rw [le_iff] at hab hba
  apply Instant.ext <;> omega

lemma le_later_left : a ≤ later a b := by
  unfold later
  split
  · assumption
  · exact le_rfl

lemma le_later_right : b ≤ later a b := by
  unfold later
  split
  · exact le_rfl
  · exact le_of_not_le ‹_›

lemma later_eq_or (a b : Instant) : later a b = a ∨ later a b = b := by
  unfold later
  split
  · exact .inr rfl
  · exact .inl rfl

/-- The latest of some instants is one of them, and none of them is after it. -/
lemma foldl_later (first : Instant) (times : List Instant) :
    times.foldl later first ∈ first :: times ∧
      ∀ t ∈ first :: times, t ≤ times.foldl later first := by
  induction times generalizing first with
  | nil => simp [le_rfl]
  | cons next times ih =>
    obtain ⟨hmem, hle⟩ := ih (later first next)
    have hlatest : later first next ≤ times.foldl later (later first next) :=
      hle _ List.mem_cons_self
    constructor
    · rcases List.mem_cons.mp hmem with hsame | hmem
      · rw [List.foldl_cons, hsame]
        rcases later_eq_or first next with h | h <;> simp [h]
      · exact List.mem_cons_of_mem _ (List.mem_cons_of_mem _ hmem)
    · intro t ht
      rcases List.mem_cons.mp ht with rfl | ht
      · exact le_trans le_later_left hlatest
      · rcases List.mem_cons.mp ht with rfl | ht
        · exact le_trans le_later_right hlatest
        · exact hle t (List.mem_cons_of_mem _ ht)

end Instant

/-! ## Lists without repetition, and maps as a whole -/

lemma nodup_eraseDups {α : Type} [BEq α] [LawfulBEq α] (xs : List α) : xs.eraseDups.Nodup := by
  induction hlength : xs.length using Nat.strongRecOn generalizing xs with
  | _ n ih =>
    cases xs with
    | nil => simp
    | cons x xs =>
      rw [List.eraseDups_cons, List.nodup_cons, List.mem_eraseDups]
      refine ⟨by simp, ih _ ?_ _ rfl⟩
      rw [← hlength, List.length_cons, Nat.lt_succ_iff]
      exact List.length_filter_le _ _

lemma SortedMap.below_empty {α : Type} (m : SortedMap α) : m.below "" = m.entries := by
  rw [below_eq_filter, List.filter_eq_self]
  simp

namespace MemoryStore

variable {s : MemoryStore} {query l : Location} {start text : String} {e : ObjectMeta}

lemma newest?_eq_some_iff {times : List Instant} {time : Instant} :
    newest? times = some time ↔ time ∈ times ∧ ∀ t ∈ times, t ≤ time := by
  cases times with
  | nil => simp [newest?]
  | cons first times =>
    obtain ⟨hmem, hle⟩ := Instant.foldl_later first times
    rw [newest?, Option.some.injEq]
    constructor
    · rintro rfl
      exact ⟨hmem, hle⟩
    · rintro ⟨hmem', hle'⟩
      exact Instant.le_antisymm (hle' _ hmem) (hle _ hmem')

/-! ## The entries, told by the keys -/

/-- The time is the newest of those of the objects whose key begins with a text. -/
structure NewestBelow (s : MemoryStore) (text : String) (time : Instant) : Prop where
  exists_key : ∃ key object, s.objects.get? key = some object ∧ text.toList <+: key.toList ∧
    object.lastModified = time
  le : ∀ key object, s.objects.get? key = some object → text.toList <+: key.toList →
    object.lastModified ≤ time

/-- The entry of an object whose key begins with `start`. -/
def IsObjectEntry (s : MemoryStore) (start : String) (e : ObjectMeta) : Prop :=
  ∃ key object, s.objects.get? key = some object ∧ start.toList <+: key.toList ∧
    e = ⟨.ofText key, object.content.size, object.lastModified⟩

/-- The entry of a text that ends with a separator, begins with `start` and is the beginning of a
key. -/
def IsDirectoryEntry (s : MemoryStore) (start : String) (e : ObjectMeta) : Prop :=
  ∃ text time, text.toList.getLast? = some '/' ∧ start.toList <+: text.toList ∧
    s.NewestBelow text time ∧ e = ⟨.ofText text, 0, time⟩

/-- Listings tell exactly what the keys tell. -/
structure ListsExactly (s : MemoryStore) : Prop where
  list_ok : ∀ query, ObjectStore.list s query = .ok (s.list query)
  /-- No entry is given twice, and there is one for each key and each directory above a key. -/
  nodup : ∀ query, (s.list query).Nodup
  mem_iff : ∀ query e, e ∈ s.list query ↔
    s.IsObjectEntry query.text e ∨ s.IsDirectoryEntry query.text e
  /-- An entry is located at the key or at the text that it stands for. -/
  text_key : ∀ key, (s.objects.get? key).isSome →
    (Location.ofText key).text = key ∧ (Location.ofText key).directory = false
  text_directory : ∀ text key, text.toList.getLast? = some '/' → (s.objects.get? key).isSome →
    text.toList <+: key.toList →
      (Location.ofText text).text = text ∧ (Location.ofText text).directory = true
  exists_newest : ∀ text key, (s.objects.get? key).isSome → text.toList <+: key.toList →
    ∃ time, s.NewestBelow text time
  /-- A listing is the part of the whole one that begins with the text of the query. -/
  perm_filter : ∀ query, (s.list query).Perm
    ((s.list .root).filter fun e => query.text.toList.isPrefixOf e.location.text.toList)
  size : s.size = (ObjectMeta.objects (s.list .root)).length
  totalBytes : s.totalBytes =
    (ObjectMeta.objects (s.list .root)).foldr (fun object bytes => object.2 + bytes) 0

/-! ## Directories above a key -/

/-- The pieces of a text that end with a separator are among its beginnings. -/
lemma mem_directoryTexts_iff_prefix {piece full : List Char} :
    piece ∈ directoryTexts full ↔ piece <+: full ∧ piece.getLast? = some '/' := by
  induction full generalizing piece with
  | nil =>
    simp only [directoryTexts, List.not_mem_nil, List.prefix_nil, false_iff, not_and]
    rintro rfl
    simp
  | cons c rest ih =>
    have hmem : piece ∈ directoryTexts (c :: rest) ↔ (c = '/' ∧ piece = [c]) ∨
        ∃ tail, (tail <+: rest ∧ tail.getLast? = some '/') ∧ c :: tail = piece := by
      simp only [← ih]
      by_cases hc : c = '/' <;> simp [directoryTexts, hc]
    rw [hmem]
    constructor
    · rintro (⟨rfl, rfl⟩ | ⟨tail, ⟨htail, hend⟩, rfl⟩)
      · simp
      · exact ⟨List.cons_prefix_cons.mpr ⟨rfl, htail⟩, by simp [List.getLast?_cons, hend]⟩
    · rintro ⟨hbegins, hend⟩
      cases piece with
      | nil => cases hend
      | cons d tail =>
        obtain ⟨rfl, htail⟩ := List.cons_prefix_cons.mp hbegins
        by_cases hone : tail = []
        · subst hone
          exact .inl ⟨by simpa using hend, rfl⟩
        · rw [List.getLast?_cons_of_ne_nil hone] at hend
          exact .inr ⟨tail, ⟨htail, hend⟩, rfl⟩

/-- A beginning of a key that ends with a separator is the text of a directory. -/
lemma exists_directory_of_prefix (hkeyed : s.Keyed) {key : String}
    (hkey : (s.objects.get? key).isSome) (hend : text.toList.getLast? = some '/')
    (hbegins : text.toList <+: key.toList) :
    ∃ l : Location, l.text = text ∧ l.directory = true := by
  obtain ⟨k, hk, rfl⟩ := hkeyed key hkey
  have hjoined : k.text.toList = Text.joinWith '/' (k.names.map String.toList) := by
    simp [Location.text, (Location.isObject_iff.mp hk).2]
  have hpiece := mem_directoryTexts_iff_prefix.mpr ⟨hbegins, hend⟩
  rw [hjoined] at hpiece
  obtain ⟨front, after, hfront, -, hnames, htext⟩ :=
    (mem_directoryTexts (fun name hname => (k.isName_of_mem name hname).2.2) _).mp hpiece
  have hvalid : ∀ name ∈ front, IsName name := fun name hname =>
    k.isName_of_mem name (by rw [hnames]; exact List.mem_append_left _ hname)
  refine ⟨⟨front, true, hvalid, fun h => absurd h hfront⟩, ?_, rfl⟩
  rw [← String.toList_inj, htext]
  simp [Location.text]

lemma newestBelow_iff {time : Instant} :
    newest? ((s.objects.below text).map (·.2.lastModified)) = some time ↔
      s.NewestBelow text time := by
  have hbelow : ∀ t, t ∈ (s.objects.below text).map (·.2.lastModified) ↔
      ∃ key object, s.objects.get? key = some object ∧ text.toList <+: key.toList ∧
        object.lastModified = t := by
    intro t
    simp only [List.mem_map, SortedMap.mem_below, SortedMap.get?_eq_some_iff, Prod.exists,
      and_assoc]
  rw [newest?_eq_some_iff, hbelow]
  constructor
  · rintro ⟨hkey, hle⟩
    exact ⟨hkey, fun key object hobject hbegins =>
      hle _ ((hbelow _).mpr ⟨key, object, hobject, hbegins, rfl⟩)⟩
  · rintro ⟨hkey, hle⟩
    refine ⟨hkey, fun t ht => ?_⟩
    obtain ⟨key, object, hobject, hbegins, rfl⟩ := (hbelow t).mp ht
    exact hle key object hobject hbegins

lemma exists_newestBelow {key : String} (hkey : (s.objects.get? key).isSome)
    (hbegins : text.toList <+: key.toList) : ∃ time, s.NewestBelow text time := by
  obtain ⟨object, hobject⟩ := Option.isSome_iff_exists.mp hkey
  have hmem : (key, object) ∈ s.objects.below text :=
    SortedMap.mem_below.mpr ⟨SortedMap.get?_eq_some_iff.mp hobject, hbegins⟩
  have hsome : newest? ((s.objects.below text).map (·.2.lastModified)) ≠ none := by
    rw [Ne, newest?_eq_none_iff, List.map_eq_nil_iff]
    exact List.ne_nil_of_mem hmem
  obtain ⟨time, htime⟩ := Option.ne_none_iff_exists'.mp hsome
  exact ⟨time, newestBelow_iff.mp htime⟩

lemma impliedDirectory?_eq_some_iff_newestBelow (hl : l.isRoot = false) :
    s.impliedDirectory? l = some e ↔
    ∃ time, s.NewestBelow l.asDirectory.text time ∧ e = ⟨l.asDirectory, 0, time⟩ := by
  rw [impliedDirectory?, hl, if_neg (by simp), Option.map_eq_some_iff]
  refine exists_congr fun time => and_congr newestBelow_iff ?_
  rw [ObjectMeta.ofDirectory, eq_comm]

lemma impliedDirectory?_eq_some_iff (hl : l.directory = true) : s.impliedDirectory? l = some e ↔
    ∃ time, s.NewestBelow l.text time ∧ e = ⟨l, 0, time⟩ := by
  have hroot : l.isRoot = false := by
    simpa [Location.isRoot] using Location.names_ne_nil_of_directory hl
  rw [impliedDirectory?_eq_some_iff_newestBelow hroot, Location.asDirectory_of_directory hl]

/-! ## The objects of a listing -/

lemma mem_objectEntries (hkeyed : s.Keyed) (query : Location) :
    e ∈ (s.matching query.splitLast.1.text query.splitLast.2).map (fun entry =>
        ObjectMeta.ofObject (.ofText entry.1) entry.2.content.size entry.2.lastModified) ↔
      s.IsObjectEntry query.text e := by
  rw [List.mem_map]
  constructor
  · rintro ⟨entry, hentry, rfl⟩
    obtain ⟨k, hk, htext, hkey, hmatches⟩ :=
      (mem_matching hkeyed query.asDirectory_splitLast).mp hentry
    refine ⟨entry.1, entry.2, hkey, ?_, rfl⟩
    rw [← htext]
    exact (Location.matches_splitLast_iff query hk).mp hmatches
  · rintro ⟨key, object, hkey, hbegins, rfl⟩
    obtain ⟨k, hk, rfl⟩ := hkeyed key (by simp [hkey])
    have hmatches := (Location.matches_splitLast_iff query hk).mpr hbegins
    exact ⟨(k.text, object),
      (mem_matching hkeyed query.asDirectory_splitLast).mpr ⟨k, hk, rfl, hkey, hmatches⟩, rfl⟩

lemma location_of_isObjectEntry (hkeyed : s.Keyed) (h : s.IsObjectEntry start e) :
    start.toList <+: e.location.text.toList ∧ e.isDirectory = false := by
  obtain ⟨key, object, hkey, hbegins, rfl⟩ := h
  obtain ⟨k, hk, rfl⟩ := hkeyed key (by simp [hkey])
  rw [ObjectMeta.isDirectory, Location.ofText_text]
  exact ⟨hbegins, (Location.isObject_iff.mp hk).2⟩

/-! ## The directories of a listing -/

/-- The entry of a directory stands at the text that it is made for. -/
lemma exists_of_isDirectoryEntry (hkeyed : s.Keyed) (h : s.IsDirectoryEntry start e) :
    ∃ l : Location, l.directory = true ∧ start.toList <+: l.text.toList ∧
      ∃ time, s.NewestBelow l.text time ∧ e = ⟨l, 0, time⟩ := by
  obtain ⟨text, time, hend, hstart, hnewest, rfl⟩ := h
  obtain ⟨key, object, hkey, hbegins, -⟩ := hnewest.exists_key
  obtain ⟨l, rfl, hl⟩ := exists_directory_of_prefix hkeyed (by simp [hkey]) hend hbegins
  exact ⟨l, hl, hstart, time, hnewest, by rw [Location.ofText_text]⟩

lemma mem_directoryEntries (hkeyed : s.Keyed) (query : Location) :
    e ∈ (listedDirectories query.splitLast.1.text
        (!query.splitLast.1.isRoot && query.splitLast.2.isEmpty)
        ((s.matching query.splitLast.1.text query.splitLast.2).map (·.1))).filterMap
          (fun d => s.impliedDirectory? (.ofText d)) ↔
      s.IsDirectoryEntry query.text e := by
  have hdirectory := query.asDirectory_splitLast
  rw [List.mem_filterMap]
  constructor
  · rintro ⟨text, htext, himplied⟩
    obtain ⟨l, rfl, hl, hcovers, -⟩ := exists_of_mem_listedDirectories hkeyed hdirectory htext
    rw [Location.ofText_text, impliedDirectory?_eq_some_iff hl] at himplied
    obtain ⟨time, hnewest, rfl⟩ := himplied
    refine ⟨l.text, time, ?_, (Location.covers_splitLast_iff query hl).mp hcovers, hnewest, ?_⟩
    · rw [Location.text_of_directory hl]
      simp
    · rw [Location.ofText_text]
  · intro h
    obtain ⟨l, hl, hstart, time, hnewest, rfl⟩ := exists_of_isDirectoryEntry hkeyed h
    obtain ⟨key, object, hkey, hbegins, -⟩ := hnewest.exists_key
    obtain ⟨k, hk, rfl⟩ := hkeyed key (by simp [hkey])
    have hcontent : s.content? k = some object.content := by
      rw [content?, hkey]
      rfl
    have hmatches := (Location.matches_splitLast_iff query hk).mpr (hstart.trans hbegins)
    have hbelow := hbegins
    rw [← Location.asDirectory_of_directory hl, Location.prefix_text_iff hk] at hbelow
    obtain ⟨after, hafter, hnames⟩ := hbelow
    refine ⟨l.text, ?_, ?_⟩
    · exact mem_listedDirectories_of_covers hkeyed hdirectory hl
        ((Location.covers_splitLast_iff query hl).mpr hstart) hk hcontent hmatches hafter hnames
    · rw [Location.ofText_text]
      exact (impliedDirectory?_eq_some_iff hl).mpr ⟨time, hnewest, rfl⟩

/-! ## All entries -/

lemma mem_list_iff (hkeyed : s.Keyed) (query : Location) (e : ObjectMeta) : e ∈ s.list query ↔
    s.IsObjectEntry query.text e ∨ s.IsDirectoryEntry query.text e := by
  rw [← mem_objectEntries hkeyed, ← mem_directoryEntries hkeyed, ← List.mem_append]
  rfl

lemma nodup_list (hkeyed : s.Keyed) (query : Location) : (s.list query).Nodup := by
  have hdirectory := query.asDirectory_splitLast
  refine List.nodup_append.mpr ⟨?_, ?_, ?_⟩
  · apply List.Nodup.of_map fun e : ObjectMeta => e.location.names
    rw [List.map_map]
    exact nodup_matching hkeyed hdirectory
  · -- A directory is described with the text that it was found by.
    rw [List.Nodup, List.pairwise_filterMap]
    refine List.Pairwise.imp_of_mem (fun htext htext' hne e he e' he' => ?_) (nodup_eraseDups _)
    obtain ⟨l, rfl, hl, -⟩ := exists_of_mem_listedDirectories hkeyed hdirectory htext
    obtain ⟨l', rfl, hl', -⟩ := exists_of_mem_listedDirectories hkeyed hdirectory htext'
    rw [Location.ofText_text, impliedDirectory?_eq_some_iff hl] at he
    rw [Location.ofText_text, impliedDirectory?_eq_some_iff hl'] at he'
    obtain ⟨time, -, rfl⟩ := he
    obtain ⟨time', -, rfl⟩ := he'
    rintro ⟨⟩
    exact hne rfl
  · intro e he e' he' hsame
    obtain ⟨-, hobject⟩ := location_of_isObjectEntry hkeyed ((mem_objectEntries hkeyed query).mp he)
    obtain ⟨l, hl, -, time, -, hentry⟩ :=
      exists_of_isDirectoryEntry hkeyed ((mem_directoryEntries hkeyed query).mp he')
    rw [hsame, hentry, ObjectMeta.isDirectory, hl] at hobject
    cases hobject

/-- The text of every entry begins with the text of the query, and there are no others that do. -/
lemma mem_list_iff_root (hkeyed : s.Keyed) (query : Location) (e : ObjectMeta) :
    e ∈ s.list query ↔ e ∈ s.list .root ∧ query.text.toList <+: e.location.text.toList := by
  rw [mem_list_iff hkeyed, mem_list_iff hkeyed]
  constructor
  · rintro (h | h)
    · have hstart := (location_of_isObjectEntry hkeyed h).1
      obtain ⟨key, object, hkey, -, rfl⟩ := h
      exact ⟨.inl ⟨key, object, hkey, Location.root_text_prefix key, rfl⟩, hstart⟩
    · obtain ⟨l, -, hstart, _, -, hentry⟩ := exists_of_isDirectoryEntry hkeyed h
      obtain ⟨text, time, hend, -, hnewest, rfl⟩ := h
      refine ⟨.inr ⟨text, time, hend, Location.root_text_prefix text, hnewest, rfl⟩, ?_⟩
      rw [hentry]
      exact hstart
  · rintro ⟨h | h, hstart⟩
    · obtain ⟨key, object, hkey, -, rfl⟩ := h
      obtain ⟨k, -, rfl⟩ := hkeyed key (by simp [hkey])
      rw [Location.ofText_text] at hstart
      exact .inl ⟨k.text, object, hkey, hstart, by rw [Location.ofText_text]⟩
    · obtain ⟨l, hl, -, time, hnewest, rfl⟩ := exists_of_isDirectoryEntry hkeyed h
      refine .inr ⟨l.text, time, ?_, hstart, hnewest, by rw [Location.ofText_text]⟩
      rw [Location.text_of_directory hl]
      simp

lemma perm_filter_list (hkeyed : s.Keyed) (query : Location) : (s.list query).Perm
    ((s.list .root).filter fun e => query.text.toList.isPrefixOf e.location.text.toList) := by
  rw [List.perm_ext_iff_of_nodup (nodup_list hkeyed query) ((nodup_list hkeyed .root).filter _)]
  intro e
  rw [mem_list_iff_root hkeyed, List.mem_filter, List.isPrefixOf_iff_prefix]

/-- The objects of the whole listing are the entries of the map. -/
lemma objects_list_root (hkeyed : s.Keyed) : ObjectMeta.objects (s.list .root) =
    s.objects.entries.map fun entry => (.ofText entry.1, entry.2.content.size) := by
  have hall : s.matching Location.root.splitLast.1.text Location.root.splitLast.2 =
      s.objects.entries := by
    show (s.objects.below "").filter (fun entry => "".toList.isPrefixOf _) = _
    rw [SortedMap.below_empty, List.filter_eq_self]
    simp
  rw [objects_list, hall, ObjectMeta.objects, List.filter_eq_self.mpr, List.map_map]
  · rfl
  · intro e he
    obtain ⟨entry, hentry, rfl⟩ := List.mem_map.mp he
    have hkey := SortedMap.get?_eq_some_iff.mpr hentry
    obtain ⟨k, hk, htext⟩ := hkeyed entry.1 (by simp [hkey])
    simp [ObjectMeta.isDirectory, ObjectMeta.ofObject, ← htext, Location.ofText_text,
      (Location.isObject_iff.mp hk).2]

/-- In every store that can be reached, listings tell exactly what the keys tell. -/
theorem Reachable.listsExactly (h : s.Reachable) : s.ListsExactly where
  list_ok _ := rfl
  nodup := nodup_list h.keyed
  mem_iff := mem_list_iff h.keyed
  text_key key hkey := by
    obtain ⟨k, hk, rfl⟩ := h.keyed key hkey
    rw [Location.ofText_text]
    exact ⟨rfl, (Location.isObject_iff.mp hk).2⟩
  text_directory text key hend hkey hbegins := by
    obtain ⟨l, rfl, hl⟩ := exists_directory_of_prefix h.keyed hkey hend hbegins
    rw [Location.ofText_text]
    exact ⟨rfl, hl⟩
  exists_newest _ _ := exists_newestBelow
  perm_filter := perm_filter_list h.keyed
  size := by
    rw [objects_list_root h.keyed, List.length_map]
    rfl
  totalBytes := by
    rw [objects_list_root h.keyed, List.foldr_map]
    rfl

/-- The objects `a`, `a/é` and `ab/c`, one after the other. -/
def sampleOfThree : MemoryStore :=
  let add (name : String) (now : Instant) (s : MemoryStore) : MemoryStore :=
    ((Operation.put (.ofText name) ⟨#[1, 2]⟩ now).attempt s).2
  add "ab/c" ⟨3, 0, by decide⟩ (add "a/é" ⟨2, 0, by decide⟩ (add "a" ⟨1, 0, by decide⟩ .empty))

/-- An object and a directory of the same name stand side by side. -/
theorem sampleOfThree_listsExactly :
    sampleOfThree.ListsExactly ∧ sampleOfThree.size = 3 ∧
      (sampleOfThree.list (.ofText "a")).map (fun e => (e.location.text, e.size)) =
        [("a", 2), ("a/é", 2), ("ab/c", 2), ("a/", 0), ("ab/", 0)] :=
  ⟨Reachable.listsExactly (.attempt (.attempt (.attempt .empty _) _) _), by decide +kernel⟩

end MemoryStore

end CommitStore
