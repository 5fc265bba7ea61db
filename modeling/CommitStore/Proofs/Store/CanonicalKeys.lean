import CommitStore.Proofs.Location.Algebra
import CommitStore.Proofs.Store.MemoryEntries

/-!
# The keys of a store in memory

A path is a text, and not every way to build one brings it into canonical form: the directory form
is made by writing a separator behind the text.  It does no harm, since what stands in front of the
separator is canonical already.  So the texts that can be built, `Location.Built`, are the texts of
locations (`Location.built_iff`).

A store in memory takes such texts for keys as they are, when something is put or moved to a place,
and only those of objects.  Listing makes locations of the keys again and gets the same texts back,
and the texts of the directories that it finds above the keys end with a separator, as no key does.
`MemoryStore.KeepsCanonicalKeys` is all of this.
-/

namespace CommitStore

namespace Location

/-- The texts of paths.  Any raw text is brought into canonical form, which is what becomes of a
name or of a JSON string too, and the texts of two paths are joined and then brought into it.  The
directory form has a separator written behind the text, unless nothing or a separator stands there,
and is left as it is. -/
inductive Built : String → Prop
  | root : Built ""
  | ofRaw (raw : String) : Built (ofText raw).text
  | join {a b : String} (ha : Built a) (hb : Built b) :
      Built (if a = "" then b else (ofText (a ++ "/" ++ b)).text)
  | asDirectory {a : String} (ha : Built a) : Built (if a = "" ∨ EndsOpen a then a else a ++ "/")

/-- A text can be built exactly when it is the text of a location. -/
theorem built_iff {text : String} : Built text ↔ ∃ l : Location, l.text = text := by
  constructor
  · intro h
    induction h with
    | root => exact ⟨Location.root, rfl⟩
    | ofRaw raw => exact ⟨ofText raw, rfl⟩
    | join _ _ iha ihb =>
      obtain ⟨p, rfl⟩ := iha
      obtain ⟨q, rfl⟩ := ihb
      refine ⟨p.join q, ?_⟩
      rw [join_eq_ofText]
      split <;> rfl
    | asDirectory _ ih =>
      obtain ⟨p, rfl⟩ := ih
      exact ⟨p.asDirectory, text_asDirectory_eq p⟩
  · rintro ⟨l, rfl⟩
    simpa [ofText_text] using Built.ofRaw l.text

end Location

namespace MemoryStore

variable {s : MemoryStore} {query : Location}

/-- The keys that a listing starts from. -/
def foundKeys (s : MemoryStore) (query : Location) : List String :=
  (s.matching query.splitLast.1.text query.splitLast.2).map (·.1)

/-- The descriptions of the objects in a listing. -/
def objectEntries (s : MemoryStore) (query : Location) : List ObjectMeta :=
  (s.matching query.splitLast.1.text query.splitLast.2).map fun entry =>
    ObjectMeta.ofObject (.ofText entry.1) entry.2.content.size entry.2.lastModified

/-- The descriptions of the directories in a listing. -/
def directoryEntries (s : MemoryStore) (query : Location) : List ObjectMeta :=
  (listedDirectories query.splitLast.1.text (!query.splitLast.1.isRoot && query.splitLast.2.isEmpty)
    (s.foundKeys query)).filterMap fun d => s.impliedDirectory? (.ofText d)

/-- All keys are canonical texts of objects, and listings tell them from those of directories. -/
structure KeepsCanonicalKeys (s : MemoryStore) : Prop where
  ne_empty : ∀ key, (s.objects.get? key).isSome → key ≠ ""
  not_endsOpen : ∀ key, (s.objects.get? key).isSome → ¬ Location.EndsOpen key
  /-- Bringing a key into canonical form changes nothing. -/
  text_ofText : ∀ key, (s.objects.get? key).isSome → (Location.ofText key).text = key
  list_eq : ∀ query, s.list query = s.objectEntries query ++ s.directoryEntries query
  /-- An object is listed at its key, letter by letter. -/
  text_objectEntries : ∀ query, (s.objectEntries query).map (·.location.text) = s.foundKeys query
  /-- Whatever two listings are made, no object of the one is located where a directory of the other
  is. -/
  location_ne : ∀ query query', ∀ e ∈ s.objectEntries query, ∀ d ∈ s.directoryEntries query',
    e.location.text ≠ d.location.text

/-- An object whose key is found is listed at a location without a directory mark. -/
lemma Keyed.ofText_of_mem_matching (h : s.Keyed) {entry : String × StoredObject}
    (hentry : entry ∈ s.matching query.splitLast.1.text query.splitLast.2) :
    (Location.ofText entry.1).text = entry.1 ∧ (Location.ofText entry.1).directory = false := by
  obtain ⟨k, hk, htext, -⟩ := (mem_matching h query.asDirectory_splitLast).mp hentry
  rw [← htext, Location.ofText_text]
  exact ⟨rfl, (Location.isObject_iff.mp hk).2⟩

lemma directory_of_mem_directoryEntries {d : ObjectMeta} (h : d ∈ s.directoryEntries query) :
    d.location.directory = true := by
  obtain ⟨text, -, himplied⟩ := List.mem_filterMap.mp h
  exact isDirectory_of_impliedDirectory? himplied

/-- Where all keys are the texts of object locations, they are canonical. -/
theorem Keyed.keepsCanonicalKeys (h : s.Keyed) : s.KeepsCanonicalKeys where
  ne_empty key hkey := by
    obtain ⟨k, hk, rfl⟩ := h key hkey
    rw [Ne, Location.text_eq_empty_iff]
    exact (Location.isObject_iff.mp hk).1
  not_endsOpen key hkey := by
    obtain ⟨k, hk, rfl⟩ := h key hkey
    rw [Location.endsOpen_text_iff, (Location.isObject_iff.mp hk).2]
    exact Bool.false_ne_true
  text_ofText key hkey := by
    obtain ⟨k, -, rfl⟩ := h key hkey
    rw [Location.ofText_text]
  list_eq _ := rfl
  text_objectEntries query := by
    rw [objectEntries, foundKeys, List.map_map]
    exact List.map_congr_left fun entry hentry => (h.ofText_of_mem_matching hentry).1
  location_ne query query' e he d hd hsame := by
    obtain ⟨entry, hentry, rfl⟩ := List.mem_map.mp he
    have hobject := (h.ofText_of_mem_matching hentry).2
    have hdirectory := directory_of_mem_directoryEntries hd
    rw [← Location.text_eq_text_iff.mp hsame] at hdirectory
    exact absurd (hobject.symm.trans hdirectory) Bool.false_ne_true

/-- Whatever is done to a store in memory, with paths that are built in any way, its keys are
canonical texts of objects. -/
theorem Reachable.keys_canonical (h : s.Reachable) :
    s.KeepsCanonicalKeys ∧ ∀ text, Location.Built text ↔ ∃ l : Location, l.text = text :=
  ⟨h.keyed.keepsCanonicalKeys, fun _ => Location.built_iff⟩

/-- An object that was put at one place and moved to another one, which was written in a roundabout
way; a second one beside it; and two attempts to make a directory of an object, which are
refused. -/
def sampleOfMoved : MemoryStore :=
  let target := (Location.ofText "/d").asDirectory.join (.ofText "./é//x")
  Operation.run .empty
    [.put (.ofText "a//b") ⟨#[1]⟩ .epoch, .rename (.ofText "a/b") target,
      .put (.ofText "d/é-") ⟨#[2]⟩ .epoch, .put (.ofText "c/") ⟨#[3]⟩ .epoch,
      .claim target target.asDirectory]

theorem sampleOfMoved_canonical :
    (sampleOfMoved.KeepsCanonicalKeys ∧
      ∀ text, Location.Built text ↔ ∃ l : Location, l.text = text) ∧
      sampleOfMoved.foundKeys .root = ["d/é-", "d/é/x"] ∧
      (sampleOfMoved.list .root).map (·.location.text) = ["d/é-", "d/é/x", "d/", "d/é/"] :=
  ⟨Reachable.keys_canonical (.attempt (.attempt (.attempt (.attempt (.attempt .empty _) _) _) _) _),
    by decide +kernel, by decide +kernel⟩

end MemoryStore

end CommitStore
