import CommitStore.Proofs.Store.Conservation
import CommitStore.Proofs.Store.PutEffect
import Mathlib.Data.Multiset.MapFold

/-!
# What is stored is what can be read

`Backend.stored` looks past the operations of a store: it is read off the keys of a map, or off the
files below the root directory.  Here it is tied to the operations.  Where the whole listing
succeeds, the objects that it lists are one by one what is stored, and `get` answers each of their
locations with the stored bytes.

In a directory this asks for a root path that leads there.  As long as it does not, `Backend.stored`
still counts the files, and nothing can be listed or read.
-/

namespace CommitStore

/-- The objects of a listing, with their descriptions. -/
def ObjectMeta.onlyObjects (entries : List ObjectMeta) : List ObjectMeta :=
  entries.filter fun m => !m.isDirectory

lemma ObjectMeta.mem_onlyObjects {entries : List ObjectMeta} {m : ObjectMeta} :
    m ∈ onlyObjects entries ↔ m ∈ entries ∧ m.isDirectory = false := by
  simp [onlyObjects]

lemma ObjectMeta.nodup_onlyObjects {entries : List ObjectMeta} (h : entries.Nodup) :
    (onlyObjects entries).Nodup :=
  h.filter _

/-! ## In memory -/

namespace MemoryStore

variable {s : MemoryStore}

/-- The description of the object under a key. -/
def describe (entry : String × StoredObject) : ObjectMeta :=
  .ofObject (.ofText entry.1) entry.2.content.size entry.2.lastModified

lemma Keyed.text_ofText (hkeyed : s.Keyed) {entry : String × StoredObject}
    (hentry : entry ∈ s.objects.entries) :
    (Location.ofText entry.1).text = entry.1 ∧ (Location.ofText entry.1).isObject = true := by
  obtain ⟨k, hk, htext⟩ := hkeyed entry.1 (by simp [SortedMap.get?_eq_some_iff.mpr hentry])
  rw [← htext, Location.ofText_text]
  exact ⟨rfl, hk⟩

lemma perm_onlyObjects (hkeyed : s.Keyed) :
    (ObjectMeta.onlyObjects (s.list .root)).Perm (s.objects.entries.map describe) := by
  have hnodup : (s.objects.entries.map describe).Nodup := by
    refine (SortedMap.nodup_entries _).map_on fun entry hentry other hother hsame => ?_
    have hkey : entry.1 = other.1 := by
      rw [← (hkeyed.text_ofText hentry).1, ← (hkeyed.text_ofText hother).1]
      exact congrArg (fun m => m.location.text) hsame
    have hentry' := SortedMap.get?_eq_some_iff.mpr hentry
    rw [hkey, SortedMap.get?_eq_some_iff.mpr hother] at hentry'
    exact Prod.ext hkey (Option.some.inj hentry').symm
  have hlisted := ObjectMeta.nodup_onlyObjects (nodup_list hkeyed .root)
  refine (List.perm_ext_iff_of_nodup hlisted hnodup).mpr fun m => ?_
  rw [ObjectMeta.mem_onlyObjects, mem_list_iff hkeyed, List.mem_map]
  constructor
  · rintro ⟨⟨key, object, hkey, -, rfl⟩ | hdirectory, hmark⟩
    · exact ⟨(key, object), SortedMap.get?_eq_some_iff.mp hkey, rfl⟩
    · obtain ⟨k, hk, -, time, -, rfl⟩ := exists_of_isDirectoryEntry hkeyed hdirectory
      rw [ObjectMeta.isDirectory, hk] at hmark
      cases hmark
  · rintro ⟨entry, hentry, rfl⟩
    have hobject : s.IsObjectEntry Location.root.text (describe entry) :=
      ⟨entry.1, entry.2, SortedMap.get?_eq_some_iff.mpr hentry, Location.root_text_prefix _, rfl⟩
    exact ⟨.inl hobject, (location_of_isObjectEntry hkeyed hobject).2⟩

lemma get_describe (hkeyed : s.Keyed) {entry : String × StoredObject}
    (hentry : entry ∈ s.objects.entries) :
    ObjectStore.get s (describe entry).location = .ok entry.2.content := by
  obtain ⟨htext, hobject⟩ := hkeyed.text_ofText hentry
  have hcontent : s.content? (.ofText entry.1) = some entry.2.content := by
    rw [content?, htext, SortedMap.get?_eq_some_iff.mpr hentry]
    rfl
  show ObjectStore.get s (.ofText entry.1) = _
  rw [get_eq hobject, hcontent]

end MemoryStore

/-! ## In a directory -/

namespace DiskStore

variable {s : DiskStore} {entries : List ObjectMeta}

/-- The description of a file below the root directory. -/
def describeFile (s : DiskStore) (file : List String × ByteArray) : ObjectMeta :=
  s.entryAt file.1 (.file file.2)

lemma mem_filesBelow_base (hwf : s.host.tree.WellFormed) (hopen : s.IsOpen)
    {file : List String × ByteArray} : file ∈ s.host.filesBelow s.base ↔
      file.1 ≠ [] ∧ s.view file.1 = some (.file file.2) := by
  rw [view_of_isOpen hopen]
  exact Host.mem_filesBelow hwf

lemma perm_onlyObjects (hwf : s.host.tree.WellFormed) (hroot : s.root.text ≠ "") (hopen : s.IsOpen)
    (hlist : s.list .root = .ok entries) :
    (ObjectMeta.onlyObjects entries).Perm ((s.host.filesBelow s.base).map s.describeFile) := by
  have hfile : ∀ file, file ∈ s.host.filesBelow s.base ↔
      file.1 ≠ [] ∧ s.view file.1 = some (.file file.2) := fun _ => mem_filesBelow_base hwf hopen
  have hnodup : ((s.host.filesBelow s.base).map s.describeFile).Nodup := by
    refine (Host.nodup_filesBelow hwf s.base).map_on fun file hmem other hmem' hsame => ?_
    obtain ⟨-, hview⟩ := (hfile file).mp hmem
    obtain ⟨-, hview'⟩ := (hfile other).mp hmem'
    have hnames : file.1 = other.1 := by
      rw [← names_entryAt (isName_of_view hwf hview) s (.file file.2),
        ← names_entryAt (isName_of_view hwf hview') s (.file other.2)]
      exact congrArg (fun m => m.location.names) hsame
    rw [hnames, hview'] at hview
    exact Prod.ext hnames (Entry.file.inj (Option.some.inj hview)).symm
  have hlisted := ObjectMeta.nodup_onlyObjects (nodup_of_list hwf hroot hlist)
  refine (List.perm_ext_iff_of_nodup hlisted hnodup).mpr fun m => ?_
  rw [ObjectMeta.mem_onlyObjects, mem_list_root hwf hroot hlist, List.mem_map]
  constructor
  · rintro ⟨⟨names, entry, hne, hview, rfl⟩, hmark⟩
    cases entry with
    | file content => exact ⟨(names, content), (hfile _).mpr ⟨hne, hview⟩, rfl⟩
    | folder =>
      have hdirectory := (directory_entryAt (isName_of_view hwf hview) s hne .folder).mpr rfl
      rw [ObjectMeta.isDirectory, hdirectory] at hmark
      cases hmark
  · rintro ⟨⟨names, content⟩, hmem, rfl⟩
    obtain ⟨hne, hview⟩ := (hfile _).mp hmem
    refine ⟨⟨names, _, hne, hview, rfl⟩, ?_⟩
    rw [ObjectMeta.isDirectory, Bool.eq_false_iff, Ne,
      describeFile, directory_entryAt (isName_of_view hwf hview) s hne]
    simp

/-- A file that is listed can be read: its path is not too long, or there would be no listing. -/
lemma get_describeFile (hs : s.host.Sound) (hroot : s.root.text ≠ "") (hopen : s.IsOpen)
    (hlist : s.list .root = .ok entries) {file : List String × ByteArray}
    (hmem : file ∈ s.host.filesBelow s.base) :
    ObjectStore.get s (s.describeFile file).location = .ok file.2 := by
  obtain ⟨hne, hview⟩ := (mem_filesBelow_base hs.wellFormed hopen).mp hmem
  have hself := names_entryAt (isName_of_view hs.wellFormed hview) s (.file file.2)
  have hlisted : s.describeFile file ∈ entries :=
    (mem_list_root hs.wellFormed hroot hlist _).mpr ⟨file.1, _, hne, hview, rfl⟩
  refine get_eq_ok_iff.mpr
    ⟨admits_of_view hs ?_ ?_ (isLong_of_mem_list hs.wellFormed hlist hlisted), ?_⟩
  · rwa [describeFile, hself]
  · simp [describeFile, hself, hview]
  · rwa [describeFile, hself]

end DiskStore

/-! ## In a store of either kind -/

namespace Backend

variable {b : Backend} {entries : List ObjectMeta}

/-- The time of an object, where the store keeps one for each. -/
def keptTime (b : Backend) (m : ObjectMeta) : Option Instant :=
  match b with
  | memory _ => some m.lastModified
  | disk _ => none

/-- What is stored is what reading the objects of the whole listing gives, each with its time, and
each of them can be read. -/
theorem Reachable.stored_eq (hb : b.Reachable)
    (hopen : ∀ s, b = .disk s → s.root.text ≠ "" ∧ s.IsOpen)
    (hlist : ObjectStore.list b .root = .ok entries) :
    b.stored.map (fun stored => (Except.ok stored.1, stored.2)) =
      .ofList ((ObjectMeta.onlyObjects entries).map fun m =>
        (ObjectStore.get b m.location, b.keptTime m)) := by
  cases b with
  | memory s =>
    have hkeyed := MemoryStore.Reachable.keyed hb
    obtain rfl : s.list .root = entries := Except.ok.inj hlist
    rw [stored, Multiset.map_coe, List.map_map, Multiset.coe_eq_coe]
    refine List.Perm.trans (.of_eq ?_) ((MemoryStore.perm_onlyObjects hkeyed).map _).symm
    rw [List.map_map]
    refine List.map_congr_left fun entry hentry => Prod.ext ?_ rfl
    exact (MemoryStore.get_describe hkeyed hentry).symm
  | disk s =>
    have hsound := DiskStore.Reachable.sound hb
    obtain ⟨hroot, hopen⟩ := hopen s rfl
    have hperm := DiskStore.perm_onlyObjects hsound.wellFormed hroot hopen hlist
    rw [stored, Multiset.map_coe, List.map_map, Multiset.coe_eq_coe]
    refine List.Perm.trans (.of_eq ?_) (hperm.map _).symm
    rw [List.map_map]
    refine List.map_congr_left fun file hmem => Prod.ext ?_ rfl
    exact (DiskStore.get_describeFile hsound hroot hopen hlist hmem).symm

end Backend

end CommitStore
