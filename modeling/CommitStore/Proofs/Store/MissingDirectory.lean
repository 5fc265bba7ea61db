import CommitStore.Proofs.Store.DiskEntries
import CommitStore.Proofs.Store.MemoryEntries

/-!
# Listing where there is no directory

When there is no directory at the directory part of a query, there is nothing to list.  In memory
the answer is then the empty list.  In a directory it depends on what the host says: for an entry
that is missing, and for an object at the directory part itself, the listing is empty as well; but
where the way leads through an object the host says `notDirectory`, which a listing, unlike `get`
and `head`, does not take for an absence.  `DiskStore.ListsMissing` tells the cases apart, by
`DiskStore.meetsFile_path_iff`.
-/

namespace CommitStore

namespace MemoryStore

/-- A listing in memory is empty where no key begins with its query. -/
lemma list_eq_nil {s : MemoryStore} {query : Location} (hkeyed : s.Keyed)
    (hnone : ∀ key, (s.objects.get? key).isSome → ¬ query.text.toList <+: key.toList) :
    s.list query = [] := by
  rw [List.eq_nil_iff_forall_not_mem]
  intro e he
  rcases (mem_list_iff hkeyed query e).mp he with
    ⟨key, object, hkey, hbegins, -⟩ | ⟨text, time, -, hstart, h, -⟩
  · exact hnone key (by simp [hkey]) hbegins
  · obtain ⟨key, object, hkey, hbegins, -⟩ := h.exists_key
    exact hnone key (by simp [hkey]) (hstart.trans hbegins)

end MemoryStore

namespace DiskStore

variable {s : DiskStore} {query l : Location} {front rest : List String} {content : ByteArray}

/-- What a listing answers where there is no directory. -/
structure ListsMissing (s : DiskStore) (query : Location) : Prop where
  list_eq_nil_iff : ObjectStore.list s query = .ok [] ↔
    ¬ s.host.MeetsFile (s.path query.splitLast.1)
  list_eq_error : s.host.MeetsFile (s.path query.splitLast.1) →
    ObjectStore.list s query = .error (.listFailed query)
  /-- In an open store a file is met exactly below an object. -/
  meetsFile_iff : s.IsOpen → (s.host.MeetsFile (s.path query.splitLast.1) ↔
    ∃ front rest content, query.splitLast.1.names = front ++ rest ∧ rest ≠ [] ∧
      s.view front = some (.file content))
  /-- With no other objects than the store, a store in memory lists nothing in any case. -/
  memory : ∀ m : MemoryStore, m.Reachable →
    (∀ (k : Location) object, k.isObject = true → m.objects.get? k.text = some object →
      s.view k.names = some (.file object.content)) →
    ObjectStore.list m query = .ok []

lemma lookup_below_file (hl : s.Admits l) (hnames : l.names = front ++ rest) (hrest : rest ≠ [])
    (hfile : s.view front = some (.file content)) :
    s.host.lookup (s.path l) = .error .notDirectory := by
  have hopen := isOpen_of_view_eq hfile
  rw [view_of_isOpen hopen] at hfile
  have hentry := Location.isEntryName_of_mem hl.no_parent
  have hshort : ∀ c ∈ l.names, isLongName c = false := fun c hc => hl.fits.2.2 c (by
    rw [components_path]
    exact List.mem_append_right _ hc)
  rw [hnames] at hentry hshort
  have hfront : s.host.follow s.base front = .ok (s.base ++ front) :=
    Host.follow_names (fun c hc => hentry c (List.mem_append_left _ hc))
      (fun c hc => hshort c (List.mem_append_left _ hc)) (by simp [hfile])
  obtain ⟨c, more, rfl⟩ := List.exists_cons_of_ne_nil hrest
  rw [Host.lookup_of_check (HostPath.check_eq_ok hl.fits (text_path_ne_empty hl.names_ne_nil)),
    start_path, components_path, hnames, Host.follow_append, follow_root hl.fits hopen]
  simp [Except.bind, Host.follow_append, hfront, Host.follow_cons, hfile]

/-- In an open store a file is met exactly below an object. -/
lemma meetsFile_path_iff (hwf : s.host.WellFormed) (hl : s.Admits l) (hopen : s.IsOpen) :
    s.host.MeetsFile (s.path l) ↔
      ∃ front rest content, l.names = front ++ rest ∧ rest ≠ [] ∧
        s.view front = some (.file content) := by
  have hsome : s.host.layout (s.host.start (s.path l)) ≠ none := by simp [Host.layout_start hwf]
  rw [← Host.lookup_eq_notDirectory_iff hl.fits hsome]
  constructor
  · intro hlookup
    obtain ⟨before, place, after, content, hroute, -, -, hfile⟩ :=
      (Host.lookup_eq_notDirectory_iff hl.fits hsome).mp hlookup
    have hplace : place ∈ route (s.host.start s.root) (s.root.components ++ l.names) := by
      rw [← start_path, ← components_path, hroute]
      simp
    rcases mem_route_append.mp hplace with hroot | hbelow
    · rw [hopen place hroot] at hfile
      cases hfile
    obtain ⟨front, ⟨rest, hnames⟩, rfl⟩ := mem_route_iff.mp hbelow
    have hentry : ∀ c ∈ front, Directory.IsEntryName c := fun c hc =>
      Location.isEntryName_of_mem hl.no_parent c (by simp [← hnames, hc])
    rw [settle_of_isEntryName hentry] at hfile
    have hview : s.view front = some (.file content) := by
      rw [view_of_isOpen hopen]
      exact hfile
    refine ⟨front, rest, content, hnames.symm, ?_, hview⟩
    rintro rfl
    -- An object at the end of the way would be found.
    rw [List.append_nil] at hnames
    rw [hnames] at hview
    obtain ⟨node, hlocate, -⟩ := locate_of_view hl (by simp [hview])
    rw [Host.lookup, hlocate] at hlookup
    cases hlookup
  · rintro ⟨front, rest, content, hnames, hrest, hfile⟩
    exact lookup_below_file hl hnames hrest hfile

/-- A store in memory without other objects lists nothing where there is no directory. -/
lemma memory_list_eq_nil {m : MemoryStore} (hkeyed : m.Keyed)
    (hshared : ∀ (k : Location) object, k.isObject = true → m.objects.get? k.text = some object →
      s.view k.names = some (.file object.content))
    (hnone : s.view query.splitLast.1.names ≠ some .folder) : m.list query = [] := by
  refine MemoryStore.list_eq_nil hkeyed fun key hkey hbegins => hnone ?_
  obtain ⟨k, hk, rfl⟩ := hkeyed key hkey
  obtain ⟨object, hobject⟩ := Option.isSome_iff_exists.mp hkey
  have hview := hshared k object hk hobject
  obtain ⟨rest, hrest, hnames⟩ := ((Location.matches_splitLast_iff query hk).mpr hbegins).below
  rw [hnames] at hview
  exact view_of_append hrest (by simp [hview])

/-- Where there is no directory, the listing is empty or fails for a file on the way. -/
lemma list_of_view_ne_folder (hwf : s.host.WellFormed)
    (hparent : query.splitLast.1.hasParentName = false) (hfits : (s.path query.splitLast.1).Fits)
    (hnone : s.view query.splitLast.1.names ≠ some .folder) :
    (s.list query = .ok [] ∧ ¬ s.host.MeetsFile (s.path query.splitLast.1)) ∨
      (s.list query = .error (.listFailed query) ∧
        s.host.MeetsFile (s.path query.splitLast.1)) := by
  have hmeets := Host.lookup_eq_notDirectory_iff hfits
    (show s.host.layout (s.host.start (s.path query.splitLast.1)) ≠ none by
      simp [Host.layout_start hwf])
  rw [list_eq hparent, ← hmeets]
  cases hlookup : s.host.lookup (s.path query.splitLast.1) with
  | error e => rcases Host.lookup_error hfits hlookup with rfl | rfl <;> simp
  | ok node =>
    cases node with
    | file content => simp
    | folder inside =>
      have hway := Host.allFolders_of_lookup hlookup
      rw [start_path, components_path] at hway
      exact absurd (view_of_allFolders (Location.isEntryName_of_mem hparent) hway) hnone

/-- Where there is no directory, a listing is empty unless the way leads through a file. -/
theorem listsMissing_of_view_ne_folder (hwf : s.host.WellFormed)
    (hparent : query.splitLast.1.hasParentName = false) (hfits : (s.path query.splitLast.1).Fits)
    (hnone : s.view query.splitLast.1.names ≠ some .folder) : s.ListsMissing query where
  list_eq_nil_iff := by
    show s.list query = .ok [] ↔ _
    rcases list_of_view_ne_folder hwf hparent hfits hnone with ⟨hlist, hmeets⟩ | ⟨hlist, hmeets⟩ <;>
      simp [hlist, hmeets]
  list_eq_error hmeets :=
    ((list_of_view_ne_folder hwf hparent hfits hnone).resolve_left fun h => h.2 hmeets).1
  meetsFile_iff hopen := by
    have hroot : query.splitLast.1.isRoot = false := by
      cases hroot : query.splitLast.1.isRoot with
      | false => rfl
      | true =>
        have hnames : query.splitLast.1.names = [] := by simpa [Location.isRoot] using hroot
        rw [hnames, view_of_isOpen hopen, List.append_nil] at hnone
        exact absurd (hopen _ (settle_mem_route _ _)) hnone
    exact meetsFile_path_iff hwf ⟨hroot, hparent, hfits⟩ hopen
  memory m hm hshared := congrArg Except.ok (memory_list_eq_nil hm.keyed hshared hnone)

/-- A store in the directory `t` with the object `a`. -/
def sampleOfOne : DiskStore :=
  (ObjectStore.put (⟨.bare ["w"], ⟨"t"⟩, .hardLink, .epoch⟩ : DiskStore) (.ofText "a")
    ⟨#[1]⟩ .epoch).2

lemma wellFormed_sampleOfOne : sampleOfOne.host.WellFormed :=
  ⟨by decide +kernel, Host.layout_eq_folder_iff.mp (by decide +kernel)⟩

/-- One listing where an entry is missing, and one below an object. -/
theorem sampleOfOne_listsMissing :
    sampleOfOne.ListsMissing (.ofText "b/") ∧ sampleOfOne.ListsMissing (.ofText "a/b/") ∧
      ObjectStore.list sampleOfOne (.ofText "b/") = .ok [] :=
  ⟨listsMissing_of_view_ne_folder wellFormed_sampleOfOne (by decide +kernel) (by decide +kernel)
      (by decide +kernel),
    listsMissing_of_view_ne_folder wellFormed_sampleOfOne (by decide +kernel) (by decide +kernel)
      (by decide +kernel),
    by decide +kernel⟩

/-- There is no directory below an object, where `get` finds nothing, and still a listing fails
there. -/
theorem list_below_object_fails :
    let directory := (Location.ofText "a/b/").splitLast.1
    directory.hasParentName = false ∧ (sampleOfOne.path directory).Fits ∧
      sampleOfOne.view directory.names ≠ some .folder ∧
      ObjectStore.get sampleOfOne directory = .error (.notFound directory) ∧
      ObjectStore.list sampleOfOne (.ofText "a/b/") = .error (.listFailed (.ofText "a/b/")) := by
  decide +kernel

end DiskStore

end CommitStore
