import CommitStore.Proofs.Host.Ways
import CommitStore.Proofs.Store.DiskListing

/-!
# The entries of a listing in a directory

A listing resolves the directory part of its query, walks below it, compares the first name of every
entry with the name part, and puts the location of the entry together again.  When it succeeds, what
comes out can be said without any of that, and `DiskStore.ListsExactly` says it: one entry for each
file and each directory below the root whose text begins with the text of the query.
-/

namespace CommitStore

namespace DiskStore

variable {s : DiskStore} {query directory : Location} {start : String} {entries : List ObjectMeta}
variable {names rest : List String} {inside : Directory} {e : ObjectMeta} {entry : Entry}

/-- The entries are those of all files and directories below the root whose text begins with that of
the query. -/
structure ListsExactly (s : DiskStore) (query : Location) (entries : List ObjectMeta) : Prop where
  /-- No entry is given twice, and there is one for each file and each directory. -/
  nodup : entries.Nodup
  mem_iff : ∀ e, e ∈ entries ↔ ∃ names entry, names ≠ [] ∧ s.view names = some entry ∧
    e = s.entryAt names entry ∧ query.text.toList <+: e.location.text.toList
  /-- An entry is located at its names, and that of a directory has the mark of one. -/
  text_entryAt : ∀ names entry, names ≠ [] → s.view names = some entry →
    (s.entryAt names entry).location.names = names ∧
      (s.entryAt names entry).location.text.toList = Text.joinWith '/' (names.map String.toList) ++
        if entry = .folder then ['/'] else []
  /-- The entries are those of the whole listing whose text begins with that of the query. -/
  perm_filter : ∀ all, ObjectStore.list s .root = .ok all →
    entries.Perm (all.filter fun e => query.text.toList.isPrefixOf e.location.text.toList)

/-! ## The location of an entry -/

section EntryAt

variable (hnames : ∀ name ∈ names, IsName name)
include hnames

/-- An entry belongs to a query by its first name below the directory part, or it is the directory
part. -/
lemma prefix_entryAt_iff (s : DiskStore) (hne : names ≠ []) (entry : Entry) :
    query.text.toList <+: (s.entryAt names entry).location.text.toList ↔
      query.splitLast.1.Matches query.splitLast.2 names ∨
        (entry = .folder ∧ names = query.splitLast.1.names ∧ query.splitLast.1.isRoot = false ∧
          query.splitLast.2 = "") := by
  have hkind := s.directory_entryAt hnames hne entry
  have hself := s.names_entryAt hnames entry
  cases entry with
  | file content =>
    have hobject : (s.entryAt names (.file content)).location.isObject = true := by
      rw [Location.isObject_iff, hself]
      exact ⟨hne, by simpa using hkind⟩
    rw [← Location.matches_splitLast_iff query hobject, hself]
    simp
  | folder =>
    rw [← Location.covers_splitLast_iff query (hkind.mpr rfl), hself, Location.Covers]
    simp

lemma text_entryAt (s : DiskStore) (hne : names ≠ []) (entry : Entry) :
    (s.entryAt names entry).location.text.toList = Text.joinWith '/' (names.map String.toList) ++
      if entry = .folder then ['/'] else [] := by
  have hkind := s.directory_entryAt hnames hne entry
  rw [Location.text, s.names_entryAt hnames entry]
  simp [hkind]

end EntryAt

/-! ## All entries -/

lemma isName_of_view (hwf : s.host.tree.WellFormed) (hview : s.view names = some entry) :
    ∀ name ∈ names, IsName name := by
  rw [view_of_isOpen (isOpen_of_view_eq hview)] at hview
  exact isName_of_layout hwf hview

lemma found_of_list (hroot : s.root.text ≠ "") (h : s.list query = .ok entries) :
    query.splitLast.1.hasParentName = false ∧
      ((entries = [] ∧ s.view query.splitLast.1.names ≠ some .folder) ∨
        ∃ inside, s.host.lookup (s.path query.splitLast.1) = .ok (.folder inside) ∧
          s.view query.splitLast.1.names = some .folder ∧
          entries = s.listing query.splitLast.1 query.splitLast.2 inside) := by
  obtain ⟨hparent, -⟩ := list_cases h
  refine ⟨hparent, ?_⟩
  have hway := fun hfolder => Host.lookup_ne_missing
    (text_path_ne_empty_of_root hroot query.splitLast.1) (allFolders_path hparent hfolder)
  rw [list_eq hparent] at h
  split at h
  · rename_i hlookup
    exact .inl ⟨(Except.ok.inj h).symm, fun hfolder => (hway hfolder).1 hlookup⟩
  · cases h
  · rename_i content hlookup
    exact .inl ⟨(Except.ok.inj h).symm, fun hfolder => (hway hfolder).2 content hlookup⟩
  · rename_i inside hlookup
    split at h
    · cases h
    · have hfolder := Host.allFolders_of_lookup hlookup
      rw [start_path, components_path] at hfolder
      exact .inr ⟨inside, hlookup,
        view_of_allFolders (Location.isEntryName_of_mem hparent) hfolder, (Except.ok.inj h).symm⟩

lemma nodup_of_list (hwf : s.host.tree.WellFormed) (hroot : s.root.text ≠ "")
    (h : s.list query = .ok entries) : entries.Nodup := by
  obtain ⟨hparent, ⟨rfl, -⟩ | ⟨inside, hlookup, -, rfl⟩⟩ := found_of_list hroot h
  · exact List.nodup_nil
  · exact (nodup_names_listing (wellFormed_inside hwf hparent hlookup) _ _ _).of_map

/-- The directory part of a query is there if anything belongs to the query. -/
lemma folder_of_begins (hne : names ≠ []) (hnames : ∀ name ∈ names, IsName name)
    (hview : s.view names = some entry)
    (hbegins : query.text.toList <+: (s.entryAt names entry).location.text.toList) :
    s.view query.splitLast.1.names = some .folder := by
  rcases (prefix_entryAt_iff hnames s hne entry).mp hbegins with hmatches | ⟨rfl, rfl, -⟩
  · obtain ⟨rest, hrest, rfl⟩ := hmatches.below
    exact view_of_append hrest (by simp [hview])
  · exact hview

lemma mem_iff_of_list (hwf : s.host.tree.WellFormed) (hroot : s.root.text ≠ "")
    (h : s.list query = .ok entries) (e : ObjectMeta) : e ∈ entries ↔ ∃ names entry, names ≠ [] ∧
      s.view names = some entry ∧ e = s.entryAt names entry ∧
      query.text.toList <+: e.location.text.toList := by
  obtain ⟨hparent, ⟨rfl, hmissing⟩ | ⟨inside, hlookup, hfolder, rfl⟩⟩ := found_of_list hroot h
  · refine ⟨fun he => absurd he List.not_mem_nil, ?_⟩
    rintro ⟨names, entry, hne, hview, rfl, hbegins⟩
    exact absurd (folder_of_begins hne (isName_of_view hwf hview) hview hbegins) hmissing
  · have hview := view_of_isOpen (isOpen_of_view_eq hfolder)
    rw [mem_listing hwf hparent hlookup]
    constructor
    · rintro ⟨names, entry, hne, hlayout, rfl, hbelongs⟩
      refine ⟨names, entry, hne, (hview names).trans hlayout, rfl, ?_⟩
      exact (prefix_entryAt_iff (isName_of_layout hwf hlayout) s hne entry).mpr hbelongs
    · rintro ⟨names, entry, hne, hentry, rfl, hbegins⟩
      refine ⟨names, entry, hne, (hview names).symm.trans hentry, rfl, ?_⟩
      exact (prefix_entryAt_iff (isName_of_view hwf hentry) s hne entry).mp hbegins

/-- A listing that succeeds consists of the entries of all files and directories below the root
whose text begins with that of the query. -/
theorem listsExactly_of_list (hwf : s.host.tree.WellFormed) (hroot : s.root.text ≠ "")
    (h : ObjectStore.list s query = .ok entries) : s.ListsExactly query entries where
  nodup := nodup_of_list hwf hroot h
  mem_iff := mem_iff_of_list hwf hroot h
  text_entryAt names entry hne hview :=
    have hnames := isName_of_view hwf hview
    ⟨names_entryAt hnames s entry, text_entryAt hnames s hne entry⟩
  perm_filter all hall := by
    rw [List.perm_ext_iff_of_nodup (nodup_of_list hwf hroot h)
      ((nodup_of_list hwf hroot hall).filter _)]
    intro e
    rw [mem_iff_of_list hwf hroot h, List.mem_filter, mem_iff_of_list hwf hroot hall,
      List.isPrefixOf_iff_prefix]
    constructor
    · rintro ⟨names, entry, hne, hview, rfl, hbegins⟩
      exact ⟨⟨names, entry, hne, hview, rfl, List.nil_prefix⟩, hbegins⟩
    · rintro ⟨⟨names, entry, hne, hview, rfl, -⟩, hbegins⟩
      exact ⟨names, entry, hne, hview, rfl, hbegins⟩

/-- A store in the directory `t` with the objects `a/b` and `ab`. -/
def sampleOfTwo : DiskStore :=
  let start : DiskStore := ⟨.bare ["w"], ⟨"t"⟩, .hardLink, .epoch⟩
  (ObjectStore.put (ObjectStore.put start (.ofText "a/b") ⟨#[1]⟩ .epoch).2 (.ofText "ab")
    ⟨#[1, 2]⟩ .epoch).2

theorem sampleOfTwo_listsExactly :
    sampleOfTwo.ListsExactly (.ofText "a") [sampleOfTwo.entryAt ["a"] .folder,
      sampleOfTwo.entryAt ["a", "b"] (.file ⟨#[1]⟩),
      sampleOfTwo.entryAt ["ab"] (.file ⟨#[1, 2]⟩)] :=
  listsExactly_of_list (by decide +kernel) (by decide) (by decide +kernel)

end DiskStore

end CommitStore
