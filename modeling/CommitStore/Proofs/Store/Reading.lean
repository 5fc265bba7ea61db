import CommitStore.Proofs.Store.BelowObject
import CommitStore.Proofs.Store.DiskEntries
import CommitStore.Proofs.Store.MemoryEntries
import CommitStore.Proofs.Store.Putting
import CommitStore.Proofs.Store.Strategies

/-!
# One story

What stands at a location can be read in four ways: by its bytes, by its description, by asking
whether it is there, and by looking for it in a listing.  The four ways are implemented apart from
each other, and they tell the same (`ObjectStore.ReadsAgree`, and for the whole store
`Backend.TellsOneStory`).

Only the whole listing may be missing from the story: in a directory it fails as soon as the path of
a single entry has become too long for the host, whatever else is there
(`DiskStore.list_root_fails`).
-/

namespace CommitStore

namespace Location

lemma eq_or_eq_asDirectory_iff {l k : Location} (hl : l.directory = false) (hne : l.names ≠ []) :
    k = l ∨ k = l.asDirectory ↔ k.names = l.names := by
  constructor
  · rintro (rfl | rfl) <;> rfl
  · intro hnames
    cases hmark : k.directory with
    | false => exact .inl (Location.ext hnames (hmark.trans hl.symm))
    | true => exact .inr (Location.ext hnames (by simp [hmark, asDirectory, hne]))

end Location

/-! ## What it means to agree -/

namespace ObjectStore

variable {σ : Type} [ObjectStore σ]

/-- Reading the bytes and reading the description of what is at a location succeed together, with
one size, or they fail alike: because nothing is there, or because a directory is, which is
described.  Whether something is there can always be told, and a listing of the whole store says the
same. -/
structure ReadsAgree (store : σ) (l : Location) : Prop where
  size : (get store l).map (·.size) = (head store l).map (·.size)
  refusal : ∀ e, get store l = .error e → e = .notFound l ∨
    ∃ m : ObjectMeta, e = .isDirectory m ∧ m.location = l.asDirectory ∧ m.size = 0
  presence : ∃ isThere, exists? store l = .ok isThere ∧ ∀ entries, list store .root = .ok entries →
    (isThere = true ↔ ∃ m ∈ entries, m.location = l ∨ m.location = l.asDirectory)

/-- Every entry of a listing is what the description at its location says. -/
def EntriesReadBack (store : σ) : Prop :=
  ∀ query entries, list store query = .ok entries → ∀ m ∈ entries,
    head store m.location = if m.isDirectory then .error (.isDirectory m) else .ok m

end ObjectStore

/-! ## In memory -/

namespace MemoryStore

variable {s : MemoryStore} {l : Location} {m : ObjectMeta}

lemma head_eq (hl : l.isRoot = false) : ObjectStore.head s l = match s.objects.get? l.text with
    | some object => .ok (.ofObject l object.content.size object.lastModified)
    | none =>
      match s.impliedDirectory? l with
      | some entry => .error (.isDirectory entry)
      | none => .error (.notFound l) := by
  show (s.find l).map _ = _
  rw [find_eq hl]
  cases s.objects.get? l.text with
  | some object => rfl
  | none => cases s.impliedDirectory? l <;> rfl

lemma size_of_impliedDirectory? (h : s.impliedDirectory? l = some m) : m.size = 0 := by
  unfold impliedDirectory? at h
  split at h
  · cases h
  · obtain ⟨time, -, rfl⟩ := Option.map_eq_some_iff.mp h
    rfl

/-- The directory at a location does not depend on the mark of the location. -/
lemma impliedDirectory?_asDirectory (l : Location) :
    s.impliedDirectory? l.asDirectory = s.impliedDirectory? l := rfl

lemma isTaken_iff_mem_list (hkeyed : s.Keyed) (hl : l.isRoot = false) : s.isTaken l = true ↔
    ∃ m ∈ s.list .root, m.location = l ∨ m.location = l.asDirectory := by
  have hne : l.names ≠ [] := by simpa [Location.isRoot] using hl
  have hdirectory : l.asDirectory.directory = true := by simp [Location.asDirectory, hne]
  rw [isTaken, Bool.or_eq_true, SortedMap.contains_eq_isSome]
  simp only [mem_list_iff hkeyed]
  constructor
  · rintro (hkey | himplied)
    · obtain ⟨object, hobject⟩ := Option.isSome_iff_exists.mp hkey
      exact ⟨_, .inl ⟨l.text, object, hobject, Location.root_text_prefix _, rfl⟩,
        .inl (Location.ofText_text l)⟩
    · obtain ⟨entry, hentry⟩ := Option.isSome_iff_exists.mp himplied
      rw [← impliedDirectory?_asDirectory, impliedDirectory?_eq_some_iff hdirectory] at hentry
      obtain ⟨time, hnewest, -⟩ := hentry
      refine ⟨_, .inr ⟨l.asDirectory.text, time, ?_, Location.root_text_prefix _, hnewest, rfl⟩,
        .inr (Location.ofText_text _)⟩
      rw [Location.text_of_directory hdirectory]
      simp
  · rintro ⟨m, hentry | hentry, hlocation⟩
    · left
      obtain ⟨hstart, hmark⟩ := location_of_isObjectEntry hkeyed hentry
      obtain ⟨key, object, hkey, -, rfl⟩ := hentry
      obtain ⟨k, -, rfl⟩ := hkeyed key (by simp [hkey])
      rw [Location.ofText_text] at hlocation
      rcases hlocation with rfl | rfl
      · simp [hkey]
      · rw [ObjectMeta.isDirectory, Location.ofText_text, hdirectory] at hmark
        cases hmark
    · right
      obtain ⟨k, hk, -, time, hnewest, rfl⟩ := exists_of_isDirectoryEntry hkeyed hentry
      have himplied := (impliedDirectory?_eq_some_iff hk).mpr ⟨time, hnewest, rfl⟩
      rcases hlocation with rfl | rfl
      · simp [himplied]
      · rw [impliedDirectory?_asDirectory] at himplied
        simp [himplied]

lemma readsAgree (hkeyed : s.Keyed) (hl : l.isRoot = false) : ObjectStore.ReadsAgree s l where
  size := (s.map_size_head l).symm
  refusal e he := by
    rw [← head_error_iff, head_eq hl] at he
    cases hkey : s.objects.get? l.text with
    | some object => simp [hkey] at he
    | none =>
      cases himplied : s.impliedDirectory? l with
      | none => exact .inl (by simpa [hkey, himplied] using he.symm)
      | some entry =>
        exact .inr ⟨entry, by simpa [hkey, himplied] using he.symm,
          (location_of_impliedDirectory? himplied).1, size_of_impliedDirectory? himplied⟩
  presence := by
    refine ⟨s.isTaken l, ?_, fun entries hentries => ?_⟩
    · cases htaken : s.isTaken l with
      | true => exact (exists?_eq_true_iff hl).mpr htaken
      | false =>
        rw [isTaken, SortedMap.contains_eq_isSome, Bool.or_eq_false_iff] at htaken
        have hkey : s.objects.get? l.text = none := by simpa using htaken.1
        have himplied : s.impliedDirectory? l = none := by simpa using htaken.2
        rw [ObjectStore.exists?, head_eq hl, hkey, himplied]
    · obtain rfl : s.list .root = entries := Except.ok.inj hentries
      exact isTaken_iff_mem_list hkeyed hl

lemma entriesReadBack (hkeyed : s.Keyed) : ObjectStore.EntriesReadBack s := by
  rintro query entries hentries m hm
  obtain rfl : s.list query = entries := Except.ok.inj hentries
  rcases (mem_list_iff hkeyed query m).mp hm with hentry | hentry
  · have hmark := (location_of_isObjectEntry hkeyed hentry).2
    obtain ⟨key, object, hkey, -, rfl⟩ := hentry
    obtain ⟨k, hk, rfl⟩ := hkeyed key (by simp [hkey])
    rw [if_neg (by simp [hmark]), Location.ofText_text,
      head_eq (Location.isRoot_of_isObject hk), hkey]
    rfl
  · obtain ⟨k, hk, -, time, hnewest, rfl⟩ := exists_of_isDirectoryEntry hkeyed hentry
    have hroot : k.isRoot = false := by
      simpa [Location.isRoot] using Location.names_ne_nil_of_directory hk
    have himplied := (impliedDirectory?_eq_some_iff hk).mpr ⟨time, hnewest, rfl⟩
    have hkey : s.objects.get? k.text = none := by
      by_contra hsome
      obtain ⟨k', hk', htext⟩ := hkeyed k.text (Option.isSome_iff_ne_none.mpr hsome)
      obtain rfl : k' = k := by rw [← Location.ofText_text k', htext, Location.ofText_text]
      rw [(Location.isObject_iff.mp hk').2] at hk
      cases hk
    rw [if_pos (by simpa [ObjectMeta.isDirectory] using hk), head_eq hroot, hkey, himplied]

end MemoryStore

/-! ## In a directory -/

namespace DiskStore

variable {s : DiskStore} {l query : Location} {m : ObjectMeta} {entries : List ObjectMeta}
  {e : StoreError}

/-! ### What stands somewhere can be asked for -/

lemma storable_components (hs : s.host.Sound) (hview : s.view l.names ≠ none) :
    ∀ c ∈ (s.path l).components, IsStorable c := by
  have hopen := isOpen_of_view hview
  rw [components_path]
  intro c hc
  rcases List.mem_append.mp hc with hc | hc
  · by_cases hdots : c = "." ∨ c = ".."
    · rcases hdots with rfl | rfl <;> decide
    · -- The way to the root directory leads through a place that ends with this name.
      obtain ⟨front, after, hcomponents⟩ := List.append_of_mem hc
      have hplace : settle (s.host.start s.root) (front ++ [c]) ∈
          route (s.host.start s.root) s.root.components :=
        mem_route_iff.mpr ⟨front ++ [c], ⟨after, by simp [hcomponents]⟩, rfl⟩
      have hfolder := hopen _ hplace
      refine hs.storable (settle (s.host.start s.root) (front ++ [c])) (by simp [hfolder]) c ?_
      rw [not_or] at hdots
      simp [settle_append, turn, hdots.1, hdots.2]
  · rw [view_of_isOpen hopen] at hview
    exact hs.storable _ hview c (List.mem_append_right _ hc)

/-- What stands somewhere can be asked for unless its path is too long. -/
lemma admits_of_view (hs : s.host.Sound) (hne : l.names ≠ []) (hview : s.view l.names ≠ none)
    (hlong : (s.path l).isLong = false) : s.Admits l where
  not_root := by simpa [Location.isRoot] using hne
  no_parent := by
    have hlayout := hview
    rw [view_of_isOpen (isOpen_of_view hview)] at hlayout
    by_contra hparent
    have hmem : ".." ∈ l.names := by simpa [Location.hasParentName] using hparent
    have hname :=
      Directory.isEntryName_of_layout hs.wellFormed hlayout ".." (List.mem_append_right _ hmem)
    exact hname.2.2.1 rfl
  fits := HostPath.fits_iff.mpr ⟨hlong, storable_components hs hview⟩

/-- A listing that succeeds has come to no path that is too long. -/
lemma isLong_of_mem_list (hwf : s.host.tree.WellFormed) (h : s.list query = .ok entries)
    (hm : m ∈ entries) : (s.path m.location).isLong = false := by
  have hparent := (list_cases h).1
  rw [list_eq hparent] at h
  split at h
  · cases h
    cases hm
  · cases h
  · cases h
    cases hm
  · rename_i inside hlookup
    split at h
    · cases h
    rename_i hshort
    obtain rfl := Except.ok.inj h
    have hinside := wellFormed_inside hwf hparent hlookup
    rcases (mem_listing_iff hinside).mp hm with
      ⟨rest, node, hrest, hnode, hstart, rfl⟩ | ⟨-, -, rfl⟩
    · have hnames : ∀ name ∈ query.splitLast.1.names ++ rest, IsName name :=
        List.forall_mem_append.mpr ⟨query.splitLast.1.isName_of_mem, isName_of_get? hinside hnode⟩
      have hmatching := (mem_matching hinside).mpr ⟨hrest, hnode, hstart⟩
      rw [path, names_entryAt hnames, List.foldl_append]
      show (rest.foldl HostPath.push (s.path query.splitLast.1)).isLong = false
      simpa using List.any_eq_false.mp (Bool.eq_false_iff.mpr hshort) _ hmatching
    · rw [path, names_entryAt query.splitLast.1.isName_of_mem]
      exact (Host.fits_of_lookup hlookup).2.1

/-! ### The four ways to read -/

lemma exists?_ok (hl : s.Admits l) : ∃ isThere, ObjectStore.exists? s l = .ok isThere ∧
    (isThere = true ↔ s.view l.names ≠ none) := by
  have hhead : ObjectStore.head s l = _ := head_eq hl
  rw [ObjectStore.exists?, hhead]
  cases s.view l.names with
  | none => exact ⟨false, rfl, by simp⟩
  | some entry => cases entry <;> exact ⟨true, rfl, by simp⟩

lemma readsAgree (hwf : s.host.tree.WellFormed) (hroot : s.root.text ≠ "") (hl : s.Admits l)
    (hmark : l.directory = false) : ObjectStore.ReadsAgree s l where
  size := (map_size_head hl).symm
  refusal e he := by
    have hget : s.get l = .error e := he
    rw [get_eq hl] at hget
    split at hget
    · cases hget
    · cases hget
      exact .inr ⟨_, rfl, rfl, rfl⟩
    · cases hget
      exact .inl rfl
  presence := by
    obtain ⟨isThere, hexists, hview⟩ := exists?_ok hl
    refine ⟨isThere, hexists, fun entries hentries => ?_⟩
    rw [hview]
    simp only [mem_iff_of_list hwf hroot hentries,
      Location.eq_or_eq_asDirectory_iff hmark hl.names_ne_nil]
    constructor
    · intro hsome
      obtain ⟨entry, hentry⟩ := Option.ne_none_iff_exists'.mp hsome
      exact ⟨_, ⟨l.names, entry, hl.names_ne_nil, hentry, rfl, List.nil_prefix⟩,
        names_entryAt l.isName_of_mem s entry⟩
    · rintro ⟨m, ⟨names, entry, -, hentry, rfl, -⟩, hnames⟩
      rw [names_entryAt (isName_of_view hwf hentry)] at hnames
      simp [← hnames, hentry]

lemma entriesReadBack (hs : s.host.Sound) (hroot : s.root.text ≠ "") :
    ObjectStore.EntriesReadBack s := by
  rintro query entries hentries m hm
  have hlong := isLong_of_mem_list hs.wellFormed hentries hm
  obtain ⟨names, entry, hne, hview, rfl, -⟩ :=
    (mem_iff_of_list hs.wellFormed hroot hentries m).mp hm
  have hnames := isName_of_view hs.wellFormed hview
  have hself := names_entryAt hnames s entry
  have hmark := directory_entryAt hnames s hne entry
  have hadmits : s.Admits (s.entryAt names entry).location :=
    admits_of_view hs (by rwa [hself]) (by simp [hself, hview]) hlong
  show s.head _ = _
  rw [head_eq hadmits, hself, hview, ObjectMeta.isDirectory]
  cases entry with
  | file content =>
    rw [if_neg (by simp [hmark])]
    rfl
  | folder =>
    rw [if_pos (hmark.mpr rfl)]
    rfl

lemma list_root_eq (s : DiskStore) : s.list .root =
    match s.host.lookup s.root with
    | .error .missing => .ok []
    | .error _ => .error (.listFailed .root)
    | .ok (.file _) => .ok []
    | .ok (.folder inside) =>
      if (matching inside "").any fun entry => (entry.1.foldl HostPath.push s.root).isLong then
        .error (.listFailed .root)
      else .ok (s.listing .root "" inside) :=
  list_eq rfl

/-- When the whole listing fails, the root directory was not found, or a path that is too long was
come to. -/
lemma list_root_error (hwf : s.host.tree.WellFormed) (hopen : s.IsOpen)
    (h : s.list .root = .error e) :
    e = .listFailed .root ∧
      ((∃ failure, failure ≠ .missing ∧ s.host.lookup s.root = .error failure) ∨
      ∃ names, names ≠ [] ∧ s.view names ≠ none ∧
        (names.foldl HostPath.push s.root).isLong = true) := by
  rw [list_root_eq] at h
  split at h
  · cases h
  · rename_i failure hfailure hlookup
    exact ⟨(Except.error.inj h).symm, .inl ⟨failure, fun hmissing => hfailure hmissing, hlookup⟩⟩
  · cases h
  · rename_i inside hlookup
    split at h
    · rename_i hlong
      refine ⟨(Except.error.inj h).symm, .inr ?_⟩
      have hlookup : s.host.lookup (s.path .root) = .ok (.folder inside) := hlookup
      obtain ⟨⟨rest, node⟩, hmatching, hlong⟩ := List.any_eq_true.mp hlong
      obtain ⟨hrest, hnode, -⟩ := (mem_matching (wellFormed_inside hwf rfl hlookup)).mp hmatching
      have hplace := get?_inside rfl hlookup rest
      rw [show Location.root.names = [] from rfl, List.append_nil, hnode] at hplace
      refine ⟨rest, hrest, ?_, hlong⟩
      rw [view_of_isOpen hopen, Ne, Host.layout_eq_none_iff, hplace]
      simp
    · cases h

lemma eq_of_list_root (h : s.list .root = .error e) : e = .listFailed .root := by
  rw [list_root_eq] at h
  split at h
  · cases h
  · exact (Except.error.inj h).symm
  · cases h
  · split at h
    · exact (Except.error.inj h).symm
    · cases h

/-- The whole listing fails only when something has a path that is too long, or when nothing is
there and the root path cannot be followed for another reason than that it is missing. -/
lemma cause_of_list_root (hs : s.host.Sound) (hroot : s.root.text ≠ "")
    (h : s.list .root = .error e) :
    e = .listFailed .root ∧ ((∀ names, s.view names = none) ∨
      ∃ names, s.view names ≠ none ∧ (names.foldl HostPath.push s.root).isLong = true) := by
  refine ⟨eq_of_list_root h, ?_⟩
  by_cases hopen : s.IsOpen
  swap
  · exact .inl fun names => by simp [view, hopen]
  right
  obtain ⟨-, ⟨failure, -, hfailure⟩ | ⟨names, -, hview, hlong⟩⟩ :=
    list_root_error hs.wellFormed hopen h
  swap
  · exact ⟨names, hview, hlong⟩
  by_contra! hshort
  have hfolder : s.view [] = some .folder := hopen.view_nil
  have hrootShort : s.root.isLong = false := by simpa using hshort [] (by simp [hfolder])
  have hfits : (s.path .root).Fits :=
    HostPath.fits_iff.mpr ⟨hrootShort,
      storable_components hs (show s.view [] ≠ none by simp [hfolder])⟩
  obtain ⟨inside, hlookup, -⟩ := Host.lookup_of_allFolders hfits hroot (allFolders_path rfl hfolder)
  rw [show s.path .root = s.root from rfl, hfailure] at hlookup
  cases hlookup

/-- The whole listing fails as soon as something has a path that is too long. -/
lemma list_root_fails (hwf : s.host.tree.WellFormed) (hroot : s.root.text ≠ "")
    {names : List String} (hview : s.view names ≠ none)
    (hlong : (names.foldl HostPath.push s.root).isLong = true) :
    s.list .root = .error (.listFailed .root) := by
  cases hlist : s.list .root with
  | error e => rw [eq_of_list_root hlist]
  | ok entries =>
    exfalso
    by_cases hnil : names = []
    · -- The path of the root directory itself is too long.
      subst hnil
      obtain ⟨-, ⟨-, hmissing⟩ | ⟨inside, hlookup, -, -⟩⟩ := found_of_list hroot hlist
      · exact hmissing (isOpen_of_view hview).view_nil
      · have hshort : s.root.isLong = false := (Host.fits_of_lookup hlookup).2.1
        rw [show s.root.isLong = true from hlong] at hshort
        cases hshort
    · obtain ⟨entry, hentry⟩ := Option.ne_none_iff_exists'.mp hview
      have hmem := (mem_iff_of_list hwf hroot hlist (s.entryAt names entry)).mpr
        ⟨names, entry, hnil, hentry, rfl, List.nil_prefix⟩
      have hshort := isLong_of_mem_list hwf hlist hmem
      rw [path, names_entryAt (isName_of_view hwf hentry), hlong] at hshort
      cases hshort

end DiskStore

/-! ## In a store of either kind -/

namespace Backend

/-- The four ways to read a store tell one story. -/
structure TellsOneStory (b : Backend) : Prop where
  agree : ∀ l, b.Reads l → (∀ s, b = .disk s → l.directory = false) → ObjectStore.ReadsAgree b l
  readBack : ObjectStore.EntriesReadBack b
  /-- The whole listing can be missing only when nothing is there, or in a directory where the path
  of something is too long. -/
  cause : ∀ e, ObjectStore.list b .root = .error e → e = .listFailed .root ∧
    ((∀ l, b.Reads l → ObjectStore.exists? b l = .ok false) ∨
      ∃ s names, b = .disk s ∧ s.view names ≠ none ∧
      (names.foldl HostPath.push s.root).isLong = true)
  /-- One path that is too long is enough. -/
  fails : ∀ s, b = .disk s → ∀ names, s.view names ≠ none →
    (names.foldl HostPath.push s.root).isLong = true →
    ObjectStore.list b .root = .error (.listFailed .root)

/-- In every store that can be reached, the four ways to read tell one story. -/
theorem Reachable.tellsOneStory {b : Backend} (hb : b.Reachable)
    (hroot : ∀ s, b = .disk s → s.root.text ≠ "") : b.TellsOneStory := by
  cases b with
  | memory s =>
    have hkeyed := MemoryStore.Reachable.keyed hb
    refine ⟨fun l hl _ => ?_, MemoryStore.entriesReadBack hkeyed, fun e he => ?_, by simp⟩
    · have hagree := MemoryStore.readsAgree hkeyed hl
      exact ⟨hagree.size, hagree.refusal, hagree.presence⟩
    · cases he
  | disk s =>
    have hsound := DiskStore.Reachable.sound hb
    have hroot := hroot s rfl
    refine ⟨fun l hl hmark => ?_, DiskStore.entriesReadBack hsound hroot, fun e he => ?_, ?_⟩
    · have hagree := DiskStore.readsAgree hsound.wellFormed hroot hl (hmark s rfl)
      exact ⟨hagree.size, hagree.refusal, hagree.presence⟩
    · obtain ⟨hfailed, hnothing | ⟨names, hview, hlong⟩⟩ :=
        DiskStore.cause_of_list_root hsound hroot he
      · refine ⟨hfailed, .inl fun l hl => ?_⟩
        exact (DiskStore.findsNothing_of_view hl (hnothing l.names)).exists?
      · exact ⟨hfailed, .inr ⟨s, names, rfl, hview, hlong⟩⟩
    · rintro t ⟨⟩ names hview hlong
      exact DiskStore.list_root_fails hsound.wellFormed hroot hview hlong

/-- In the first of these stores an object and a directory have the same name. -/
theorem samples_tellOneStory :
    (memory MemoryStore.sampleOfThree).TellsOneStory ∧
      (disk DiskStore.sampleOfTwo).TellsOneStory := by
  have hmemory : MemoryStore.sampleOfThree.Reachable := .attempt (.attempt (.attempt .empty _) _) _
  have hsound : Host.Sound (.bare ["w"]) := Host.sound_of_walk (by decide) (by decide)
  have hdisk : DiskStore.sampleOfTwo.Reachable :=
    .attempt (.attempt (.opened hsound) (.put (.ofText "a/b") ⟨#[1]⟩ .epoch))
      (.put (.ofText "ab") ⟨#[1, 2]⟩ .epoch)
  refine ⟨Reachable.tellsOneStory (b := memory _) hmemory (by simp), ?_⟩
  refine Reachable.tellsOneStory (b := disk _) hdisk ?_
  rintro s ⟨⟩
  decide +kernel

/-! ### A listing that fails -/

/-- A name of 250 bytes. -/
@[irreducible]
def wideName : String := String.ofList (List.replicate 250 'x')

/-- The names of `last` below `first` and nine directories with long names. -/
def deepNames (first last : String) : List String := first :: List.replicate 9 wideName ++ [last]

/-- The location with these names. -/
@[irreducible]
def deep (first last : String) : Location := .ofNames (deepNames first last) false

/-- A store in the directory `t`, which is still to be made. -/
def notDeep : DiskStore := ⟨.bare ["w"], ⟨"t"⟩, .checkThenRename, .epoch⟩

/-- Put two objects that are as deep as each other. -/
def putsDeep : List Operation :=
  [.put (deep "a" "f") ⟨#[49]⟩ .epoch, .put (deep "b" "f") ⟨#[49]⟩ .epoch]

/-- Then the directory `b` is moved to where the first object is. -/
def tooDeep : DiskStore := Operation.run notDeep (putsDeep ++ [.claim (.ofText "b") (deep "a" "b")])

/-- The names in the locations of these objects other than the long one. -/
lemma of_mem_letters : ∀ name ∈ ["a", "b", "f"], IsName name ∧ IsStorable name ∧ name ≠ ".." ∧
    name.utf8ByteSize = 1 := by
  decide

lemma utf8ByteSize_wideName : wideName.utf8ByteSize = 250 := by
  unfold wideName
  exact utf8ByteSize_replicate 250 (by decide)

lemma wideName_facts : IsName wideName ∧ IsStorable wideName ∧ wideName ≠ ".." := by
  unfold wideName
  obtain ⟨hne, hdot, hdots, hsep⟩ :=
    isEntryName_replicate (n := 250) (c := 'x') (by decide) (by decide) (by decide)
  exact ⟨⟨hne, hdot, hsep⟩, isStorable_replicate (by decide) (by decide) (by decide), hdots⟩

/-- These names begin with each other only if they are the same. -/
lemma eq_of_prefix_deepNames {first last first' last' : String}
    (h : deepNames first last <+: deepNames first' last') : first = first' ∧ last = last' := by
  rw [deepNames, deepNames, List.cons_append, List.cons_append, List.cons_prefix_cons,
    List.prefix_append_right_inj] at h
  exact ⟨h.1, by simpa using h.2⟩

section Deep

variable {first last : String} (hfirst : first ∈ ["a", "b", "f"]) (hlast : last ∈ ["a", "b", "f"])
include hfirst hlast

lemma of_mem_deepNames :
    ∀ name ∈ deepNames first last, IsName name ∧ IsStorable name ∧ name ≠ ".." := by
  intro name hname
  simp only [deepNames, List.cons_append, List.mem_cons, List.mem_append, List.mem_replicate,
    List.not_mem_nil, or_false] at hname
  rcases hname with rfl | ⟨-, rfl⟩ | rfl
  · exact ⟨(of_mem_letters _ hfirst).1, (of_mem_letters _ hfirst).2.1,
      (of_mem_letters _ hfirst).2.2.1⟩
  · exact wideName_facts
  · exact ⟨(of_mem_letters _ hlast).1, (of_mem_letters _ hlast).2.1, (of_mem_letters _ hlast).2.2.1⟩

lemma names_deep : (deep first last).names = deepNames first last := by
  rw [deep]
  exact Location.names_ofNames fun name hname => (of_mem_deepNames hfirst hlast name hname).1

lemma pushedBytes_deepNames : HostPath.pushedBytes (deepNames first last) = 2263 := by
  simp [deepNames, utf8ByteSize_wideName, (of_mem_letters _ hfirst).2.2.2,
    (of_mem_letters _ hlast).2.2.2]

/-- Nothing is wrong with these locations. -/
lemma admits_deep {s : DiskStore} (hroot : s.root = ⟨"t"⟩) : (disk s).Admits (deep first last) := by
  have hnames := names_deep hfirst hlast
  have hall := of_mem_deepNames hfirst hlast
  have hsize : (s.path (deep first last)).text.utf8ByteSize = 2264 := by
    rw [DiskStore.path, HostPath.utf8ByteSize_foldl_push (Location.isComponent_of_mem _)
      (by simp [hroot]) (by rw [hroot]; decide), hnames, pushedBytes_deepNames hfirst hlast, hroot]
    rfl
  have hfits : (s.path (deep first last)).Fits := by
    refine HostPath.fits_iff.mpr ⟨?_, fun c hc => ?_⟩
    · simp [HostPath.isLong, hsize, HostPath.limit]
    · rw [DiskStore.components_path, hnames, hroot] at hc
      rcases List.mem_append.mp hc with hc | hc
      · exact (by decide : ∀ c ∈ (⟨"t"⟩ : HostPath).components, IsStorable c) c hc
      · exact (hall c hc).2.1
  refine ⟨Location.isObject_iff.mpr ⟨by simp [hnames, deepNames], by rw [deep]; rfl⟩, ?_⟩
  rintro t ⟨⟩
  refine ⟨by simp [Location.isRoot, hnames, deepNames], ?_, hfits⟩
  rw [Location.hasParentName, hnames]
  simpa using fun hmem => (hall ".." hmem).2.2 rfl

end Deep

lemma not_leadsThrough_notDeep {l : Location} (hne : l.names ≠ []) :
    ¬ (disk notDeep).LeadsThrough l := by
  rintro ⟨place, hplace, hbelow⟩
  have hlength := hbelow.length_le
  have hpos := List.length_pos_iff.mpr hne
  have hshort : ∀ place ∈ notDeep.rootRoute, place.length ≤ notDeep.base.length := by decide
  have := hshort place hplace
  rw [List.length_append] at hlength
  omega

lemma isBlank_notDeep : (disk notDeep).IsBlank := by
  have hroute : ∀ place ∈ notDeep.rootRoute, notDeep.host.layout place = some .folder ∨
      notDeep.host.layout place = none := by decide
  have hbase : notDeep.host.layout notDeep.base = none := by decide
  refine ⟨by decide, fun place hplace content hfile => ?_, fun names hne => ?_⟩
  · rcases hroute place hplace with h | h <;> simp [h] at hfile
  · exact Host.layout_below (by simp [hbase]) hne

/-- Two objects can be put in an empty store one after the other, and a place beside them stays
free. -/
lemma view_put_put {s two : DiskStore} {l k free : Location} {content : ByteArray} {now : Instant}
    (htwo : Operation.run s [.put l content now, .put k content now] = two)
    (hwf : s.host.tree.WellFormed) (hblank : (disk s).IsBlank) (hl : (disk s).Admits l)
    (hk : (disk s).Admits k) (hfree : free.names ≠ []) (hapart : l.Apart k) (hlFree : l.Apart free)
    (hkFree : k.Apart free)
    (hoff : ∀ place : Location, place.names ≠ [] → ¬ (disk s).LeadsThrough place) :
    two.view l.names = some (.file content) ∧ two.view k.names = some (.file content) ∧
      two.view free.names = none := by
  subst htwo
  have hlNames := (Location.isObject_iff.mp hl.isObject).1
  have hkNames := (Location.isObject_iff.mp hk.isObject).1
  -- The first object.
  have hspares : (disk s).Spares (.put l content now) [k, free] :=
    ⟨by simp [Operation.touched, hapart, hlFree], by simp [Operation.touched, hoff l hlNames]⟩
  obtain ⟨hobject, hsteady⟩ :=
    put_beside (b := disk s) hwf (hblank.hasWay hlNames) hl hspares (by simp [hkNames, hfree, hoff])
  have hcontinues := continues_attempt (b := disk s) hwf (.put l content now)
  rw [attempt_disk] at hobject hsteady hcontinues
  -- The second one.
  have hspares' : (disk s).Spares (.put k content now) [l, free] :=
    ⟨by simp [Operation.touched, hapart.symm, hkFree], by simp [Operation.touched, hoff k hkNames]⟩
  obtain ⟨hobject', hsteady'⟩ := put_beside (hcontinues.wellFormed hwf)
    ((hblank.hasWay hkNames).steady (hsteady k (by simp))) (hcontinues.admits.mpr hk)
    (hcontinues.spares hspares') (by simp [hlNames, hfree, hcontinues.leadsThrough, hoff])
  rw [attempt_disk] at hobject' hsteady'
  have hempty :=
    ((hblank.isFree hfree).steady (hsteady free (by simp))).steady (hsteady' free (by simp))
  exact ⟨hobject.steady (hsteady' l (by simp)), hobject', DiskStore.view_of_layout_none hempty⟩

lemma view_putsDeep : (Operation.run notDeep putsDeep).view (deepNames "a" "f") =
    some (.file ⟨#[49]⟩) ∧
    (Operation.run notDeep putsDeep).view (deepNames "b" "f") = some (.file ⟨#[49]⟩) ∧
    (Operation.run notDeep putsDeep).view (deepNames "a" "b") = none := by
  have hupper : (deep "a" "f").names = deepNames "a" "f" := names_deep (by decide) (by decide)
  have hlower : (deep "b" "f").names = deepNames "b" "f" := names_deep (by decide) (by decide)
  have hbeside : (deep "a" "b").names = deepNames "a" "b" := names_deep (by decide) (by decide)
  have hne : (deep "a" "b").names ≠ [] := by rw [hbeside, deepNames]; exact List.cons_ne_nil _ _
  have happart : (deep "a" "f").Apart (deep "b" "f") ∧ (deep "a" "f").Apart (deep "a" "b") ∧
      (deep "b" "f").Apart (deep "a" "b") := by
    rw [Location.Apart, Location.Apart, Location.Apart, hupper, hlower, hbeside]
    refine ⟨⟨?_, ?_⟩, ⟨?_, ?_⟩, ?_, ?_⟩ <;>
      exact fun h => absurd (eq_of_prefix_deepNames h) (by decide)
  rw [← hupper, ← hlower, ← hbeside]
  exact view_put_put (by rw [putsDeep]) (by decide) isBlank_notDeep
    (admits_deep (by decide) (by decide) rfl) (admits_deep (by decide) (by decide) rfl) hne
    happart.1 happart.2.1 happart.2.2 fun _ => not_leadsThrough_notDeep

/-- After that the directory of the second object can be moved to the free place. -/
lemma movesFolder_deep {s : DiskStore} (hupper : s.view (deepNames "a" "f") = some (.file ⟨#[49]⟩))
    (hlower : s.view (deepNames "b" "f") = some (.file ⟨#[49]⟩))
    (hfree : s.view (deepNames "a" "b") = none) : s.MovesFolder (.ofText "b") (deep "a" "b") := by
  have hsource : (Location.ofText "b").names = ["b"] := by decide
  have htarget : (deep "a" "b").names = deepNames "a" "b" := names_deep (by decide) (by decide)
  refine ⟨?_, by rwa [htarget], ?_, ?_⟩
  · rw [hsource]
    exact DiskStore.view_of_append (by simp : List.replicate 9 wideName ++ ["f"] ≠ [])
      (show s.view (deepNames "b" "f") ≠ none by simp [hlower])
  · rw [htarget, deepNames, List.dropLast_concat]
    exact DiskStore.view_of_append (by simp : ["f"] ≠ [])
      (show s.view (deepNames "a" "f") ≠ none by simp [hupper])
  · rw [hsource, htarget, deepNames, List.cons_append, List.cons_prefix_cons]
    exact fun h => absurd h.1 (by decide)

/-- What is below one of the deep places is too deep for the host. -/
lemma isLong_deepNames :
    ((deepNames "a" "b" ++ (List.replicate 9 wideName ++ ["f"])).foldl HostPath.push
    notDeep.root).isLong = true := by
  have hnames : ∀ name ∈ deepNames "a" "b" ++ (List.replicate 9 wideName ++ ["f"]),
      HostPath.IsComponent name := by
    intro name hname
    have hdeep : name ∈ deepNames "a" "b" ∨ name ∈ deepNames "b" "f" :=
      (List.mem_append.mp hname).imp_right (List.mem_cons_of_mem "b")
    have hvalid : IsName name := by
      rcases hdeep with hdeep | hdeep
      · exact (of_mem_deepNames (by decide) (by decide) name hdeep).1
      · exact (of_mem_deepNames (by decide) (by decide) name hdeep).1
    exact ⟨hvalid.1, hvalid.2.2⟩
  have hbelow : HostPath.pushedBytes (List.replicate 9 wideName ++ ["f"]) = 2261 := by
    have hone : "f".utf8ByteSize = 1 := rfl
    simp [utf8ByteSize_wideName, hone]
  have hsize := HostPath.utf8ByteSize_foldl_push hnames (p := notDeep.root) (by decide) (by decide)
  rw [HostPath.pushedBytes_append, pushedBytes_deepNames (by decide) (by decide), hbelow] at hsize
  rw [HostPath.isLong, hsize, decide_eq_true_eq, HostPath.limit]
  omega

lemma view_tooDeep :
    tooDeep.view (deepNames "a" "b" ++ (List.replicate 9 wideName ++ ["f"])) =
      some (.file ⟨#[49]⟩) := by
  obtain ⟨hupper, hlower, hfree⟩ := view_putsDeep
  have hwf : notDeep.host.tree.WellFormed := by decide
  have hcontinues := DiskStore.continues_run hwf putsDeep
  have hoff : ∀ l : Location, l.names ≠ [] → ∀ place ∈ (Operation.run notDeep putsDeep).rootRoute,
      ¬ (Operation.run notDeep putsDeep).base ++ l.names <+: place := by
    rw [hcontinues.rootRoute, hcontinues.base]
    exact fun l hne place hplace hbelow => not_leadsThrough_notDeep hne ⟨place, hplace, hbelow⟩
  have hsource : (Operation.run notDeep putsDeep).Admits (.ofText "b") :=
    hcontinues.admits.mpr (by decide)
  have htarget : (disk (Operation.run notDeep putsDeep)).Admits (deep "a" "b") :=
    admits_deep (by decide) (by decide) hcontinues.root
  have hview := (movesFolder_deep hupper hlower hfree).view_claim (hcontinues.wellFormed hwf)
    hcontinues.strategy htarget.isObject hsource (htarget.onDisk _ rfl)
      (hoff _ hsource.names_ne_nil)
    (hoff _ (htarget.onDisk _ rfl).names_ne_nil) (List.replicate 9 wideName ++ ["f"])
  have hattempt : ∀ s : DiskStore, ((Operation.claim (.ofText "b") (deep "a" "b")).attempt s).2 =
      (s.claim (.ofText "b") (deep "a" "b")).2 := fun _ => rfl
  rw [← hattempt, ← Operation.run_concat, ← tooDeep, names_deep (by decide) (by decide)] at hview
  exact hview.trans hlower

/-- Something is there, and the whole listing, in which it should be found, fails. -/
theorem whole_listing_fails : (disk tooDeep).Reachable ∧ (disk tooDeep).Reads (.ofText "a") ∧
    tooDeep.root.text ≠ "" ∧ ObjectStore.exists? (disk tooDeep) (.ofText "a") = .ok true ∧
    ObjectStore.list (disk tooDeep) .root = .error (.listFailed .root) := by
  have hstart : notDeep.Reachable := .opened (Host.sound_of_walk (by decide) (by decide))
  have hreach : tooDeep.Reachable := hstart.run _
  have hafter : notDeep.Continues tooDeep := DiskStore.continues_run hstart.sound.wellFormed _
  have hreads : tooDeep.Admits (.ofText "a") := hafter.admits.mpr (by decide)
  have hroot : tooDeep.root.text ≠ "" := by
    rw [hafter.root]
    decide
  have hthere : tooDeep.view (deepNames "a" "b" ++ (List.replicate 9 wideName ++ ["f"])) ≠ none :=
    ne_of_eq_of_ne view_tooDeep (Option.some_ne_none _)
  refine ⟨hreach, hreads, hroot, ?_, ?_⟩
  · have habove : tooDeep.view ["a"] = some .folder := DiskStore.view_of_append
      (by simp :
        List.replicate 9 wideName ++ ["b"] ++ (List.replicate 9 wideName ++ ["f"]) ≠ []) hthere
    have hexists : ∀ s : DiskStore, ObjectStore.exists? (disk s) (.ofText "a") =
        ObjectStore.exists? s (.ofText "a") := fun _ => rfl
    rw [hexists, DiskStore.exists?_eq_true_iff hreads,
      show (Location.ofText "a").names = ["a"] by decide, habove]
    simp
  · refine DiskStore.list_root_fails hreach.sound.wellFormed hroot hthere ?_
    rw [hafter.root]
    exact isLong_deepNames

end Backend

end CommitStore
