import CommitStore.Proofs.Host.Walk
import CommitStore.Proofs.Store.Contents
import CommitStore.Proofs.Store.Listing

/-!
# Listing a store in a directory

A listing that succeeds has found a directory and walked through it, or has found that there is
nothing to walk through (`DiskStore.list_cases`).  With `DiskStore.entryAt` for the description of
what stands under some names, what is listed of a directory is told by names in
`DiskStore.mem_listing`: its objects are the files that match the query, and its directories are all
those of the host that match.
-/

namespace CommitStore

namespace HostPath

/-- The text of a path goes on when names are pushed onto it. -/
lemma text_prefix_foldl_push (p : HostPath) (names : List String) :
    p.text.toList <+: (names.foldl push p).text.toList := by
  induction names generalizing p with
  | nil => exact List.prefix_refl _
  | cons name names ih =>
    have hpush : p.text.toList <+: (p.push name).text.toList := by
      unfold push
      split <;> simp
    exact hpush.trans (ih (p.push name))

end HostPath

namespace Location

lemma names_ofNames {names : List String} (hnames : ∀ name ∈ names, IsName name) :
    (ofNames names false).names = names :=
  List.filter_eq_self.mpr fun name hname => decide_eq_true (hnames name hname)

/-- The names below a location that a listing puts together. -/
lemma join_ofNames (directory : Location) {rest : List String} (hrest : rest ≠ [])
    (hnames : ∀ name ∈ rest, IsName name) :
    (directory.join (.ofNames rest false)).names = directory.names ++ rest ∧
      (directory.join (.ofNames rest false)).directory = false := by
  have hfilter : rest.filter (fun name => decide (IsName name)) = rest :=
    List.filter_eq_self.mpr fun name hname => decide_eq_true (hnames name hname)
  unfold join
  split
  · rename_i hroot
    simp [ofNames, hfilter, hroot]
  · simp [ofNames, hfilter, hrest]

end Location

namespace DiskStore

variable {s : DiskStore} {query l k directory : Location} {start : String}
  {entries : List ObjectMeta}
variable {inside : Directory} {names rest : List String} {e : ObjectMeta}

/-! ## What a listing finds -/

/-- The entries of a listing of the directory `inside`. -/
def listing (s : DiskStore) (directory : Location) (start : String) (inside : Directory) :
    List ObjectMeta :=
  (matching inside start).map (fun entry => s.describe directory entry.1 entry.2)
    ++ if directory.isRoot || !start.isEmpty then [] else [.ofDirectory directory s.stamp]

/-- What a listing answers, by what the path of its directory part leads to. -/
lemma list_eq (hparent : query.splitLast.1.hasParentName = false) : s.list query =
    match s.host.lookup (s.path query.splitLast.1) with
    | .error .missing => .ok []
    | .error _ => .error (.listFailed query)
    | .ok (.file _) => .ok []
    | .ok (.folder inside) =>
      if (matching inside query.splitLast.2).any fun entry =>
          (entry.1.foldl HostPath.push (s.path query.splitLast.1)).isLong then
        .error (.listFailed query)
      else .ok (s.listing query.splitLast.1 query.splitLast.2 inside) := by
  rw [list]
  generalize query.splitLast = parts at hparent ⊢
  obtain ⟨directory, start⟩ := parts
  have hresolve : s.resolve directory = .ok (s.path directory) := resolve_eq hparent
  simp only [hresolve]
  rfl

/-- A listing that succeeds has found a directory or nothing to walk through. -/
lemma list_cases (h : s.list query = .ok entries) : query.splitLast.1.hasParentName = false ∧
    ((entries = [] ∧ s.host.isFolder (s.path query.splitLast.1) = false) ∨
      ∃ inside, s.host.lookup (s.path query.splitLast.1) = .ok (.folder inside) ∧
        entries = s.listing query.splitLast.1 query.splitLast.2 inside) := by
  have hparent : query.splitLast.1.hasParentName = false := by
    rw [list] at h
    obtain ⟨path, hresolve, -⟩ := exists_of_bind_eq_ok h
    exact (resolve_ok hresolve).1
  refine ⟨hparent, ?_⟩
  rw [list_eq hparent] at h
  split at h
  · rename_i hlookup
    exact .inl ⟨(Except.ok.inj h).symm, by simp [Host.isFolder, hlookup]⟩
  · cases h
  · rename_i content hlookup
    exact .inl ⟨(Except.ok.inj h).symm, by simp [Host.isFolder, hlookup]⟩
  · rename_i inside hlookup
    split at h
    · cases h
    · exact .inr ⟨inside, hlookup, (Except.ok.inj h).symm⟩

/-- The path of a location is not empty unless that of the root is. -/
lemma text_path_ne_empty_of_root (hroot : s.root.text ≠ "") (l : Location) :
    (s.path l).text ≠ "" := by
  by_cases hnil : l.names = []
  · rw [path, hnil]
    exact hroot
  · exact text_path_ne_empty hnil

lemma allFolders_path (hdirectory : directory.hasParentName = false)
    (hfolder : s.view directory.names = some .folder) :
    s.host.AllFolders (route (s.host.start (s.path directory)) (s.path directory).components) := by
  rw [start_path, components_path]
  exact allFolders_of_view (Location.isEntryName_of_mem hdirectory) hfolder

lemma isFolder_of_below (hroot : s.root.text ≠ "") (hdirectory : directory.hasParentName = false)
    (hk : s.Admits k) (hsome : s.view k.names ≠ none) (hrest : rest ≠ [])
    (hnames : k.names = directory.names ++ rest) : s.host.isFolder (s.path directory) = true := by
  have hpath : s.path k = rest.foldl HostPath.push (s.path directory) := by
    rw [path, hnames, List.foldl_append]
    rfl
  have hfits : (s.path directory).Fits := by
    refine hk.fits.of_prefix ?_ fun c hc => ?_
    · rw [hpath]
      exact HostPath.text_prefix_foldl_push _ _
    · rw [components_path] at hc ⊢
      rw [hnames, ← List.append_assoc]
      exact List.mem_append_left _ hc
  rw [hnames] at hsome
  exact Host.isFolder_of_allFolders hfits (text_path_ne_empty_of_root hroot directory)
    (allFolders_path hdirectory (view_of_append hrest hsome))

/-- What is below a directory that was found. -/
lemma get?_inside (hdirectory : directory.hasParentName = false)
    (hlookup : s.host.lookup (s.path directory) = .ok (.folder inside)) (rest : List String) :
    s.host.get? (s.base ++ directory.names ++ rest) = inside.get? rest := by
  obtain ⟨⟨names, node⟩, hlocate, hnode⟩ := map_eq_ok hlookup
  obtain ⟨hnames, hget⟩ := Host.locate_ok hlocate
  obtain rfl : node = .folder inside := hnode
  rw [goal_path hdirectory] at hnames
  subst hnames
  have hhere : s.host.tree.get? (s.base ++ directory.names) = some (.folder inside) := hget
  rw [Host.get?, Directory.get?_append, hhere, Option.bind_some, Node.get?_folder]

lemma wellFormed_inside (hwf : s.host.tree.WellFormed)
    (hdirectory : directory.hasParentName = false)
    (hlookup : s.host.lookup (s.path directory) = .ok (.folder inside)) : inside.WellFormed := by
  have hhere := get?_inside hdirectory hlookup []
  exact Directory.wellFormed_of_get? hwf hhere

/-! ## What is listed of a directory -/

lemma mem_matching (hinside : inside.WellFormed) {node : Node} :
    (rest, node) ∈ matching inside start ↔
      rest ≠ [] ∧ inside.get? rest = some node ∧ start.toList <+: (rest.head?.getD "").toList := by
  rw [matching, List.mem_filter, List.isPrefixOf_iff_prefix]
  constructor
  · rintro ⟨hwalk, hstart⟩
    obtain ⟨name, more, hrest, -⟩ := Directory.exists_of_mem_walk hwalk
    obtain rfl : rest = name :: more := hrest
    exact ⟨by simp, (Directory.mem_walk hinside [] (by simp)).mp hwalk, hstart⟩
  · rintro ⟨hrest, hnode, hstart⟩
    exact ⟨(Directory.mem_walk hinside [] hrest).mpr hnode, hstart⟩

lemma isName_of_get? (hinside : inside.WellFormed) {node : Node}
    (hnode : inside.get? rest = some node) : ∀ name ∈ rest, IsName name := by
  intro name hname
  have hsome : inside.layout rest ≠ none := by simp [Directory.layout, hnode]
  obtain ⟨hne, hdot, -, hsep⟩ := Directory.isEntryName_of_layout hinside hsome name hname
  exact ⟨hne, hdot, hsep⟩

/-- The names of what is there can stand in a location. -/
lemma isName_of_layout {entry : Entry} (hwf : s.host.tree.WellFormed)
    (hlayout : s.host.layout (s.base ++ names) = some entry) : ∀ name ∈ names, IsName name := by
  intro name hname
  have hsome : s.host.layout (s.base ++ names) ≠ none := by simp [hlayout]
  obtain ⟨hne, hdot, -, hsep⟩ :=
    Directory.isEntryName_of_layout hwf hsome name (List.mem_append_right _ hname)
  exact ⟨hne, hdot, hsep⟩

/-! ## The description of an entry -/

/-- The description of what stands under some names. -/
def entryAt (s : DiskStore) (names : List String) : Entry → ObjectMeta
  | .file content => .ofObject (.ofNames names false) content.size s.stamp
  | .folder => .ofDirectory (.ofNames names false) s.stamp

lemma names_entryAt (hnames : ∀ name ∈ names, IsName name) (s : DiskStore) (entry : Entry) :
    (s.entryAt names entry).location.names = names := by
  cases entry <;> exact Location.names_ofNames hnames

lemma directory_entryAt (hnames : ∀ name ∈ names, IsName name) (s : DiskStore) (hne : names ≠ [])
    (entry : Entry) : (s.entryAt names entry).location.directory = true ↔ entry = .folder := by
  cases entry with
  | file content => simp [entryAt, ObjectMeta.ofObject, Location.ofNames]
  | folder =>
    simp [entryAt, ObjectMeta.ofDirectory, Location.asDirectory, Location.names_ofNames hnames, hne]

lemma describe_eq_entryAt (s : DiskStore) (directory : Location) {node : Node} (hrest : rest ≠ [])
    (hnames : ∀ name ∈ rest, IsName name) :
    s.describe directory rest node = s.entryAt (directory.names ++ rest) node.entry := by
  obtain ⟨hjoin, hmark⟩ := Location.join_ofNames directory hrest hnames
  have hall : ∀ name ∈ directory.names ++ rest, IsName name := by
    intro name hname
    rcases List.mem_append.mp hname with hname | hname
    · exact directory.isName_of_mem name hname
    · exact hnames name hname
  have hlocation : directory.join (.ofNames rest false) =
      .ofNames (directory.names ++ rest) false :=
    Location.ext (hjoin.trans (Location.names_ofNames hall).symm) hmark
  cases node with
  | file content => rw [describe, hlocation]; rfl
  | folder entries => rw [describe, hlocation]; rfl

lemma ofDirectory_eq_entryAt (s : DiskStore) (directory : Location) :
    ObjectMeta.ofDirectory directory s.stamp = s.entryAt directory.names .folder := by
  have hlocation : directory.asDirectory =
      (Location.ofNames directory.names false).asDirectory := by
    apply Location.ext <;>
      simp [Location.asDirectory, Location.names_ofNames directory.isName_of_mem]
  rw [entryAt, ObjectMeta.ofDirectory, ObjectMeta.ofDirectory, hlocation]

/-! ## The entries of a directory that is walked -/

/-- What is listed of a directory is what some names lead to, and the directory itself. -/
lemma mem_listing_iff (hinside : inside.WellFormed) : e ∈ s.listing directory start inside ↔
    (∃ rest node, rest ≠ [] ∧ inside.get? rest = some node ∧
      start.toList <+: (rest.head?.getD "").toList ∧
      e = s.entryAt (directory.names ++ rest) node.entry) ∨
    (directory.isRoot = false ∧ start = "" ∧ e = s.entryAt directory.names .folder) := by
  have hself : e ∈ (if directory.isRoot || !start.isEmpty then []
      else [.ofDirectory directory s.stamp]) ↔
      directory.isRoot = false ∧ start = "" ∧ e = s.entryAt directory.names .folder := by
    rw [ofDirectory_eq_entryAt]
    by_cases hroot : directory.isRoot <;> by_cases hstart : start = "" <;> simp [hroot, hstart]
  rw [listing, List.mem_append, hself, List.mem_map]
  refine or_congr_left ⟨?_, ?_⟩
  · rintro ⟨⟨rest, node⟩, hentry, rfl⟩
    obtain ⟨hrest, hnode, hstart⟩ := (mem_matching hinside).mp hentry
    exact ⟨rest, node, hrest, hnode, hstart,
      s.describe_eq_entryAt directory hrest (isName_of_get? hinside hnode)⟩
  · rintro ⟨rest, node, hrest, hnode, hstart, rfl⟩
    exact ⟨(rest, node), (mem_matching hinside).mpr ⟨hrest, hnode, hstart⟩,
      s.describe_eq_entryAt directory hrest (isName_of_get? hinside hnode)⟩

/-- What is listed is what stands on the host under names that match, and the directory itself. -/
lemma mem_listing (hwf : s.host.tree.WellFormed) (hdirectory : directory.hasParentName = false)
    (hlookup : s.host.lookup (s.path directory) = .ok (.folder inside)) :
    e ∈ s.listing directory start inside ↔ ∃ names entry, names ≠ [] ∧
      s.host.layout (s.base ++ names) = some entry ∧ e = s.entryAt names entry ∧
      (directory.Matches start names ∨
        (entry = .folder ∧ names = directory.names ∧ directory.isRoot = false ∧ start = "")) := by
  have hbelow : ∀ rest, s.host.layout (s.base ++ (directory.names ++ rest)) =
      (inside.get? rest).map Node.entry := by
    intro rest
    rw [← get?_inside hdirectory hlookup, List.append_assoc]
    rfl
  rw [mem_listing_iff (wellFormed_inside hwf hdirectory hlookup)]
  constructor
  · rintro (⟨rest, node, hrest, hnode, hstart, rfl⟩ | ⟨hroot, hstart, rfl⟩)
    · refine ⟨_, node.entry, by simp [hrest], by rw [hbelow, hnode]; rfl, rfl, .inl ?_⟩
      exact (Location.matches_append_iff hrest).mpr hstart
    · have hhere := hbelow []
      rw [List.append_nil] at hhere
      have hne : directory.names ≠ [] := by simpa [Location.isRoot] using hroot
      exact ⟨_, .folder, hne, by simpa [Directory.get?, Node.entry] using hhere, rfl,
        .inr ⟨rfl, rfl, hroot, hstart⟩⟩
  · rintro ⟨names, entry, -, hlayout, rfl, hmatches | ⟨rfl, rfl, hroot, hstart⟩⟩
    · obtain ⟨rest, hrest, rfl⟩ := hmatches.below
      rw [hbelow, Option.map_eq_some_iff] at hlayout
      obtain ⟨node, hnode, rfl⟩ := hlayout
      exact .inl ⟨rest, node, hrest, hnode, (Location.matches_append_iff hrest).mp hmatches, rfl⟩
    · exact .inr ⟨hroot, hstart, rfl⟩

/-- No names are listed twice. -/
lemma nodup_names_listing (hinside : inside.WellFormed) (s : DiskStore) (directory : Location)
    (start : String) :
    ((s.listing directory start inside).map fun e => e.location.names).Nodup := by
  have hdescribed :
      ((matching inside start).map fun entry => s.describe directory entry.1 entry.2).map
      (fun e => e.location.names) = (matching inside start).map fun entry =>
        directory.names ++ entry.1 := by
    rw [List.map_map]
    refine List.map_congr_left fun ⟨rest, node⟩ hentry => ?_
    obtain ⟨hrest, hnode, -⟩ := (mem_matching hinside).mp hentry
    have hnames := isName_of_get? hinside hnode
    exact (Location.join_ofNames directory hrest hnames).1 ▸ by cases node <;> rfl
  have hnodup : ((matching inside start).map (·.1)).Nodup :=
    (Directory.nodup_walk hinside []).sublist (List.filter_sublist.map _)
  have hinjective : Function.Injective fun rest : List String => directory.names ++ rest :=
    fun _ _ => List.append_cancel_left
  rw [listing, List.map_append, hdescribed]
  refine List.nodup_append.mpr ⟨by simpa [Function.comp_def] using hnodup.map hinjective, ?_, ?_⟩
  · split <;> simp
  · -- The names of the directory are those of no entry below it.
    intro below hbelow self hself hsame
    obtain ⟨⟨rest, node⟩, hentry, rfl⟩ := List.mem_map.mp hbelow
    have hself : self = directory.names := by
      split at hself
      · cases hself
      · simpa [ObjectMeta.ofDirectory, Location.asDirectory] using hself
    exact ((mem_matching hinside).mp hentry).1 (by simpa [hself] using hsame)

/-! ## Objects and directories of a listing -/

lemma mem_objects_listing (hwf : s.host.tree.WellFormed)
    (hdirectory : directory.hasParentName = false)
    (hlookup : s.host.lookup (s.path directory) = .ok (.folder inside)) {size : Nat} :
    (k, size) ∈ ObjectMeta.objects (s.listing directory start inside) ↔
      k.isObject = true ∧ directory.Matches start k.names ∧
        ∃ content, s.content? k.names = some content ∧ content.size = size := by
  rw [ObjectMeta.mem_objects]
  constructor
  · rintro ⟨e, he, rfl, rfl, hmark⟩
    obtain ⟨names, entry, hne, hlayout, rfl, hbelongs⟩ := (mem_listing hwf hdirectory hlookup).mp he
    have hnames := isName_of_layout hwf hlayout
    cases entry with
    | folder =>
      rw [(directory_entryAt hnames s hne .folder).mpr rfl] at hmark
      cases hmark
    | file content =>
      have hself := names_entryAt hnames s (.file content)
      rw [Location.isObject_iff, hself]
      exact ⟨⟨hne, hmark⟩, hbelongs.resolve_right (by simp), content,
        content?_eq_some_iff.mpr hlayout, rfl⟩
  · rintro ⟨hk, hmatches, content, hcontent, rfl⟩
    obtain ⟨hne, hmark⟩ := Location.isObject_iff.mp hk
    refine ⟨_, (mem_listing hwf hdirectory hlookup).mpr ⟨k.names, .file content, hne,
      content?_eq_some_iff.mp hcontent, rfl, .inl hmatches⟩, ?_, rfl, hmark⟩
    exact Location.ext (Location.names_ofNames k.isName_of_mem) hmark.symm

lemma nodup_objects_listing (hinside : inside.WellFormed) (s : DiskStore) (directory : Location)
    (start : String) : (ObjectMeta.objects (s.listing directory start inside)).Nodup :=
  ObjectMeta.nodup_objects (nodup_names_listing hinside s directory start)

lemma mem_directories_listing (hwf : s.host.tree.WellFormed)
    (hdirectory : directory.hasParentName = false)
    (hlookup : s.host.lookup (s.path directory) = .ok (.folder inside)) :
    l ∈ ObjectMeta.directories (s.listing directory start inside) ↔ l.directory = true ∧
      directory.Covers start l.names ∧ s.host.layout (s.base ++ l.names) = some .folder := by
  rw [ObjectMeta.mem_directories]
  constructor
  · rintro ⟨e, he, rfl, hmark⟩
    obtain ⟨names, entry, hne, hlayout, rfl, hbelongs⟩ := (mem_listing hwf hdirectory hlookup).mp he
    have hnames := isName_of_layout hwf hlayout
    obtain rfl := (directory_entryAt hnames s hne entry).mp hmark
    rw [names_entryAt hnames]
    exact ⟨hmark, hbelongs.imp_right And.right, hlayout⟩
  · rintro ⟨hmark, hcovers, hfolder⟩
    have hne := Location.names_ne_nil_of_directory hmark
    refine ⟨_, (mem_listing hwf hdirectory hlookup).mpr ⟨l.names, .folder, hne, hfolder, rfl,
      hcovers.imp_right (And.intro rfl)⟩, ?_, hmark⟩
    rw [← ofDirectory_eq_entryAt, ObjectMeta.ofDirectory]
    exact Location.asDirectory_of_directory hmark

end DiskStore

end CommitStore
