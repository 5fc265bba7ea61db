import CommitStore.Proofs.Store.FailedPut
import CommitStore.Proofs.Store.Simulation

/-!
# What a put does

Whether an object can be put is decided by what is at its location and above it: no directory may be
at the location and no file above it, whether or not anything else is there
(`DiskStore.put_ok_iff`).  And then all that a reader can tell afterwards is that the bytes are at
the location, and that the directories above it which were missing are there: `DiskStore.Receives`.

For a store whose root is still to be made this needs that nothing is below the place of the root,
and that the root path does not lead through a place below it: otherwise what it leads through is
made, or comes into view, together with the root.  `DiskStore.put_shows_way_of_root` is such a root.
-/

namespace CommitStore

namespace DiskStore

variable {s s' : DiskStore} {l x : Location} {content : ByteArray} {now : Instant} {e : StoreError}
variable {names : List String} {entries : List ObjectMeta}

/-! ## Roots -/

lemma prefix_settle {names components : List String} (hplain : ".." ∉ components) :
    names <+: settle names components := by
  induction components generalizing names with
  | nil => exact List.prefix_refl _
  | cons c components ih =>
    rw [List.mem_cons, not_or] at hplain
    refine List.IsPrefix.trans ?_ (ih hplain.2)
    unfold turn
    split
    · exact List.prefix_refl _
    · rw [if_neg (Ne.symm hplain.1)]
      exact List.prefix_append _ _

/-- A root path without `..` leads through no place below that of the root, and as long as it leads
to nothing, nothing is there. -/
lemma founded_of_plain (htext : s.root.text ≠ "") (hfits : s.root.Fits)
    (hplain : ".." ∉ s.root.components)
    (hstart : s.host.layout (s.host.start s.root) = some .folder)
    (hfree : s.host.NoFile s.rootRoute) : s.Founded := by
  have habove : ∀ place ∈ s.rootRoute, place <+: s.base := by
    intro place hplace
    obtain ⟨front, ⟨rest, hrest⟩, rfl⟩ := mem_route_iff.mp hplace
    rw [base, Host.goal, ← hrest, settle_append]
    exact prefix_settle fun hmem => hplain (hrest ▸ List.mem_append_right _ hmem)
  refine ⟨htext, or_iff_not_imp_left.mpr fun hclosed => ⟨hfits, hstart, hfree, fun names hne => ?_,
    fun names hne hplace => ?_⟩⟩
  · by_contra hsome
    have hfolder := Host.layout_of_append hne hsome
    refine hclosed fun place hplace => ?_
    obtain ⟨rest, hrest⟩ := habove place hplace
    by_cases hnil : rest = []
    · rwa [← hrest, hnil, List.append_nil] at hfolder
    · exact Host.layout_of_append hnil (by simp [hrest, hfolder])
  · have hlength := (habove _ hplace).length_le
    rw [List.length_append] at hlength
    exact hne (List.length_eq_zero_iff.mp (by omega))

/-! ## Success -/

/-- When a put succeeds, the parents have been made and the file was written. -/
lemma put_of_ok (hok : (s.put l content now).1 = .ok ()) :
    l.isObject = true ∧ l.hasParentName = false ∧ ∃ host,
      (s.host.makeParents (s.path l)).2.writeFile (s.path l) content = .ok host ∧
        (s.put l content now).2 = { s with host } := by
  rcases s.put_cases l content now with
    ⟨e', hput⟩ | ⟨hobject, hparent, ⟨e', hput⟩ | ⟨host, hwrite, hput⟩⟩
  · rw [hput] at hok
    cases hok
  · rw [hput] at hok
    cases hok
  · exact ⟨hobject, hparent, host, hwrite, by rw [hput]⟩

/-- The names of the directories above a location that are missing; the root directory may be one of
them. -/
def missingAbove (s : DiskStore) (l : Location) : List (List String) :=
  l.names.dropLast.inits.filter fun names => s.view names = none

lemma mem_missingAbove :
    names ∈ s.missingAbove l ↔ names <+: l.names.dropLast ∧ s.view names = none := by
  simp [missingAbove]

lemma nodup_missingAbove : (s.missingAbove l).Nodup := (nodup_inits _).filter _

lemma isName_of_mem_missingAbove (hmem : names ∈ s.missingAbove l) : ∀ name ∈ names, IsName name :=
  fun name hname =>
    l.isName_of_mem name (List.dropLast_subset _ ((mem_missingAbove.mp hmem).1.subset hname))

/-- When the directory that holds a location is there, then so are all above it. -/
lemma newAbove_eq_missingAbove (hroom : s'.view l.names.dropLast = some .folder) :
    s.newAbove s' l = s.missingAbove l := by
  refine List.filter_congr fun front hfront => ?_
  have hfolder : s'.view front = some .folder := by
    obtain ⟨rest, hrest⟩ := (List.mem_inits _ _).mp hfront
    rw [← hrest] at hroom
    by_cases hnil : rest = []
    · rwa [hnil, List.append_nil] at hroom
    · exact view_of_append hnil (by simp [hroom])
  simp [hfolder]

/-- The store is the first one with an object at a location and the directories above it that were
missing. -/
structure Accommodates (s s' : DiskStore) (l : Location) (content : ByteArray) : Prop where
  continues : s.Continues s'
  isOpen : s'.IsOpen
  place : s.view l.names ≠ some .folder
  view : ∀ names, s'.view names = if names = l.names then some (.file content)
    else if names ∈ s.missingAbove l then some .folder else s.view names

/-- After a put that succeeded, the object and the missing directories above it have come into
view. -/
lemma accommodates_put (hfounded : s.Founded) (hl : s.Admits l)
    (hok : (s.put l content now).1 = .ok ()) :
    s.Accommodates (s.put l content now).2 l content := by
  obtain ⟨hobject, hparent, host, hwrite, hput⟩ := put_of_ok hok
  have hopen' := (put_evolves hl hok).1
  rw [hput] at hopen' ⊢
  have hgrows : s.GrowsAbove _ l := growsAbove_makeParents hobject hparent
  generalize (s.host.makeParents (s.path l)).2 = mid at hwrite hgrows
  obtain ⟨names, last, hplace, -⟩ := Host.exists_of_writeFile hwrite
  have hroom : view { s with host := mid } l.names.dropLast = some .folder :=
    room_of_place (hgrows.continues.admits.mpr hl) hplace
  have hview := hgrows.view_eq hfounded
  rw [newAbove_eq_missingAbove hroom] at hview
  obtain ⟨hfree, hbecomes⟩ := Host.writeFile_ok hwrite
  have hgoal : mid.goal (s.path l) = s.base ++ l.names := by
    rw [← hgrows.continues.base]
    exact goal_path (s := { s with host := mid }) hparent
  rw [hgoal] at hfree hbecomes
  have hcontinues : s.Continues { s with host } := hgrows.continues.becomes hbecomes
  refine ⟨hcontinues, hopen', fun hfolder => hfree ?_, fun names => ?_⟩
  · have hfolder' := hgrows.view_of_some hfounded hfolder
    rwa [view_of_isOpen (isOpen_of_view_eq hroom), hgrows.continues.base] at hfolder'
  · rw [view_of_isOpen hopen', hcontinues.base, hbecomes.layout,
      Layout.plant_file fun rest hrest => Host.layout_below hfree hrest, ← hview,
      view_of_isOpen (isOpen_of_view_eq hroom), hgrows.continues.base]
    simp only [List.append_right_inj]

/-- When nothing in view is in the way of an object, then nothing on the host is. -/
lemma hasWay_of_view (hfounded : s.Founded) (hl : s.Admits l)
    (habove : ∀ front, front <+: l.names → front ≠ l.names →
      ∀ bytes, s.view front ≠ some (.file bytes))
    (hplace : s.view l.names ≠ some .folder) :
    s.HasWay l ∧ ∀ place ∈ s.rootRoute, ¬ s.base ++ l.names <+: place := by
  rcases hfounded.ground with hopen | hcreatable
  · rw [view_of_isOpen hopen] at hplace
    refine ⟨⟨hopen.layout_start, Host.AllFolders.noFile hopen,
      fun front hfront hne bytes => ?_, hplace⟩, fun place hroot hbelow => ?_⟩
    · rw [← view_of_isOpen hopen]
      exact habove front hfront hne bytes
    · exact Host.not_prefix_of_folder hplace (hopen place hroot) hbelow
  · exact ⟨hcreatable.hasWay hl.names_ne_nil, hcreatable.off_rootRoute hl.names_ne_nil⟩

/-- An object can be put unless there is a directory at its location or a file above it. -/
lemma put_ok_iff (hfounded : s.Founded) (hl : s.Admits l) (hobject : l.isObject = true) :
    (s.put l content now).1 = .ok () ↔
      (∀ front, front <+: l.names → front ≠ l.names → ∀ bytes, s.view front ≠ some (.file bytes)) ∧
        s.view l.names ≠ some .folder := by
  constructor
  · intro hok
    have hafter := accommodates_put hfounded hl hok
    refine ⟨fun front hfront hne bytes hfile => ?_, hafter.place⟩
    -- The file would still be there, with the object below it.
    obtain ⟨rest, hrest⟩ := hfront
    have hrest' : rest ≠ [] := by
      rintro rfl
      exact hne (by simpa using hrest)
    have hobject := hafter.view l.names
    have hfront := hafter.view front
    rw [if_pos rfl, ← hrest] at hobject
    rw [if_neg hne, if_neg (by simp [mem_missingAbove, hfile]), hfile,
      view_of_append hrest' (by simp [hobject])] at hfront
    cases hfront
  · rintro ⟨habove, hplace⟩
    obtain ⟨hway, hoff⟩ := hasWay_of_view hfounded hl habove hplace
    obtain ⟨host, hput⟩ : ∃ host, s.put l content now = (.ok (), { s with host }) :=
      (hway.put_ok hl hobject hoff now).imp fun _ h => h.1
    rw [hput]

/-! ## Objects and entries -/

/-- What is found is within the limits of the host. -/
lemma admits_of_find {node : Node} (hfind : s.find x = .ok node) : s.Admits x := by
  obtain ⟨hroot, hparent, -⟩ := find_ok hfind
  rw [find_of_below s hroot hparent] at hfind
  exact ⟨hroot, hparent, Host.fits_of_lookup (mapError_eq_ok.mp hfind)⟩

/-- The bytes of an object are told exactly where they are in view within the limits of the host. -/
lemma get_eq_ok_iff :
    ObjectStore.get s x = .ok content ↔ s.Admits x ∧ s.view x.names = some (.file content) := by
  constructor
  · intro hget
    obtain ⟨node, hfind, -⟩ := exists_of_bind_eq_ok hget
    have hx := admits_of_find hfind
    refine ⟨hx, ?_⟩
    have hview := (get_eq hx).symm.trans hget
    split at hview
    · rename_i bytes hfile
      rw [hfile, Except.ok.inj hview]
    · cases hview
    · cases hview
  · rintro ⟨hx, hview⟩
    exact (get_eq hx).trans (by rw [hview])

/-- The path of a location within the limits is not too long, and neither is one of those above
it. -/
lemma isLong_of_above (hl : s.Admits l) (habove : names <+: l.names) :
    (names.foldl HostPath.push s.root).isLong = false := by
  obtain ⟨rest, hrest⟩ := habove
  refine HostPath.isLong_of_prefix hl.fits.2.1 ?_
  rw [path, ← hrest, List.foldl_append]
  exact HostPath.text_prefix_foldl_push _ _

/-- The root directory of an open store is found when a location below it is within the limits. -/
lemma exists_root (hroot : s.root.text ≠ "") (hl : s.Admits l) (hopen : s.IsOpen) :
    ∃ inside, s.host.lookup s.root = .ok (.folder inside) := by
  have hfits : s.root.Fits := by
    refine hl.fits.of_prefix (HostPath.text_prefix_foldl_push _ _) fun c hc => ?_
    rw [components_path]
    exact List.mem_append_left _ hc
  obtain ⟨inside, hlookup, -⟩ := Host.lookup_of_allFolders hfits hroot hopen
  exact ⟨inside, hlookup⟩

/-- Within the limits the whole listing of an open store fails only for a path that is too long. -/
lemma long_of_list_root (hwf : s.host.tree.WellFormed) (hroot : s.root.text ≠ "") (hl : s.Admits l)
    (hopen : s.IsOpen) (hlist : s.list .root = .error e) : e = .listFailed .root ∧
      ∃ names, s.view names ≠ none ∧ (names.foldl HostPath.push s.root).isLong = true := by
  obtain ⟨inside, hinside⟩ := exists_root hroot hl hopen
  obtain ⟨rfl, ⟨failure, -, hlookup⟩ | ⟨names, -, hview, hlong⟩⟩ := list_root_error hwf hopen hlist
  · rw [hinside] at hlookup
    cases hlookup
  · exact ⟨rfl, names, hview, hlong⟩

/-- The object, what was listed at other locations, and the missing directories above are different
entries. -/
lemma nodup_accommodated (hwf : s.host.tree.WellFormed) (hroot : s.root.text ≠ "") (hl : s.Admits l)
    (hlist : s.list .root = .ok entries) :
    (s.entryAt l.names (.file content) :: entries.filter (·.location.names ≠ l.names) ++
      ((s.missingAbove l).filter (· ≠ [])).map (s.entryAt · .folder)).Nodup := by
  have hself := names_entryAt l.isName_of_mem s (.file content)
  have hmissing : ∀ m ∈ ((s.missingAbove l).filter (· ≠ [])).map (s.entryAt · .folder),
      m.location.names ∈ s.missingAbove l := by
    intro m hm
    obtain ⟨names, hmem, rfl⟩ := List.mem_map.mp hm
    rw [names_entryAt (isName_of_mem_missingAbove (List.mem_filter.mp hmem).1)]
    exact (List.mem_filter.mp hmem).1
  have hne : ∀ m ∈ ((s.missingAbove l).filter (· ≠ [])).map (s.entryAt · .folder),
      m.location.names ≠ l.names := fun m hm =>
    ne_of_prefix_dropLast hl.names_ne_nil (mem_missingAbove.mp (hmissing m hm)).1
  rw [List.cons_append, List.nodup_cons, List.nodup_append]
  refine ⟨fun hmem => ?_, (nodup_of_list hwf hroot hlist).filter _, ?_, ?_⟩
  · rcases List.mem_append.mp hmem with hother | habove
    · simp [List.mem_filter, hself] at hother
    · exact hne _ habove hself
  · exact nodup_directories (nodup_missingAbove.filter _) fun names hmem =>
      isName_of_mem_missingAbove (List.mem_filter.mp hmem).1
  · -- What was listed was in view, and the missing directories were not.
    rintro m hm m' hm' rfl
    obtain ⟨names, entry, -, hview, rfl⟩ :=
      (mem_list_root hwf hroot hlist _).mp (List.mem_filter.mp hm).1
    have hnone := (mem_missingAbove.mp (hmissing _ hm')).2
    rw [names_entryAt (isName_of_view hwf hview), hview] at hnone
    cases hnone

namespace Accommodates

variable (h : s.Accommodates s' l content) (hwf : s.host.tree.WellFormed) (hfounded : s.Founded)
  (hl : s.Admits l)

include h

/-- What was in view is in view still, though it may have other bytes. -/
lemma view_ne_none (hview : s.view names ≠ none) : s'.view names ≠ none := by
  rw [h.view]
  split
  · simp
  · rwa [if_neg fun hmem => hview (mem_missingAbove.mp hmem).2]

/-- Every other object keeps its bytes, and there are no further ones. -/
lemma get_eq_ok_iff (hx : x.names ≠ l.names) (bytes : ByteArray) :
    ObjectStore.get s' x = .ok bytes ↔ ObjectStore.get s x = .ok bytes := by
  rw [DiskStore.get_eq_ok_iff, DiskStore.get_eq_ok_iff, h.continues.admits, h.view, if_neg hx]
  split
  · rename_i hmem
    simp [(mem_missingAbove.mp hmem).2]
  · rfl

include hwf hfounded hl

lemma list_root_of_error (hlist : s.list .root = .error e) : s'.list .root = .error e := by
  have hopen := GrowsAbove.isOpen_of_list_root_error hfounded hlist
  obtain ⟨rfl, names, hview, hlong⟩ := long_of_list_root hwf hfounded.text hl hopen hlist
  exact list_root_fails (h.continues.wellFormed hwf) (h.continues.root ▸ hfounded.text)
    (h.view_ne_none hview) (h.continues.root ▸ hlong)

/-- A whole listing that succeeded succeeds still: the path of nothing new is too long. -/
lemma exists_list_root (hlist : s.list .root = .ok entries) :
    ∃ entries', s'.list .root = .ok entries' := by
  cases hlist' : s'.list .root with
  | ok entries' => exact ⟨entries', rfl⟩
  | error e =>
    exfalso
    obtain ⟨-, names, hview, hlong⟩ := long_of_list_root (h.continues.wellFormed hwf)
      (h.continues.root ▸ hfounded.text) (h.continues.admits.mpr hl) h.isOpen hlist'
    rw [h.continues.root] at hlong
    have hshort : ∀ above, above <+: l.names → names ≠ above := by
      rintro above habove rfl
      rw [isLong_of_above hl habove] at hlong
      cases hlong
    rw [h.view, if_neg (hshort _ (List.prefix_refl _)), if_neg fun hmem => hshort names
      ((mem_missingAbove.mp hmem).1.trans (List.dropLast_prefix _)) rfl] at hview
    rw [list_root_fails hwf hfounded.text hview hlong] at hlist
    cases hlist

/-- The whole listing lists what it listed at other locations, the object, and the directories that
were missing. -/
lemma perm_list_root {entries' : List ObjectMeta} (hlist : s.list .root = .ok entries)
    (hlist' : s'.list .root = .ok entries') :
    entries'.Perm (s.entryAt l.names (.file content) ::
      entries.filter (·.location.names ≠ l.names) ++
      ((s.missingAbove l).filter (· ≠ [])).map (s.entryAt · .folder)) := by
  refine perm_of_mem_iff h.continues hwf hfounded.text hlist'
    (nodup_accommodated hwf hfounded.text hl hlist) fun m => ?_
  simp only [List.cons_append, List.mem_cons, List.mem_append, List.mem_filter, List.mem_map,
    mem_list_root hwf hfounded.text hlist, decide_eq_true_eq]
  constructor
  · rintro (rfl | ⟨⟨names, entry, hne, hview, rfl⟩, hother⟩ | ⟨names, ⟨hmem, hne⟩, rfl⟩)
    · exact ⟨l.names, .file content, hl.names_ne_nil, by rw [h.view, if_pos rfl], rfl⟩
    · rw [names_entryAt (isName_of_view hwf hview)] at hother
      refine ⟨names, entry, hne, ?_, rfl⟩
      rw [h.view, if_neg hother, if_neg fun hmem => ?_, hview]
      rw [(mem_missingAbove.mp hmem).2] at hview
      cases hview
    · refine ⟨names, .folder, hne, ?_, rfl⟩
      rw [h.view, if_neg (ne_of_prefix_dropLast hl.names_ne_nil (mem_missingAbove.mp hmem).1),
        if_pos hmem]
  · rintro ⟨names, entry, hne, hview, rfl⟩
    rw [h.view] at hview
    split at hview
    · rename_i hsame
      exact .inl (by rw [hsame, ← Option.some.inj hview])
    · rename_i hother
      split at hview
      · rename_i hmem
        exact .inr (.inr ⟨names, ⟨hmem, hne⟩, by rw [Option.some.inj hview]⟩)
      · refine .inr (.inl ⟨⟨names, entry, hne, hview, rfl⟩, ?_⟩)
        rwa [names_entryAt (isName_of_view hwf hview)]

end Accommodates

/-! ## What a reader can tell -/

/-- The store has taken an object in, and nothing else has changed for a reader. -/
structure Receives (s s' : DiskStore) (l : Location) (content : ByteArray) : Prop where
  get : ObjectStore.get s' l = .ok content
  head : ObjectStore.head s' l = .ok (.ofObject l content.size s.stamp)
  others : ∀ x : Location, x.names ≠ l.names → ∀ bytes,
    ObjectStore.get s' x = .ok bytes ↔ ObjectStore.get s x = .ok bytes
  view : ∀ names, s'.view names = if names = l.names then some (.file content)
    else if names ∈ s.missingAbove l then some .folder else s.view names
  list_of_error : ∀ e, ObjectStore.list s .root = .error e → ObjectStore.list s' .root = .error e
  list_of_ok : ∀ entries, ObjectStore.list s .root = .ok entries → ∃ entries',
    ObjectStore.list s' .root = .ok entries' ∧
      entries'.Perm (s.entryAt l.names (.file content) ::
        entries.filter (·.location.names ≠ l.names) ++
        ((s.missingAbove l).filter (· ≠ [])).map (s.entryAt · .folder))

lemma Accommodates.receives (h : s.Accommodates s' l content) (hwf : s.host.tree.WellFormed)
    (hfounded : s.Founded) (hl : s.Admits l) (hobject : l.isObject = true) :
    s.Receives s' l content where
  get := DiskStore.get_eq_ok_iff.mpr ⟨h.continues.admits.mpr hl, by rw [h.view, if_pos rfl]⟩
  head := by
    have hself : l.asObject = l := Location.ext rfl (Location.isObject_iff.mp hobject).2.symm
    have hhead : ObjectStore.head s' l = _ := head_eq (h.continues.admits.mpr hl)
    rw [hhead, h.view, if_pos rfl, hself, h.continues.stamp]
  others _ hx := h.get_eq_ok_iff hx
  view := h.view
  list_of_error _ := h.list_root_of_error hwf hfounded hl
  list_of_ok _ hlist :=
    have ⟨entries', hlist'⟩ := h.exists_list_root hwf hfounded hl hlist
    ⟨entries', hlist', h.perm_list_root hwf hfounded hl hlist hlist'⟩

/-- Within the limits of the host an object can be put unless there is a directory at its location
or a file above it; and then the store has taken it in, and nothing else has changed. -/
theorem put_receives (hwf : s.host.tree.WellFormed) (hfounded : s.Founded) (hl : s.Admits l)
    (hobject : l.isObject = true) :
    ((ObjectStore.put s l content now).1 = .ok () ↔
      (∀ front, front <+: l.names → front ≠ l.names → ∀ bytes, s.view front ≠ some (.file bytes)) ∧
        s.view l.names ≠ some .folder) ∧
    ((ObjectStore.put s l content now).1 = .ok () →
      s.Receives (ObjectStore.put s l content now).2 l content) :=
  ⟨put_ok_iff hfounded hl hobject,
    fun hok => (accommodates_put hfounded hl hok).receives hwf hfounded hl hobject⟩

/-- The root directory and the directory `a` are made, and then the object is written. -/
theorem emptySample_receives :
    Replay.emptySample.missingAbove (.ofText "a/b") = [[], ["a"]] ∧
      Replay.emptySample.Receives
      (ObjectStore.put Replay.emptySample (.ofText "a/b") ⟨#[1]⟩ .epoch).2
        (.ofText "a/b") ⟨#[1]⟩ := by
  have hroot : Replay.emptySample.rootRoute = [["w"], ["w", "t"]] := by decide +kernel
  have hfolder : Replay.emptySample.host.layout ["w"] = some .folder := by decide +kernel
  have hnone : Replay.emptySample.host.layout ["w", "t"] = none := Host.layout_bare ["w"] "t" []
  have hfree : Replay.emptySample.host.NoFile Replay.emptySample.rootRoute := by
    rw [hroot]
    simp [Host.NoFile, hfolder, hnone]
  have hfounded : Replay.emptySample.Founded :=
    founded_of_plain (by decide) (by decide +kernel) (by decide +kernel) (by decide +kernel) hfree
  exact ⟨by decide +kernel, (put_receives (by decide +kernel) hfounded (by decide +kernel)
    (by decide +kernel)).2 (by decide +kernel)⟩

/-- A root path may lead through a directory that is missing and back out of it.  That directory is
made with the root, and then it is below the root, where nobody has put anything. -/
theorem put_shows_way_of_root : ∃ s : DiskStore, ∃ l content now,
    s.host.tree.WellFormed ∧ s.root.text ≠ "" ∧ (s.host.makeDirectories s.root).1 = .ok () ∧
      s.Admits l ∧ l.isObject = true ∧ l.names.dropLast = [] ∧ (∀ names, s.view names = none) ∧
      ObjectStore.list s .root = .ok [] ∧ (ObjectStore.put s l content now).1 = .ok () ∧
      ObjectStore.list (ObjectStore.put s l content now).2 .root =
        .ok [s.entryAt ["x"] .folder, s.entryAt l.names (.file content)] := by
  refine ⟨⟨.bare ["w"], ⟨"t/x/.."⟩, .hardLink, .epoch⟩, .ofText "a", ⟨#[1]⟩, .epoch,
    by decide +kernel, by decide, by decide +kernel, by decide +kernel, by decide +kernel,
    by decide +kernel, fun names => ?_, by decide +kernel, by decide +kernel, by decide +kernel⟩
  exact if_neg (by decide +kernel)

end DiskStore

end CommitStore
