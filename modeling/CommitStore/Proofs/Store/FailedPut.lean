import CommitStore.Proofs.Store.NewDirectories

/-!
# What a failed put leaves behind

To put an object in a directory takes two steps: the directories above it are made, and then its
file is written.  When the second step fails, or the first one half-way, the directories that were
made stay (`DiskStore.put_of_error`).  A location within the limits of the host is refused before
anything is made (`DiskStore.put_of_fits`), so only one that exceeds them leaves a trace at all.
But such a trace can be seen.
-/

namespace CommitStore

namespace DiskStore

variable {s s' : DiskStore} {l : Location} {content : ByteArray} {now : Instant} {e : StoreError}

/-! ## Putting an object -/

/-- After a failure the host is the one before, or the one on which the parents have been made. -/
lemma put_of_error (herror : (s.put l content now).1 = .error e) : (s.put l content now).2 = s ∨
    l.isObject = true ∧ l.hasParentName = false ∧
      (s.put l content now).2 = { s with host := (s.host.makeParents (s.path l)).2 } := by
  rcases s.put_cases l content now with
    ⟨e', hput⟩ | ⟨hobject, hparent, ⟨e', hput⟩ | ⟨host, -, hput⟩⟩
  · exact .inl (by rw [hput])
  · exact .inr ⟨hobject, hparent, by rw [hput]⟩
  · rw [hput] at herror
    cases herror

/-- A directory above a location is made only if its path, which is no longer than that of the
nearest directory above the location, is not too long. -/
lemma isLong_of_made {names : List String} (hentry : ∀ name ∈ l.names, Directory.IsEntryName name)
    (habove : names <+: l.names.dropLast) (hne : names ≠ [])
    (hchanged : (s.host.makeParents (s.path l)).2 ≠ s.host) :
    (names.foldl HostPath.push s.root).isLong = false := by
  obtain ⟨rest, hrest⟩ := habove
  obtain ⟨before, a, hbefore⟩ :=
    (List.eq_nil_or_concat (names ++ rest)).resolve_left (by simp [hne])
  rw [List.concat_eq_append] at hbefore
  have hnonempty : l.names ≠ [] := by
    intro hnil
    rw [hnil] at hrest
    exact hne (List.append_eq_nil_iff.mp hrest).1
  obtain ⟨last, hnames⟩ : ∃ last, l.names = before ++ [a] ++ [last] :=
    ⟨l.names.getLast hnonempty, by rw [← hbefore, hrest, List.dropLast_append_getLast]⟩
  have hname : ∀ name ∈ l.names, HostPath.IsComponent name ∧ name ≠ "." := fun name hname =>
    ⟨l.isComponent_of_mem name hname, (hentry name hname).2.1⟩
  have ha := hname a (by simp [hnames])
  have hlast := hname last (by simp [hnames])
  have hpath : s.path l = ((before.foldl HostPath.push s.root).push a).push last := by
    simp [path, hnames]
  have hshort := Host.isLong_of_makeParents
    (by rw [hpath]; exact HostPath.parent?_push_push ha.1 ha.2 hlast.1 hlast.2) hchanged
  refine HostPath.isLong_of_prefix hshort ?_
  have hfull : (before.foldl HostPath.push s.root).push a =
      rest.foldl HostPath.push (names.foldl HostPath.push s.root) := by
    rw [← List.foldl_append, hbefore, List.foldl_append]
    rfl
  rw [hfull]
  exact HostPath.text_prefix_foldl_push _ _

lemma growsAbove_makeParents (hobject : l.isObject = true) (hparent : l.hasParentName = false) :
    s.GrowsAbove { s with host := (s.host.makeParents (s.path l)).2 } l := by
  have hne : l.names ≠ [] := by simpa [Location.isRoot] using Location.isRoot_of_isObject hobject
  obtain ⟨front, last, hnames⟩ := (List.eq_nil_or_concat l.names).resolve_left hne
  rw [List.concat_eq_append] at hnames
  have hentry := Location.isEntryName_of_mem hparent
  have hdrop : l.names.dropLast = front := by rw [hnames, List.dropLast_concat]
  have hcomponents : (s.path l).components = (s.root.components ++ front) ++ [last] := by
    rw [components_path, hnames, List.append_assoc]
  have hgrows := s.host.grows_makeParents_front hcomponents (hentry last (by simp [hnames])).2.1
  refine ⟨.of_grows hgrows, hgrows.mono fun place hplace => ?_,
    fun names habove hnil hnone hsome => ?_⟩
  · rw [start_path, mem_route_names fun c hc => hentry c (by simp [hnames, hc])] at hplace
    rw [hdrop, List.mem_append, List.mem_map]
    rcases hplace with hroot | ⟨first, hfirst, hsame⟩
    · exact .inl hroot
    · exact .inr ⟨first, by simpa using hfirst, hsame.symm⟩
  · refine isLong_of_made hentry habove hnil fun hsame => hsome ?_
    rw [hsame]
    exact hnone

lemma growsAbove_put (herror : (s.put l content now).1 = .error e) :
    s.GrowsAbove (s.put l content now).2 l := by
  rcases put_of_error herror with hsame | ⟨hobject, hparent, hsame⟩
  · rw [hsame]
    exact .refl s l
  · rw [hsame]
    exact growsAbove_makeParents hobject hparent

/-- On a way to a free place nothing is in the way, since only a directory has something below
it. -/
lemma hasWay_of_new {front : List String} (hopen : s.IsOpen) (hgrows : s.GrowsAbove s' l)
    (hfront : front <+: l.names) (hne : front ≠ l.names)
    (hnone : s.host.layout (s.base ++ front) = none)
    (hfolder : s'.host.layout (s.base ++ front) = some .folder) : s.HasWay l := by
  have hbelow : ∀ names, front <+: names → s.host.layout (s.base ++ names) = none := by
    rintro names ⟨rest, rfl⟩
    by_contra hthere
    by_cases hrest : rest = []
    · simp [hrest, hnone] at hthere
    · rw [← List.append_assoc] at hthere
      rw [Host.layout_of_append hrest hthere] at hnone
      cases hnone
  refine ⟨hopen.layout_start, Host.AllFolders.noFile hopen,
    fun names habove _ content hfile => ?_, ?_⟩
  · rcases List.prefix_or_prefix_of_prefix habove hfront with hover | hunder
    · -- The file would be above the new directory.
      obtain ⟨rest, rfl⟩ := hover
      have hfile' := hgrows.grows.layout_of_some hfile
      by_cases hrest : rest = []
      · rw [hrest, List.append_nil, hfile] at hnone
        cases hnone
      · rw [← List.append_assoc] at hfolder
        rw [Host.layout_of_append hrest (ne_of_eq_of_ne hfolder (by simp))] at hfile'
        cases hfile'
    · rw [hbelow names hunder] at hfile
      cases hfile
  · rw [hbelow l.names hfront]
    simp

/-- Where the root is to be made, nothing is in the way of an object. -/
lemma Creatable.hasWay (h : s.Creatable) (hne : l.names ≠ []) : s.HasWay l where
  start := h.start
  root := h.noFile
  above front _ _ content := by
    by_cases hfront : front = []
    · rw [hfront, List.append_nil]
      exact h.noFile _ (settle_mem_route _ _) content
    · simp [h.nothing front hfront]
  place := by simp [h.nothing l.names hne]

lemma Creatable.off_rootRoute (h : s.Creatable) (hne : l.names ≠ []) :
    ∀ place ∈ s.rootRoute, ¬ s.base ++ l.names <+: place := by
  rintro _ hplace ⟨rest, rfl⟩
  rw [List.append_assoc] at hplace
  exact h.off _ (by simp [hne]) hplace

/-- Within the limits of the host nothing is made unless the object is written too. -/
lemma put_of_fits (hfounded : s.Founded) (hfits : (s.path l).Fits)
    (herror : (s.put l content now).1 = .error e) : (s.put l content now).2 = s := by
  rcases put_of_error herror with hsame | ⟨hobject, hparent, hsame⟩
  · exact hsame
  rw [hsame]
  have hl : s.Admits l := ⟨Location.isRoot_of_isObject hobject, hparent, hfits⟩
  rcases s.host.makeParents_cases (s.path l) with hhost | ⟨place, hnone, hfolder⟩
  · rw [hhost]
  exfalso
  have hgrows : s.GrowsAbove _ l := growsAbove_makeParents hobject hparent
  obtain ⟨hway, hoff⟩ : s.HasWay l ∧ ∀ place ∈ s.rootRoute, ¬ s.base ++ l.names <+: place := by
    rcases hfounded.ground with hopen | hcreatable
    · have hplace := ((hgrows.grows.layout place).resolve_left (by simp [hnone, hfolder])).2.2
      rcases List.mem_append.mp hplace with hroot | habove
      · rw [hopen place hroot] at hnone
        cases hnone
      obtain ⟨front, hfront, rfl⟩ := List.mem_map.mp habove
      rw [List.mem_inits] at hfront
      have hbelow := hfront.trans (List.dropLast_prefix l.names)
      have hne := ne_of_prefix_dropLast hl.names_ne_nil hfront
      refine ⟨hasWay_of_new hopen hgrows hbelow hne hnone hfolder, fun place hplace hover => ?_⟩
      have hover' := ((List.prefix_append_right_inj s.base).mpr hbelow).trans hover
      exact Host.not_prefix_of_none hnone (by simp [hopen place hplace]) hover'
    · exact ⟨hcreatable.hasWay hl.names_ne_nil, hcreatable.off_rootRoute hl.names_ne_nil⟩
  obtain ⟨host, hput⟩ : ∃ host, s.put l content now = (.ok (), { s with host }) :=
    (hway.put_ok hl hobject hoff now).imp fun _ h => h.1
  rw [hput] at herror
  cases herror

/-! ## What is left behind -/

/-- A failed put leaves nothing behind if it was refused for its location, or if the location is
within the limits of the host; otherwise it leaves at most directories above the location. -/
theorem failed_put_leaves_directories (hwf : s.host.tree.WellFormed) (hfounded : s.Founded)
    (herror : (ObjectStore.put s l content now).1 = .error e) :
    (l.isObject = false ∨ l.hasParentName = true ∨ (s.path l).Fits →
      (ObjectStore.put s l content now).2 = s) ∧
      s.LeavesDirectories (ObjectStore.put s l content now).2 l := by
  refine ⟨?_, (growsAbove_put herror).leavesDirectories hwf hfounded⟩
  rintro (hobject | hparent | hfits)
  · rcases put_of_error herror with hsame | ⟨hobject', -, -⟩
    · exact hsame
    · rw [hobject] at hobject'
      cases hobject'
  · rcases put_of_error herror with hsame | ⟨-, hparent', -⟩
    · exact hsame
    · rw [hparent] at hparent'
      cases hparent'
  · exact put_of_fits hfounded hfits herror

/-- The last name cannot be stored, and the directory `d` above it has been made. -/
theorem sampleOfTwo_leavesDirectories :
    (ObjectStore.put sampleOfTwo (.ofText "d/\x00") ⟨#[1]⟩ .epoch).1 =
        .error (.hostFailed (.ofText "d/\x00")) ∧
      sampleOfTwo.newAbove (ObjectStore.put sampleOfTwo (.ofText "d/\x00") ⟨#[1]⟩ .epoch).2
        (.ofText "d/\x00") = [["d"]] ∧
      sampleOfTwo.LeavesDirectories (ObjectStore.put sampleOfTwo (.ofText "d/\x00") ⟨#[1]⟩ .epoch).2
        (.ofText "d/\x00") :=
  have herror : (ObjectStore.put sampleOfTwo (.ofText "d/\x00") ⟨#[1]⟩ .epoch).1 =
      .error (.hostFailed (.ofText "d/\x00")) := by decide +kernel
  ⟨herror, by decide +kernel, (failed_put_leaves_directories (by decide +kernel)
    ⟨by decide, .inl (by decide +kernel)⟩ herror).2⟩

/-- The directory that a failed put has made is listed, and it is found where nothing was. -/
theorem failed_put_shows : ∃ s : DiskStore, ∃ l x content now e,
    s.host.tree.WellFormed ∧ s.IsOpen ∧ (ObjectStore.put s l content now).1 = .error e ∧
      ObjectStore.list (ObjectStore.put s l content now).2 .root ≠ ObjectStore.list s .root ∧
      ObjectStore.get (ObjectStore.put s l content now).2 x ≠ ObjectStore.get s x ∧
      ObjectStore.exists? s x = .ok false ∧
      ObjectStore.exists? (ObjectStore.put s l content now).2 x = .ok true :=
  ⟨sampleOfTwo, .ofText "d/\x00", .ofText "d", ⟨#[1]⟩, .epoch, .hostFailed (.ofText "d/\x00"),
    by decide +kernel, by decide +kernel, by decide +kernel, by decide +kernel, by decide +kernel,
    by decide +kernel, by decide +kernel⟩

end DiskStore

end CommitStore
