import CommitStore.Proofs.Host.Making
import CommitStore.Proofs.Store.DiskView

/-!
# What the operations of a store in a directory change

An operation that fails leaves everything as it was, except that `put` may have made directories.
An operation that succeeds changes the host at the places of its locations and nowhere else.  For
each operation one lemma gives its outcome together with the change of the host:
`DiskStore.put_effect` and its like.  The store after an operation is the same one on a changed
host, which is `DiskStore.Continues`.
-/

namespace CommitStore

namespace DiskStore

variable {s s' s'' : DiskStore} {l source target : Location} {content : ByteArray} {now : Instant}

/-- The same store, on a host with the same working directory. -/
structure Continues (s s' : DiskStore) : Prop where
  root : s'.root = s.root
  strategy : s'.strategy = s.strategy
  stamp : s'.stamp = s.stamp
  workingDirectory : s'.host.workingDirectory = s.host.workingDirectory
  wellFormed : s.host.tree.WellFormed → s'.host.tree.WellFormed

namespace Continues

lemma refl (s : DiskStore) : s.Continues s := ⟨rfl, rfl, rfl, rfl, id⟩

lemma trans (h : s.Continues s') (h' : s'.Continues s'') : s.Continues s'' :=
  ⟨h'.root.trans h.root, h'.strategy.trans h.strategy, h'.stamp.trans h.stamp,
    h'.workingDirectory.trans h.workingDirectory, fun hwf => h'.wellFormed (h.wellFormed hwf)⟩

lemma start (h : s.Continues s') : s'.host.start s'.root = s.host.start s.root := by
  simp [Host.start, h.root, h.workingDirectory]

lemma base (h : s.Continues s') : s'.base = s.base := by
  rw [DiskStore.base, Host.goal, h.start, h.root]
  rfl

lemma path (h : s.Continues s') (l : Location) : s'.path l = s.path l := by
  simp [DiskStore.path, h.root]

lemma admits (h : s.Continues s') : s'.Admits l ↔ s.Admits l :=
  ⟨fun ha => ⟨ha.not_root, ha.no_parent, h.path l ▸ ha.fits⟩,
    fun ha => ⟨ha.not_root, ha.no_parent, (h.path l).symm ▸ ha.fits⟩⟩

lemma of_becomes {host : Host} {layout : Layout} (h : s.host.Becomes host layout) :
    s.Continues { s with host } :=
  ⟨rfl, rfl, rfl, h.workingDirectory, h.wellFormed⟩

lemma becomes {mid host : Host} {layout : Layout} (h : s.Continues { s with host := mid })
    (hbecomes : mid.Becomes host layout) : s.Continues { s with host } :=
  h.trans (of_becomes (s := { s with host := mid }) hbecomes)

lemma of_grows {host : Host} {places : List (List String)} (h : s.host.Grows host places) :
    s.Continues { s with host } :=
  ⟨rfl, rfl, rfl, h.workingDirectory, h.wellFormed⟩

end Continues

/-! ## Where a location can be used -/

/-- The places that the root path leads through. -/
def rootRoute (s : DiskStore) : List (List String) := route (s.host.start s.root) s.root.components

lemma Continues.rootRoute (h : s.Continues s') : s'.rootRoute = s.rootRoute := by
  rw [DiskStore.rootRoute, h.start, h.root]
  rfl

/-- The way along some names below the root leads through the places of the root path first. -/
lemma mem_route_names {names place : List String} (hnames : ∀ c ∈ names, Directory.IsEntryName c) :
    place ∈ route (s.host.start s.root) (s.root.components ++ names) ↔
      place ∈ s.rootRoute ∨ ∃ front, front <+: names ∧ place = s.base ++ front := by
  rw [mem_route_append, rootRoute]
  refine or_congr_right ?_
  rw [mem_route_iff]
  have hsettle : ∀ front, front <+: names →
      settle (settle (s.host.start s.root) s.root.components) front = s.base ++ front :=
    fun front hfront =>
    settle_of_isEntryName fun c hc => hnames c (hfront.subset hc)
  constructor
  · rintro ⟨front, hfront, rfl⟩
    exact ⟨front, hfront, hsettle front hfront⟩
  · rintro ⟨front, hfront, rfl⟩
    exact ⟨front, hfront, hsettle front hfront⟩

lemma mem_route_path (h : l.hasParentName = false) {place : List String} :
    place ∈ route (s.host.start s.root) (s.root.components ++ l.names) ↔
      place ∈ s.rootRoute ∨ ∃ front, front <+: l.names ∧ place = s.base ++ front :=
  mem_route_names (Location.isEntryName_of_mem h)

lemma exists_concat_names (hl : s.Admits l) : ∃ front last, l.names = front ++ [last] ∧
    Directory.IsEntryName last ∧ (∀ c ∈ front, Directory.IsEntryName c) := by
  obtain ⟨front, last, hnames⟩ := (List.eq_nil_or_concat l.names).resolve_left hl.names_ne_nil
  rw [List.concat_eq_append] at hnames
  have hentry := Location.isEntryName_of_mem hl.no_parent
  rw [hnames] at hentry
  exact ⟨front, last, hnames, hentry last (by simp), fun c hc => hentry c (by simp [hc])⟩

/-- The way to a directory of a store leads through directories. -/
lemma allFolders_of_view {front : List String} (hfront : ∀ c ∈ front, Directory.IsEntryName c)
    (h : s.view front = some .folder) :
    s.host.AllFolders (route (s.host.start s.root) (s.root.components ++ front)) := by
  have hopen : s.IsOpen := isOpen_of_view_eq h
  intro place hplace
  rcases mem_route_append.mp hplace with hplace | hplace
  · exact hopen place hplace
  obtain ⟨first, ⟨rest, rfl⟩, rfl⟩ := mem_route_iff.mp hplace
  rw [settle_of_isEntryName fun c hc => hfront c (List.mem_append_left _ hc)]
  have hfirst : s.view first = some .folder := by
    cases rest with
    | nil => simpa using h
    | cons c rest => exact view_of_append (List.cons_ne_nil c rest) (by simp [h])
  rwa [view_of_isOpen hopen] at hfirst

/-- Where the way leads through directories, the store is open and there is a directory at the
end. -/
lemma view_of_allFolders {front : List String} (hfront : ∀ c ∈ front, Directory.IsEntryName c)
    (h : s.host.AllFolders (route (s.host.start s.root) (s.root.components ++ front))) :
    s.view front = some .folder := by
  have hopen : s.IsOpen := fun place hplace => h place (mem_route_append.mpr (.inl hplace))
  rw [view_of_isOpen hopen]
  refine h _ (mem_route_append.mpr (.inr ?_))
  rw [← settle_of_isEntryName hfront]
  exact settle_mem_route _ _

/-- A location can be used when the directory that should hold it is there. -/
lemma resolves_path (hl : s.Admits l) (h : s.view l.names.dropLast = some .folder) :
    s.host.Resolves (s.path l) := by
  obtain ⟨front, last, hnames, hlast, hfront⟩ := exists_concat_names hl
  rw [hnames, List.dropLast_concat] at h
  have hcomponents : (s.path l).components = (s.root.components ++ front) ++ [last] := by
    rw [components_path, hnames, List.append_assoc]
  refine Host.resolves_of_folders hl.fits hcomponents hlast (asksDirectory_path hl.names_ne_nil) ?_
  rw [start_path]
  exact allFolders_of_view hfront h

/-- Without the directory that should hold it, the place of a location does not resolve. -/
lemma place_path_error (hl : s.Admits l) (h : s.view l.names.dropLast ≠ some .folder) :
    ∃ e : HostError, e.IsAbsence ∧ s.host.place (s.path l) = .error e := by
  obtain ⟨front, last, hnames, -, hfront⟩ := exists_concat_names hl
  rw [hnames, List.dropLast_concat] at h
  have hcomponents : (s.path l).components = (s.root.components ++ front) ++ [last] := by
    rw [components_path, hnames, List.append_assoc]
  refine Host.place_error hl.fits hcomponents fun hroute => h ?_
  rw [start_path] at hroute
  exact view_of_allFolders hfront hroute

/-- What stands at a location stands in a directory. -/
lemma view_dropLast (hl : s.Admits l) (h : s.view l.names ≠ none) :
    s.view l.names.dropLast = some .folder := by
  obtain ⟨front, last, hnames, -, -⟩ := exists_concat_names hl
  rw [hnames] at h ⊢
  rw [List.dropLast_concat]
  exact view_of_append (List.cons_ne_nil last []) h

/-! ## The effects -/

lemma mapError_eq_ok {ε ε' α : Type} {f : ε → ε'} {x : Except ε α} {a : α} :
    x.mapError f = .ok a ↔ x = .ok a := by
  cases x <;> simp [Except.mapError]

lemma resolve_ok {p : HostPath} (h : s.resolve l = .ok p) :
    l.hasParentName = false ∧ p = s.path l := by
  unfold resolve at h
  split at h
  · cases h
  · rename_i hparent
    exact ⟨by simpa using hparent, (Except.ok.inj h).symm⟩

lemma resolveObject_ok {p : HostPath} (h : s.resolveObject l = .ok p) :
    l.isObject = true ∧ l.hasParentName = false ∧ p = s.path l := by
  unfold resolveObject at h
  split at h
  · rename_i hobject
    exact ⟨hobject, resolve_ok h⟩
  · cases h

/-- A change that fails keeps the store as it is. -/
lemma change_cases (s : DiskStore) (result : Except StoreError Host) :
    (∃ e, result = .error e ∧ s.change result = (.error e, s)) ∨
      ∃ host, result = .ok host ∧ s.change result = (.ok (), { s with host }) := by
  cases result with
  | error e => exact .inl ⟨e, rfl, rfl⟩
  | ok host => exact .inr ⟨host, rfl, rfl⟩

/-- A put is refused for its location, or the parents are made, and then it fails or writes the
file. -/
lemma put_cases (s : DiskStore) (l : Location) (content : ByteArray) (now : Instant) :
    (∃ e, s.put l content now = (.error e, s)) ∨
      l.isObject = true ∧ l.hasParentName = false ∧
        ((∃ e, s.put l content now =
          (.error e, { s with host := (s.host.makeParents (s.path l)).2 })) ∨
          ∃ host, (s.host.makeParents (s.path l)).2.writeFile (s.path l) content = .ok host ∧
            s.put l content now = (.ok (), { s with host })) := by
  rw [put]
  cases hresolve : s.resolveObject l with
  | error e => exact .inl ⟨e, rfl⟩
  | ok path =>
    obtain ⟨hobject, hparent, rfl⟩ := resolveObject_ok hresolve
    refine .inr ⟨hobject, hparent, ?_⟩
    rw [Host.makeParents]
    cases hmake : (s.path l).parent?.elim (.ok (), s.host) s.host.makeDirectories with
    | mk result mid =>
      simp only [hmake]
      cases result with
      | error e => exact .inl ⟨_, rfl⟩
      | ok =>
        rcases change_cases { s with host := mid }
          ((mid.writeFile (s.path l) content).mapError fun _ => .hostFailed l) with
          ⟨e, -, herror⟩ | ⟨host, hwrite, hok⟩
        · exact .inl ⟨e, herror⟩
        · exact .inr ⟨host, mapError_eq_ok.mp hwrite, hok⟩

/-- Putting an object makes the directories above it and then writes its file. -/
lemma put_effect (s : DiskStore) (l : Location) (content : ByteArray) (now : Instant) :
    (∃ e, s.put l content now = (.error e, s)) ∨
      l.isObject = true ∧ l.hasParentName = false ∧
        ∃ mid, s.host.Grows mid (route (s.host.start s.root) (s.root.components ++ l.names)) ∧
          ((∃ e, s.put l content now = (.error e, { s with host := mid })) ∨
            ∃ host, s.put l content now = (.ok (), { s with host }) ∧
              mid.writeFile (s.path l) content = .ok host ∧
              mid.layout (s.base ++ l.names) ≠ some .folder ∧
              mid.Becomes host (mid.layout.plant (s.base ++ l.names) (.ofFile content))) := by
  rcases s.put_cases l content now with hrefused | ⟨hobject, hparent, hput⟩
  · exact .inl hrefused
  have hgrows := s.host.grows_makeParents (s.path l)
  rw [start_path, components_path] at hgrows
  refine .inr ⟨hobject, hparent, _, hgrows, hput.imp_right fun ⟨host, hwrite, hok⟩ => ?_⟩
  obtain ⟨hfree, hbecomes⟩ := Host.writeFile_ok hwrite
  rw [hgrows.goal, goal_path hparent] at hfree hbecomes
  exact ⟨host, hok, hwrite, hfree, hbecomes⟩

lemma delete_effect (hwf : s.host.tree.WellFormed) (l : Location) :
    (∃ e, s.delete l = (.error e, s)) ∨
      ∃ host, s.delete l = (.ok (), { s with host }) ∧ l.hasParentName = false ∧
        s.host.removeFile (s.path l) = .ok host ∧
        (∃ content, s.host.layout (s.base ++ l.names) = some (.file content)) ∧
        s.host.Becomes host (s.host.layout.clear (s.base ++ l.names)) := by
  rcases s.change_cases _ with ⟨e, -, herror⟩ | ⟨host, hr, hok⟩
  · exact .inl ⟨e, herror⟩
  obtain ⟨path, hpath, hr⟩ := exists_of_bind_eq_ok hr
  obtain ⟨hparent, rfl⟩ := resolve_ok hpath
  have hremoved := mapError_eq_ok.mp hr
  have hremove := Host.removeFile_ok hwf hremoved
  rw [goal_path hparent] at hremove
  exact .inr ⟨host, hok, hparent, hremoved, hremove⟩

/-- What moving something from one place of a store to another does to its host. -/
def Moves (s : DiskStore) (source target : Location) (host : Host) : Prop :=
  (s.base ++ source.names = s.base ++ target.names ∧
      s.host.layout (s.base ++ source.names) ≠ none ∧ host = s.host) ∨
    (Host.Movable s.host.layout (s.base ++ source.names) (s.base ++ target.names) ∧
      s.host.Becomes host ((s.host.layout.clear (s.base ++ source.names)).plant
        (s.base ++ target.names) (s.host.layout.focus (s.base ++ source.names))))

/-- Renaming moves what is at the first location to the second. -/
lemma rename_effect (hwf : s.host.tree.WellFormed) (source target : Location) :
    (∃ e, s.rename source target = (.error e, s)) ∨
      ∃ host, s.rename source target = (.ok (), { s with host }) ∧
        source.hasParentName = false ∧ target.hasParentName = false ∧
        s.host.move (s.path source) (s.path target) = .ok host ∧ s.Moves source target host := by
  rcases s.change_cases _ with ⟨e, -, herror⟩ | ⟨host, hr, hok⟩
  · exact .inl ⟨e, herror⟩
  obtain ⟨sourcePath, hsource, hr⟩ := exists_of_bind_eq_ok hr
  obtain ⟨targetPath, htarget, hr⟩ := exists_of_bind_eq_ok hr
  obtain ⟨hsourceParent, rfl⟩ := resolve_ok hsource
  obtain ⟨htargetParent, rfl⟩ := resolve_ok htarget
  have hmoved := mapError_eq_ok.mp hr
  have hmoves := Host.move_ok hwf hmoved
  rw [goal_path hsourceParent, goal_path htargetParent] at hmoves
  exact .inr ⟨host, hok, hsourceParent, htargetParent, hmoved, hmoves⟩

/-- Linking puts the bytes of the source at the place of the target, and then clears the place of
the source if the host can. -/
lemma claimByLink_effect (hwf : s.host.tree.WellFormed) (source target : Location) :
    (∃ e, s.claimByLink source target = (.error e, s)) ∨
      ∃ host linked content, s.claimByLink source target = (.ok (), { s with host }) ∧
        source.isObject = true ∧ target.isObject = true ∧
        source.hasParentName = false ∧ target.hasParentName = false ∧
        s.host.link (s.path source) (s.path target) = .ok linked ∧
        s.host.layout (s.base ++ source.names) = some (.file content) ∧
        s.host.layout (s.base ++ target.names) = none ∧
        s.host.Becomes linked (s.host.layout.plant (s.base ++ target.names) (.ofFile content)) ∧
        (linked.Becomes host (linked.layout.clear (s.base ++ source.names)) ∨
          (∃ e, linked.removeFile (s.path source) = .error e) ∧ host = linked) := by
  rcases s.change_cases _ with ⟨e, -, herror⟩ | ⟨host, hr, hok⟩
  · exact .inl ⟨e, herror⟩
  obtain ⟨sourcePath, hsource, hrest⟩ := exists_of_bind_eq_ok hr
  obtain ⟨targetPath, htarget, hrest'⟩ := exists_of_bind_eq_ok hrest
  obtain ⟨linked, hlinked, hlast⟩ := exists_of_bind_eq_ok hrest'
  obtain ⟨hsourceObject, hsourceParent, rfl⟩ := resolveObject_ok hsource
  obtain ⟨htargetObject, htargetParent, rfl⟩ := resolveObject_ok htarget
  have hlinked := mapError_eq_ok.mp hlinked
  obtain ⟨content, hfile, hfree, hbecomes⟩ := Host.link_ok hlinked
  rw [goal_path hsourceParent] at hfile
  rw [goal_path htargetParent] at hfree hbecomes
  refine .inr ⟨host, linked, content, hok, hsourceObject, htargetObject, hsourceParent,
    htargetParent, hlinked, hfile, hfree, hbecomes, ?_⟩
  have hhost : (linked.removeFile (s.path source)).toOption.getD linked = host :=
    Except.ok.inj hlast
  cases hremove : linked.removeFile (s.path source) with
  | error e => exact .inr ⟨⟨e, rfl⟩, by simpa [hremove, Except.toOption] using hhost.symm⟩
  | ok removed =>
    have := (Host.removeFile_ok (hbecomes.wellFormed hwf) hremove).2
    rw [hbecomes.goal, goal_path hsourceParent] at this
    obtain rfl : removed = host := by simpa [hremove, Except.toOption] using hhost
    exact .inl this

/-- Claiming with a check moves the source if nothing is found at the target. -/
lemma claimByCheck_effect (source target : Location) :
    (∃ e, s.claimByCheck source target = (.error e, s)) ∨
      (s.claimByCheck source target = s.rename source target ∧ target.isObject = true ∧
        ∃ l, s.head target = .error (.notFound l)) := by
  rw [claimByCheck]
  cases htarget : s.resolveObject target with
  | error e => exact .inl ⟨e, rfl⟩
  | ok path =>
    have hobject := (resolveObject_ok htarget).1
    simp only
    split
    · rename_i l hhead
      exact .inr ⟨rfl, hobject, l, hhead⟩
    · exact .inl ⟨_, rfl⟩

/-! ## Claiming a free place -/

lemma Continues.isOpen (hc : s.Continues s') (hopen : s.IsOpen)
    (hkeep : ∀ place ∈ s.rootRoute, s.host.layout place = some .folder →
      s'.host.layout place = some .folder) : s'.IsOpen := by
  intro place hplace
  have hroot : place ∈ s'.rootRoute := hplace
  rw [hc.rootRoute] at hroot
  exact hkeep place hroot (hopen place hroot)

/-- An object is at the source of a claim, and its target is a free place in a directory that is
there. -/
structure Claimable (s : DiskStore) (source target : Location) (content : ByteArray) : Prop where
  wellFormed : s.host.tree.WellFormed
  isObject_source : source.isObject = true
  isObject_target : target.isObject = true
  admits_source : s.Admits source
  admits_target : s.Admits target
  file : s.view source.names = some (.file content)
  free : s.view target.names = none
  room : s.view target.names.dropLast = some .folder

namespace Claimable

lemma isOpen (h : s.Claimable source target content) : s.IsOpen :=
  isOpen_of_view_eq h.file

lemma layout_source (h : s.Claimable source target content) :
    s.host.layout (s.base ++ source.names) = some (.file content) := by
  rw [← view_of_isOpen h.isOpen, h.file]

lemma layout_target (h : s.Claimable source target content) :
    s.host.layout (s.base ++ target.names) = none := by
  rw [← view_of_isOpen h.isOpen, h.free]

lemma resolves_source (h : s.Claimable source target content) : s.host.Resolves (s.path source) :=
  resolves_path h.admits_source (view_dropLast h.admits_source (by simp [h.file]))

lemma resolves_target (h : s.Claimable source target content) : s.host.Resolves (s.path target) :=
  resolves_path h.admits_target h.room

lemma locate_source (h : s.Claimable source target content) :
    s.host.locate (s.path source) = .ok (s.base ++ source.names, .file content) := by
  obtain ⟨node, hlocate, hentry⟩ := locate_of_view h.admits_source (by simp [h.file])
  rw [h.file, Option.some.injEq] at hentry
  cases node with
  | folder entries => cases hentry
  | file content' =>
    obtain rfl : content = content' := by simpa [Node.entry] using hentry
    exact hlocate

/-- The directory of the target is not the file of the source. -/
lemma source_not_above (h : s.Claimable source target content) :
    ¬ s.base ++ source.names <+: s.base ++ target.names := by
  rintro ⟨rest, hrest⟩
  have hfile := h.layout_source
  cases rest with
  | nil =>
    rw [List.append_nil] at hrest
    rw [hrest, h.layout_target] at hfile
    cases hfile
  | cons name rest =>
    have hdrop : s.base ++ source.names <+: s.base ++ target.names.dropLast := by
      have hlast : (s.base ++ target.names).dropLast = s.base ++ target.names.dropLast :=
        List.dropLast_append_of_ne_nil h.admits_target.names_ne_nil
      rw [← hlast, ← hrest, List.dropLast_append_of_ne_nil (List.cons_ne_nil name rest)]
      exact List.prefix_append _ _
    have hroom := h.room
    rw [view_of_isOpen h.isOpen] at hroom
    refine Host.not_prefix_of_file hfile (fun heq => ?_) (by simp [hroom]) hdrop
    rw [heq, hfile] at hroom
    cases hroom

lemma target_not_above (h : s.Claimable source target content) :
    ¬ s.base ++ target.names <+: s.base ++ source.names :=
  Host.not_prefix_of_none h.layout_target (by simp [h.layout_source])

/-- After linking, the source can still be removed. -/
lemma claimByLink_ok (h : s.Claimable source target content) :
    ∃ host, s.claimByLink source target = (.ok (), { s with host }) ∧
      s.host.Becomes host ((s.host.layout.clear (s.base ++ source.names)).plant
        (s.base ++ target.names) (.ofFile content)) := by
  have hfree : s.host.layout (s.host.goal (s.path target)) = none := by
    rw [goal_path h.admits_target.no_parent, h.layout_target]
  obtain ⟨linked, hlinked⟩ := Host.writeFile_of_resolves h.resolves_target content (by simp [hfree])
  have hlink := Host.link_of_free h.resolves_target h.locate_source hfree
  rw [hlinked] at hlink
  have hbecomes := (Host.writeFile_ok hlinked).2
  rw [goal_path h.admits_target.no_parent] at hbecomes
  have hc : s.Continues { s with host := linked } := .of_becomes hbecomes
  have hkeep : ∀ names, s.host.layout names ≠ none → linked.layout names = s.host.layout names := by
    intro names hnames
    rw [hbecomes.layout, Layout.plant_elsewhere (Host.not_prefix_of_none h.layout_target hnames)]
  have hopen : IsOpen { s with host := linked } :=
    hc.isOpen h.isOpen fun place _ hfolder => by rw [hkeep place (by simp [hfolder]), hfolder]
  have hfile : linked.layout (s.base ++ source.names) = some (.file content) := by
    rw [hkeep _ (by simp [h.layout_source]), h.layout_source]
  have hview : view { s with host := linked } source.names ≠ none := by
    have : view { s with host := linked } source.names = some (.file content) := by
      rw [view_of_isOpen hopen, hc.base, hfile]
    simp [this]
  have hadmits := hc.admits.mpr h.admits_source
  have hresolves : linked.Resolves (s.path source) :=
    resolves_path hadmits (view_dropLast hadmits hview)
  have hgoal : linked.goal (s.path source) = s.base ++ source.names := by
    rw [hbecomes.goal, goal_path h.admits_source.no_parent]
  obtain ⟨removed, hremoved⟩ := Host.removeFile_of_resolves hresolves (hgoal ▸ hfile)
  have hcleared := (Host.removeFile_ok (hbecomes.wellFormed h.wellFormed) hremoved).2
  rw [hgoal, hbecomes.layout, Layout.clear_plant h.target_not_above h.source_not_above] at hcleared
  refine ⟨removed, ?_, hbecomes.trans hcleared⟩
  rw [claimByLink, resolveObject_eq h.isObject_source h.admits_source.no_parent,
    resolveObject_eq h.isObject_target h.admits_target.no_parent]
  simp [hlink, hremoved, change, Except.mapError, Except.toOption, bind, Except.bind, pure,
    Except.pure]

/-- The check finds the target free, and then the move goes through. -/
lemma claimByCheck_ok (h : s.Claimable source target content) :
    ∃ host, s.claimByCheck source target = (.ok (), { s with host }) ∧
      s.host.Becomes host ((s.host.layout.clear (s.base ++ source.names)).plant
        (s.base ++ target.names) (.ofFile content)) := by
  have hfile : s.host.layout (s.host.goal (s.path source)) = some (.file content) := by
    rw [goal_path h.admits_source.no_parent, h.layout_source]
  have hfree : s.host.layout (s.host.goal (s.path target)) = none := by
    rw [goal_path h.admits_target.no_parent, h.layout_target]
  obtain ⟨moved, hmoved⟩ :=
    Host.move_of_resolves h.resolves_source h.resolves_target hfile (by simp [hfree])
  have hmove := Host.move_ok h.wellFormed hmoved
  rw [goal_path h.admits_source.no_parent, goal_path h.admits_target.no_parent] at hmove
  rcases hmove with ⟨hsame, -, -⟩ | ⟨-, hbecomes⟩
  · exact absurd (hsame ▸ List.prefix_refl _) h.source_not_above
  rw [Host.focus_of_file h.layout_source] at hbecomes
  have hhead : s.head target = .error (.notFound target) := by rw [head_eq h.admits_target, h.free]
  refine ⟨moved, ?_, hbecomes⟩
  simp only [claimByCheck, resolveObject_eq h.isObject_target h.admits_target.no_parent, hhead]
  rw [rename, resolve_eq h.admits_source.no_parent, resolve_eq h.admits_target.no_parent]
  simp [hmoved, change, Except.mapError, bind, Except.bind]

/-- An object can be claimed for a free place in a directory that is there. -/
lemma claim_ok (h : s.Claimable source target content) :
    ∃ host, s.claim source target = (.ok (), { s with host }) ∧
      s.host.Becomes host ((s.host.layout.clear (s.base ++ source.names)).plant
        (s.base ++ target.names) (.ofFile content)) := by
  rw [claim]
  split
  · exact h.claimByLink_ok
  · exact h.claimByCheck_ok

end Claimable

end DiskStore

end CommitStore
