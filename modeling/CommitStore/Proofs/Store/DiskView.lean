import CommitStore.Proofs.Host.Growth
import CommitStore.Store.Disk

/-!
# What stands where in a store in a directory

A store in a directory is seen as a layout of its own, `DiskStore.view`: what stands at the end of a
list of names, followed from its root directory.  The place of that directory, `DiskStore.base`, can
be told from the root path, whatever the tree holds.  As long as the root path does not lead through
directories to a directory the store is closed (`DiskStore.IsOpen`), and nothing stands anywhere in
it.

A location that is below the root and within the limits of the host is one that the store admits,
`DiskStore.Admits`.  For such a location the view alone decides what `get` and `head` answer.
-/

namespace CommitStore

namespace Location

lemma isEntryName_of_mem {l : Location} (h : l.hasParentName = false) :
    ∀ name ∈ l.names, Directory.IsEntryName name := by
  intro name hname
  obtain ⟨hne, hdot, hsep⟩ := l.isName_of_mem name hname
  refine ⟨hne, hdot, ?_, hsep⟩
  rintro rfl
  simp [hasParentName, hname] at h

lemma isComponent_of_mem (l : Location) : ∀ name ∈ l.names, HostPath.IsComponent name :=
  fun name hname => ⟨(l.isName_of_mem name hname).1, (l.isName_of_mem name hname).2.2⟩

lemma isRoot_of_isObject {l : Location} (h : l.isObject = true) : l.isRoot = false := by
  unfold isObject at h
  cases hroot : l.isRoot with
  | true => simp [hroot] at h
  | false => rfl

end Location

namespace DiskStore

variable {s : DiskStore} {l : Location}

/-- The host path of a location. -/
def path (s : DiskStore) (l : Location) : HostPath := l.names.foldl HostPath.push s.root

/-- The place of the root directory, whatever the tree holds. -/
def base (s : DiskStore) : List String := s.host.goal s.root

/-- The root path leads through directories to a directory. -/
def IsOpen (s : DiskStore) : Prop :=
  ∀ place ∈ route (s.host.start s.root) s.root.components, s.host.layout place = some .folder

instance (s : DiskStore) : Decidable s.IsOpen := by unfold IsOpen; infer_instance

/-- What stands where, seen from the root directory; nothing as long as there is no such
directory. -/
def view (s : DiskStore) : Layout := fun names =>
  if s.IsOpen then s.host.layout (s.base ++ names) else none

/-- A location other than the root, without `..` and within the limits of the host. -/
structure Admits (s : DiskStore) (l : Location) : Prop where
  not_root : l.isRoot = false
  no_parent : l.hasParentName = false
  fits : (s.path l).Fits

instance (s : DiskStore) (l : Location) : Decidable (s.Admits l) :=
  decidable_of_iff (l.isRoot = false ∧ l.hasParentName = false ∧ (s.path l).Fits)
    ⟨fun h => ⟨h.1, h.2.1, h.2.2⟩, fun h => ⟨h.not_root, h.no_parent, h.fits⟩⟩

lemma Admits.names_ne_nil (h : s.Admits l) : l.names ≠ [] := by
  have := h.not_root
  simpa [Location.isRoot] using this

/-! ## Paths of locations -/

lemma components_path (s : DiskStore) (l : Location) :
    (s.path l).components = s.root.components ++ l.names :=
  HostPath.components_foldl_push l.isComponent_of_mem s.root

lemma start_path (s : DiskStore) (l : Location) :
    s.host.start (s.path l) = s.host.start s.root := by
  simp [Host.start, path, HostPath.isAbsolute_foldl_push l.isComponent_of_mem]

/-- Every location leads below the root directory. -/
lemma goal_path (h : l.hasParentName = false) : s.host.goal (s.path l) = s.base ++ l.names := by
  rw [Host.goal, start_path, components_path, settle_append,
    settle_of_isEntryName (Location.isEntryName_of_mem h)]
  rfl

lemma path_eq_push (hne : l.names ≠ []) :
    ∃ p name, s.path l = HostPath.push p name ∧ HostPath.IsComponent name := by
  obtain ⟨front, last, hfront⟩ := List.eq_nil_or_concat l.names |>.resolve_left hne
  refine ⟨front.foldl HostPath.push s.root, last, ?_, l.isComponent_of_mem last (by simp [hfront])⟩
  simp [path, hfront]

lemma asksDirectory_path (hne : l.names ≠ []) : (s.path l).asksDirectory = false := by
  obtain ⟨p, name, hpath, hname⟩ := path_eq_push (s := s) hne
  rw [hpath, HostPath.asksDirectory_push hname]

lemma text_path_ne_empty (hne : l.names ≠ []) : (s.path l).text ≠ "" := by
  obtain ⟨p, name, hpath, hname⟩ := path_eq_push (s := s) hne
  rw [hpath]
  exact HostPath.text_push_ne_empty hname

lemma resolve_eq (h : l.hasParentName = false) : s.resolve l = .ok (s.path l) := by
  simp [resolve, h, path]

lemma resolveObject_eq (hobject : l.isObject = true) (h : l.hasParentName = false) :
    s.resolveObject l = .ok (s.path l) := by
  simp [resolveObject, hobject, resolve_eq h]

/-! ## The view -/

lemma view_of_isOpen (h : s.IsOpen) (names : List String) :
    s.view names = s.host.layout (s.base ++ names) := by
  simp [view, h]

lemma IsOpen.view_nil (h : s.IsOpen) : s.view [] = some .folder := by
  rw [view_of_isOpen h, List.append_nil]
  exact h _ (settle_mem_route _ _)

lemma isOpen_of_view {names : List String} (h : s.view names ≠ none) : s.IsOpen := by
  by_contra hclosed
  simp [view, hclosed] at h

lemma isOpen_of_view_eq {names : List String} {entry : Entry} (h : s.view names = some entry) :
    s.IsOpen :=
  isOpen_of_view (show s.view names ≠ none by simp [h])

/-- Only a directory has something below it. -/
lemma view_of_append {names rest : List String} (hrest : rest ≠ [])
    (h : s.view (names ++ rest) ≠ none) : s.view names = some .folder := by
  have hopen := isOpen_of_view h
  rw [view_of_isOpen hopen] at h ⊢
  rw [← List.append_assoc] at h
  exact Host.layout_of_append hrest h

lemma follow_root (hfits : (s.path l).Fits) (h : s.IsOpen) :
    s.host.follow (s.host.start s.root) s.root.components = .ok s.base := by
  refine Host.follow_of_folders (fun c hc => hfits.2.2 c ?_) h
  rw [components_path]
  exact List.mem_append_left _ hc

lemma locate_of_view (hl : s.Admits l) (h : s.view l.names ≠ none) :
    ∃ node, s.host.locate (s.path l) = .ok (s.base ++ l.names, node) ∧
      s.view l.names = some node.entry := by
  have hopen := isOpen_of_view h
  rw [view_of_isOpen hopen] at h ⊢
  cases hnode : s.host.get? (s.base ++ l.names) with
  | none => exact absurd (Host.layout_eq_none_iff.mpr hnode) h
  | some node =>
    have hshort : ∀ c ∈ l.names, isLongName c = false := fun c hc => hl.fits.2.2 c (by
      rw [components_path]
      exact List.mem_append_right _ hc)
    have hfollow : s.host.follow (s.host.start (s.path l)) (s.path l).components =
        .ok (s.base ++ l.names) := by
      rw [start_path, components_path, Host.follow_append, follow_root hl.fits hopen]
      exact Host.follow_names (Location.isEntryName_of_mem hl.no_parent) hshort h
    refine ⟨node, Host.locate_of_follow hl.fits (text_path_ne_empty hl.names_ne_nil)
      (asksDirectory_path hl.names_ne_nil) hfollow hnode, ?_⟩
    simp [Host.layout, Directory.layout, show s.host.tree.get? _ = some node from hnode]

lemma view_of_locate {names : List String} {node : Node} (hl : s.Admits l)
    (h : s.host.locate (s.path l) = .ok (names, node)) : s.view l.names = some node.entry := by
  obtain ⟨hnames, hnode⟩ := Host.locate_ok h
  rw [goal_path hl.no_parent] at hnames
  subst hnames
  have hopen : s.IsOpen := by
    obtain ⟨-, -, h⟩ := exists_of_bind_eq_ok h
    obtain ⟨result, hfollow, -⟩ := exists_of_bind_eq_ok h
    rw [start_path, components_path, Host.follow_append] at hfollow
    obtain ⟨middle, hroot, hrest⟩ := exists_of_bind_eq_ok hfollow
    obtain ⟨name, names, hcons⟩ := List.exists_cons_of_ne_nil hl.names_ne_nil
    rw [hcons] at hrest
    exact Host.folders_of_follow hroot (Host.follow_cons_ok hrest).1
  rw [view_of_isOpen hopen]
  simp [Host.layout, Directory.layout, show s.host.tree.get? _ = some node from hnode]

/-- Nothing is found at a location where nothing stands. -/
lemma locate_of_view_none (hl : s.Admits l) (h : s.view l.names = none) :
    ∃ e : HostError, e.IsAbsence ∧ s.host.locate (s.path l) = .error e := by
  cases hlocate : s.host.locate (s.path l) with
  | error e =>
    exact ⟨e, Host.locate_error hl.fits (text_path_ne_empty hl.names_ne_nil) hlocate, rfl⟩
  | ok found =>
    obtain ⟨names, node⟩ := found
    rw [view_of_locate hl hlocate] at h
    cases h

/-! ## Reading -/

/-- What an absence on the host means for a location. -/
lemma absence_of_isAbsence {e : HostError} (h : e.IsAbsence) (l : Location) :
    absence l e = .notFound l := by
  rcases h with rfl | rfl <;> rfl

lemma find_of_view_none (hl : s.Admits l) (h : s.view l.names = none) :
    s.find l = .error (.notFound l) := by
  obtain ⟨e, habsent, hlocate⟩ := locate_of_view_none hl h
  simp [find, resolveBelowRoot, hl.not_root, resolve_eq hl.no_parent, Host.lookup, hlocate, bind,
    Except.bind, Except.map, Except.mapError, absence_of_isAbsence habsent]

lemma find_of_view (hl : s.Admits l) (h : s.view l.names ≠ none) :
    ∃ node, s.find l = .ok node ∧ s.view l.names = some node.entry := by
  obtain ⟨node, hlocate, hentry⟩ := locate_of_view hl h
  refine ⟨node, ?_, hentry⟩
  simp [find, resolveBelowRoot, hl.not_root, resolve_eq hl.no_parent, Host.lookup, hlocate, bind,
    Except.bind, Except.map, Except.mapError]

/-- What is found stands at the place of its location, whatever the limits of the host. -/
lemma find_ok {node : Node} (h : s.find l = .ok node) : l.isRoot = false ∧ l.hasParentName = false ∧
    s.host.get? (s.base ++ l.names) = some node := by
  obtain ⟨path, hpath, hlookup⟩ := exists_of_bind_eq_ok h
  unfold resolveBelowRoot resolve at hpath
  split at hpath
  · cases hpath
  rename_i hroot
  split at hpath
  · cases hpath
  rename_i hparent
  have hparent : l.hasParentName = false := by simpa using hparent
  obtain rfl : s.path l = path := Except.ok.inj hpath
  rw [Host.lookup] at hlookup
  cases hlocate : s.host.locate (s.path l) with
  | error e => simp [hlocate, Except.map, Except.mapError] at hlookup
  | ok found =>
    obtain ⟨names, node'⟩ := found
    obtain rfl : node' = node := by simpa [hlocate, Except.map, Except.mapError] using hlookup
    obtain ⟨rfl, hnode⟩ := Host.locate_ok hlocate
    rw [goal_path hparent] at hnode
    exact ⟨by simpa using hroot, hparent, hnode⟩

lemma get_eq (hl : s.Admits l) :
    s.get l = match s.view l.names with
      | some (.file content) => .ok content
      | some .folder => .error (.isDirectory (.ofDirectory l s.stamp))
      | none => .error (.notFound l) := by
  by_cases h : s.view l.names = none
  · simp [get, find_of_view_none hl h, h, bind, Except.bind]
  · obtain ⟨node, hfind, hentry⟩ := find_of_view hl h
    cases node <;> simp [get, hfind, hentry, Node.entry, bind, Except.bind]

lemma head_eq (hl : s.Admits l) :
    s.head l = match s.view l.names with
      | some (.file content) => .ok (.ofObject l.asObject content.size s.stamp)
      | some .folder => .error (.isDirectory (.ofDirectory l s.stamp))
      | none => .error (.notFound l) := by
  by_cases h : s.view l.names = none
  · simp [head, find_of_view_none hl h, h, bind, Except.bind]
  · obtain ⟨node, hfind, hentry⟩ := find_of_view hl h
    cases node <;> simp [head, hfind, hentry, Node.entry, bind, Except.bind]

end DiskStore

end CommitStore
