import CommitStore.Proofs.Host.Grown
import CommitStore.Proofs.Store.Reading
import Mathlib.Data.List.Infix

/-!
# Stores with new directories

When directories are made above a location of a store in a directory, which is
`DiskStore.GrowsAbove`, a reader can tell nothing else.  What was found is found as before, and the
whole listing goes on to list what it listed.  Where nothing was found, one of the new directories,
`DiskStore.newAbove`, may be found now; and since the way now leads further, the host may see that a
location exceeds its limits.  `DiskStore.LeavesDirectories` puts this together.
-/

namespace CommitStore

namespace DiskStore

variable {s s' : DiskStore} {l x : Location} {content : ByteArray} {now : Instant} {e : StoreError}
variable {names : List String} {entries : List ObjectMeta}

/-! ## Reading, told by what is found -/

/-- Where two nodes are alike but for what lies below them, so is what is told of them. -/
lemma bind_congr_entry {α : Type} {found found' : Except StoreError Node}
    {tell tell' : Node → Except StoreError α}
    (htell : ∀ node node' : Node, node'.entry = node.entry → tell' node' = tell node)
    (hfound : found'.map Node.entry = found.map Node.entry) :
    found'.bind tell' = found.bind tell := by
  cases found with
  | error e =>
    cases found' with
    | error e' => exact congrArg Except.error (Except.error.inj hfound)
    | ok node' => cases hfound
  | ok node =>
    cases found' with
    | error e' => cases hfound
    | ok node' => exact htell node node' (Except.ok.inj hfound)

section Congr

variable (hstamp : s'.stamp = s.stamp)
  (hfind : (s'.find x).map Node.entry = (s.find x).map Node.entry)
include hstamp hfind

lemma get_congr : ObjectStore.get s' x = ObjectStore.get s x := by
  refine bind_congr_entry (fun node node' hentry => ?_) hfind
  cases node <;> cases node' <;> simp_all [Node.entry]

lemma head_congr : ObjectStore.head s' x = ObjectStore.head s x := by
  refine bind_congr_entry (fun node node' hentry => ?_) hfind
  cases node <;> cases node' <;> simp_all [Node.entry]

lemma exists?_congr : ObjectStore.exists? s' x = ObjectStore.exists? s x := by
  rw [ObjectStore.exists?, ObjectStore.exists?, head_congr hstamp hfind]

end Congr

lemma find_eq (s : DiskStore) (x : Location) : s.find x =
    if x.isRoot then .error (.invalidLocation x .storeRoot)
    else if x.hasParentName then .error (.invalidLocation x .parentName)
    else (s.host.lookup (s.path x)).mapError (absence x) := by
  rw [find, resolveBelowRoot, resolve]
  split
  · rfl
  · split <;> rfl

lemma find_of_below (s : DiskStore) (hroot : x.isRoot = false) (hparent : x.hasParentName = false) :
    s.find x = (s.host.lookup (s.path x)).mapError (absence x) := by
  rw [find_eq, if_neg (by simp [hroot]), if_neg (by simp [hparent])]

lemma find_congr (hlookup : (s'.host.lookup (s'.path x)).map Node.entry =
    (s.host.lookup (s.path x)).map Node.entry) :
    (s'.find x).map Node.entry = (s.find x).map Node.entry := by
  have hswap : ∀ found : Except HostError Node, (found.mapError (absence x)).map Node.entry =
      (found.map Node.entry).mapError (absence x) := fun found => by cases found <;> rfl
  rw [find_eq, find_eq]
  split
  · rfl
  split
  · rfl
  · rw [hswap, hswap, hlookup]

lemma answers_of_error (hfind : s.find x = .error e) :
    ObjectStore.get s x = .error e ∧ ObjectStore.head s x = .error e := by
  have hget : s.get x = .error e := by simp [get, hfind, bind, Except.bind]
  have hhead : s.head x = .error e := by simp [head, hfind, bind, Except.bind]
  exact ⟨hget, hhead⟩

lemma answers_of_folder {inside : Directory} (hfind : s.find x = .ok (.folder inside)) :
    ObjectStore.get s x = .error (.isDirectory (.ofDirectory x s.stamp)) ∧
      ObjectStore.head s x = .error (.isDirectory (.ofDirectory x s.stamp)) := by
  have hget : s.get x = .error (.isDirectory (.ofDirectory x s.stamp)) := by
    simp [get, hfind, bind, Except.bind]
  have hhead : s.head x = .error (.isDirectory (.ofDirectory x s.stamp)) := by
    simp [head, hfind, bind, Except.bind]
  exact ⟨hget, hhead⟩

/-! ## Stores whose root is there or can be made -/

/-- The root directory may be missing but can be made, and nothing is at any place below it. -/
structure Creatable (s : DiskStore) : Prop where
  fits : s.root.Fits
  start : s.host.layout (s.host.start s.root) = some .folder
  noFile : s.host.NoFile s.rootRoute
  nothing : ∀ names ≠ [], s.host.layout (s.base ++ names) = none
  off : ∀ names ≠ [], s.base ++ names ∉ s.rootRoute

/-- The root directory is there, or it can be made. -/
structure Founded (s : DiskStore) : Prop where
  text : s.root.text ≠ ""
  ground : s.IsOpen ∨ s.Creatable

lemma IsOpen.layout_start (h : s.IsOpen) : s.host.layout (s.host.start s.root) = some .folder :=
  h _ (self_mem_route _ _)

lemma Founded.layout_start (h : s.Founded) : s.host.layout (s.host.start s.root) = some .folder :=
  h.ground.elim IsOpen.layout_start Creatable.start

/-! ## Directories that are new above a location -/

/-- The names of the directories above a location that are there in the second store only. -/
def newAbove (s s' : DiskStore) (l : Location) : List (List String) :=
  l.names.dropLast.inits.filter fun names => s.view names = none ∧ s'.view names = some .folder

lemma mem_newAbove : names ∈ s.newAbove s' l ↔
    names <+: l.names.dropLast ∧ s.view names = none ∧ s'.view names = some .folder := by
  simp [newAbove]

lemma nil_mem_newAbove (hclosed : ¬ s.IsOpen) (hopen' : s'.IsOpen) : [] ∈ s.newAbove s' l := by
  exact mem_newAbove.mpr ⟨List.nil_prefix, by simp [view, hclosed], hopen'.view_nil⟩

lemma nodup_inits {α : Type} (names : List α) : names.inits.Nodup := by
  induction names with
  | nil => simp
  | cons name names ih =>
    rw [List.inits_cons, List.nodup_cons]
    exact ⟨by simp, ih.map (List.cons_injective)⟩

lemma nodup_newAbove : (s.newAbove s' l).Nodup := (nodup_inits _).filter _

/-- The store has grown by directories on the way to the directory of a location, and the path of
none of them is too long. -/
structure GrowsAbove (s s' : DiskStore) (l : Location) : Prop where
  continues : s.Continues s'
  grows : s.host.Grows s'.host (s.rootRoute ++ l.names.dropLast.inits.map (s.base ++ ·))
  short : ∀ names, names <+: l.names.dropLast → names ≠ [] → s.view names = none →
    s'.view names ≠ none → (names.foldl HostPath.push s.root).isLong = false

lemma GrowsAbove.refl (s : DiskStore) (l : Location) : s.GrowsAbove s l where
  continues := .refl s
  grows := .refl _ _
  short _ _ _ hnone hsome := absurd hnone hsome

namespace GrowsAbove

/-- On an open store the way to the root has not changed. -/
lemma layout_rootRoute (h : s.GrowsAbove s' l) (hopen : s.IsOpen) :
    ∀ place ∈ s.rootRoute, s'.host.layout place = s.host.layout place := fun place hplace =>
  h.grows.layout_of_ne_none (by simp [hopen place hplace])

lemma isOpen (h : s.GrowsAbove s' l) (hopen : s.IsOpen) : s'.IsOpen :=
  h.continues.isOpen hopen
    fun place hplace hfolder => by rw [h.layout_rootRoute hopen place hplace, hfolder]

/-- On an open store, what has come into view is a directory above the location. -/
lemma view_cases_of_isOpen (h : s.GrowsAbove s' l) (hopen : s.IsOpen) (names : List String) :
    s'.view names = s.view names ∨
      s.view names = none ∧ s'.view names = some .folder ∧ names <+: l.names.dropLast := by
  rw [view_of_isOpen (h.isOpen hopen), view_of_isOpen hopen, h.continues.base]
  refine (h.grows.layout (s.base ++ names)).imp_right fun ⟨hnone, hfolder, hplace⟩ =>
    ⟨hnone, hfolder, ?_⟩
  rcases List.mem_append.mp hplace with hroot | habove
  · rw [hopen _ hroot] at hnone
    cases hnone
  · simpa using habove

/-- When the root has been made, what has come into view is the root or a directory above the
location. -/
lemma view_cases_of_creatable (h : s.GrowsAbove s' l) (hcreatable : s.Creatable)
    (hclosed : ¬ s.IsOpen) (names : List String) : s'.view names = s.view names ∨
      s.view names = none ∧ s'.view names = some .folder ∧ names <+: l.names.dropLast := by
  rw [show s.view names = none from if_neg hclosed]
  by_cases hopen' : s'.IsOpen
  swap
  · exact .inl (if_neg hopen')
  by_cases hnil : names = []
  · subst hnil
    exact .inr ⟨rfl, hopen'.view_nil, List.nil_prefix⟩
  rw [view_of_isOpen hopen', h.continues.base]
  rcases h.grows.layout (s.base ++ names) with hsame | ⟨-, hfolder, hplace⟩
  · exact .inl (hsame.trans (hcreatable.nothing names hnil))
  · rcases List.mem_append.mp hplace with hroot | habove
    · exact absurd hroot (hcreatable.off names hnil)
    · exact .inr ⟨rfl, hfolder, by simpa using habove⟩

/-- Nothing but the new directories has come into view. -/
lemma view_eq (h : s.GrowsAbove s' l) (hfounded : s.Founded) (names : List String) :
    s'.view names = if names ∈ s.newAbove s' l then some .folder else s.view names := by
  have hcases : s'.view names = s.view names ∨
      s.view names = none ∧ s'.view names = some .folder ∧ names <+: l.names.dropLast := by
    by_cases hopen : s.IsOpen
    · exact h.view_cases_of_isOpen hopen names
    · exact h.view_cases_of_creatable (hfounded.ground.resolve_left hopen) hopen names
  by_cases hmem : names ∈ s.newAbove s' l
  · rw [if_pos hmem, (mem_newAbove.mp hmem).2.2]
  · rw [if_neg hmem]
    exact hcases.resolve_right fun ⟨hnone, hfolder, habove⟩ =>
      hmem (mem_newAbove.mpr ⟨habove, hnone, hfolder⟩)

end GrowsAbove

/-! ## Answers about one location -/

/-- Where the way to the root ends too early for lack of a directory, nothing is found at all. -/
lemma lookup_of_closed (hfits : s.root.Fits)
    (hstart : s.host.layout (s.host.start s.root) = some .folder)
    (hfree : s.host.NoFile s.rootRoute) (hclosed : ¬ s.IsOpen)
    (hcheck : (s.path x).check = .ok ()) : s.host.lookup (s.path x) = .error .missing := by
  rw [Host.lookup_of_check hcheck, start_path, components_path, Host.follow_append]
  cases hfollow : s.host.follow (s.host.start s.root) s.root.components with
  | error e =>
    rw [Host.follow_of_noFile hfits.2.2 hstart hfree hfollow]
    rfl
  | ok result =>
    have hthere := Host.follow_ne_none hfollow (by simp [hstart])
    have hresult : result ∈ s.rootRoute := Host.follow_eq_settle hfollow ▸ settle_mem_route _ _
    exact absurd (Host.folders_of_follow hfollow (hfree.folder hresult hthere)) hclosed

/-- An answer is the one before; or nothing was found, and now a new directory is; or a directory on
the way is new, and the host refuses to go on from there since the location exceeds its limits. -/
def Shifts {α : Type} (s : DiskStore) (made : List (List String)) (x : Location)
    (absent folder before after : Except StoreError α) : Prop :=
  after = before ∨ before = absent ∧ ((x.names ∈ made ∧ after = folder) ∨
    ((∃ names ∈ made, names <+: x.names) ∧ ¬ (s.path x).Fits ∧ after = .error (.hostFailed x)))

namespace GrowsAbove

variable (h : s.GrowsAbove s' l) (hfounded : s.Founded)
include h hfounded

lemma lookup_of_closed (hclosed : ¬ s'.IsOpen) (hcheck : (s'.path x).check = .ok ()) :
    s'.host.lookup (s'.path x) = .error .missing := by
  rcases hfounded.ground with hopen | hcreatable
  · exact absurd (h.isOpen hopen) hclosed
  · refine DiskStore.lookup_of_closed (h.continues.root ▸ hcreatable.fits) ?_ ?_ hclosed hcheck
    · rw [h.continues.start]
      exact h.grows.layout_of_some hcreatable.start
    · rw [h.continues.rootRoute]
      exact h.grows.noFile hcreatable.noFile

/-- Away from the new directories a missing location is missing still. -/
lemma lookup_of_away (hparent : x.hasParentName = false)
    (haway : ∀ names ∈ s.newAbove s' l, ¬ names <+: x.names)
    (hmissing : s.host.lookup (s.path x) = .error .missing) (hcheck : (s.path x).check = .ok ()) :
    s'.host.lookup (s.path x) = .error .missing := by
  by_cases hopen : s.IsOpen
  · have hroute : ∀ place ∈ route (s.host.start (s.path x)) (s.path x).components,
        s'.host.layout place = s.host.layout place := by
      intro place hplace
      rw [start_path, components_path, mem_route_path hparent] at hplace
      rcases hplace with hroot | ⟨front, hfront, rfl⟩
      · exact h.layout_rootRoute hopen place hroot
      · have hview := h.view_eq hfounded front
        rw [if_neg fun hmem => haway front hmem hfront, view_of_isOpen hopen,
          view_of_isOpen (h.isOpen hopen), h.continues.base] at hview
        exact hview
    exact Host.eq_error_of_map_entry (Host.lookup_congr (h.grows.start _) hroute) hmissing
  · have hclosed : ¬ s'.IsOpen := fun hopen' =>
      haway [] (nil_mem_newAbove hopen hopen') List.nil_prefix
    rw [← h.continues.path] at hcheck ⊢
    exact h.lookup_of_closed hfounded hclosed hcheck

/-- Within the limits of the host, a missing location is missing still unless it is a new
directory. -/
lemma find_of_admits (hx : s.Admits x) (hbefore : s.find x = .error (.notFound x)) :
    s'.find x = .error (.notFound x) ∨
      x.names ∈ s.newAbove s' l ∧ ∃ inside, s'.find x = .ok (.folder inside) := by
  have hx' : s'.Admits x := h.continues.admits.mpr hx
  have hnone : s.view x.names = none := by
    by_contra hsome
    obtain ⟨node, hnode, -⟩ := find_of_view hx hsome
    rw [hbefore] at hnode
    cases hnode
  have hview := h.view_eq hfounded x.names
  by_cases hmem : x.names ∈ s.newAbove s' l
  · rw [if_pos hmem] at hview
    obtain ⟨node, hnode, hentry⟩ := find_of_view hx' (by simp [hview])
    cases node with
    | file content => rw [hview] at hentry; cases hentry
    | folder inside => exact .inr ⟨hmem, inside, hnode⟩
  · rw [if_neg hmem, hnone] at hview
    exact .inl (find_of_view_none hx' hview)

/-- Beyond the limits, a missing location is missing still, or the host sees now that it exceeds
them, since a directory on the way is new. -/
lemma find_of_not_fits (hroot : x.isRoot = false) (hparent : x.hasParentName = false)
    (hfits : ¬ (s.path x).Fits) (hmissing : s.host.lookup (s.path x) = .error .missing) :
    s'.find x = .error (.notFound x) ∨
      (∃ names ∈ s.newAbove s' l, names <+: x.names) ∧ s'.find x = .error (.hostFailed x) := by
  rw [find_of_below s' hroot hparent, h.continues.path]
  cases hlookup : s'.host.lookup (s.path x) with
  | ok node => exact absurd (Host.fits_of_lookup hlookup) hfits
  | error e =>
    by_cases habsent : absence x e = .notFound x
    · exact .inl (congrArg Except.error habsent)
    have hfailed : absence x e = .hostFailed x := by
      cases e <;> first | rfl | exact absurd rfl habsent
    refine .inr ⟨?_, congrArg Except.error hfailed⟩
    have hcheck : (s.path x).check = .ok () := by
      cases hcheck : (s.path x).check with
      | ok _ => rfl
      | error e' =>
        -- Before anything is looked up, both hosts would report the same.
        rw [Host.lookup_of_check_error hcheck] at hlookup hmissing
        rw [← Except.error.inj hlookup, Except.error.inj hmissing] at habsent
        exact absurd rfl habsent
    by_contra! haway
    rw [h.lookup_of_away hfounded hparent haway hmissing hcheck] at hlookup
    rw [← Except.error.inj hlookup] at habsent
    exact habsent rfl

/-- What is found at a location is what was found there; or it was missing, and one of the new
directories is at the location, or above it so that the host sees now that the location exceeds its
limits. -/
lemma find_cases (x : Location) : (s'.find x).map Node.entry = (s.find x).map Node.entry ∨
    s.find x = .error (.notFound x) ∧
      ((x.names ∈ s.newAbove s' l ∧ ∃ inside, s'.find x = .ok (.folder inside)) ∨
        ((∃ names ∈ s.newAbove s' l, names <+: x.names) ∧ ¬ (s.path x).Fits ∧
          s'.find x = .error (.hostFailed x))) := by
  rcases h.grows.lookup_cases (p := s.path x) (by simp [start_path, hfounded.layout_start]) with
    hsame | hmissing
  · exact .inl (find_congr (by rw [h.continues.path, hsame]))
  by_cases hroot : x.isRoot = true
  · exact .inl (by rw [find_eq, find_eq, if_pos hroot, if_pos hroot])
  by_cases hparent : x.hasParentName = true
  · exact .inl (by rw [find_eq, find_eq, if_neg hroot, if_neg hroot, if_pos hparent,
      if_pos hparent])
  rw [Bool.not_eq_true] at hroot hparent
  have hbefore : s.find x = .error (.notFound x) := by
    rw [find_of_below s hroot hparent, hmissing]; rfl
  by_cases hfits : (s.path x).Fits
  · rcases h.find_of_admits hfounded ⟨hroot, hparent, hfits⟩ hbefore with hafter | hnew
    · exact .inl (by rw [hafter, hbefore])
    · exact .inr ⟨hbefore, .inl hnew⟩
  · rcases h.find_of_not_fits hfounded hroot hparent hfits hmissing with hafter | ⟨hbelow, hafter⟩
    · exact .inl (by rw [hafter, hbefore])
    · exact .inr ⟨hbefore, .inr ⟨hbelow, hfits, hafter⟩⟩

/-- The bytes at a location are told as before, but for what is told of the new directories. -/
lemma get_shifts (x : Location) : s.Shifts (s.newAbove s' l) x (.error (.notFound x))
    (.error (.isDirectory (.ofDirectory x s.stamp))) (ObjectStore.get s x)
    (ObjectStore.get s' x) := by
  rcases h.find_cases hfounded x with
    hsame | ⟨hbefore, ⟨hmem, inside, hafter⟩ | ⟨hbelow, hfits, hafter⟩⟩
  · exact .inl (get_congr h.continues.stamp hsame)
  · refine .inr ⟨(answers_of_error hbefore).1, .inl ⟨hmem, ?_⟩⟩
    rw [(answers_of_folder hafter).1, h.continues.stamp]
  · exact .inr ⟨(answers_of_error hbefore).1, .inr ⟨hbelow, hfits, (answers_of_error hafter).1⟩⟩

/-- Whether something is at a location is told as before, but for what is told of the new
directories. -/
lemma exists?_shifts (x : Location) : s.Shifts (s.newAbove s' l) x (.ok false) (.ok true)
    (ObjectStore.exists? s x) (ObjectStore.exists? s' x) := by
  rcases h.find_cases hfounded x with hsame | ⟨hbefore, hnow⟩
  · exact .inl (exists?_congr h.continues.stamp hsame)
  refine .inr ⟨by simp [ObjectStore.exists?, (answers_of_error hbefore).2], ?_⟩
  rcases hnow with ⟨hmem, inside, hafter⟩ | ⟨hbelow, hfits, hafter⟩
  · exact .inl ⟨hmem, by simp [ObjectStore.exists?, (answers_of_folder hafter).2]⟩
  · exact .inr ⟨hbelow, hfits, by simp [ObjectStore.exists?, (answers_of_error hafter).2]⟩

end GrowsAbove

/-! ## The whole listing -/

lemma list_root_of_missing (h : s.host.lookup s.root = .error .missing) :
    s.list .root = .ok [] := by
  rw [list_root_eq, h]

/-- The whole listing consists of the entries of everything in view. -/
lemma mem_list_root (hwf : s.host.tree.WellFormed) (hroot : s.root.text ≠ "")
    (hlist : s.list .root = .ok entries) (m : ObjectMeta) :
    m ∈ entries ↔ ∃ names entry, names ≠ [] ∧ s.view names = some entry ∧
      m = s.entryAt names entry := by
  rw [mem_iff_of_list hwf hroot hlist]
  exact exists_congr fun names => exists_congr fun entry =>
    and_congr_right fun _ => and_congr_right fun _ => and_iff_left List.nil_prefix

/-- On a changed host, the whole listing is any list of the entries of everything in view. -/
lemma perm_of_mem_iff (hcontinues : s.Continues s') (hwf : s.host.tree.WellFormed)
    (hroot : s.root.text ≠ "") {entries' expected : List ObjectMeta}
    (hlist' : s'.list .root = .ok entries') (hnodup : expected.Nodup)
    (hmem : ∀ m, m ∈ expected ↔
      ∃ names entry, names ≠ [] ∧ s'.view names = some entry ∧ m = s.entryAt names entry) :
    entries'.Perm expected := by
  have hwf' := hcontinues.wellFormed hwf
  have hroot' : s'.root.text ≠ "" := hcontinues.root ▸ hroot
  have hentryAt : ∀ names entry, s'.entryAt names entry = s.entryAt names entry :=
    fun names entry => by
    cases entry <;> simp [entryAt, hcontinues.stamp]
  rw [List.perm_ext_iff_of_nodup (nodup_of_list hwf' hroot' hlist') hnodup]
  intro m
  simp only [hmem, mem_list_root hwf' hroot' hlist', hentryAt]

lemma nodup_directories {places : List (List String)} (hplaces : places.Nodup)
    (hnames : ∀ names ∈ places, ∀ name ∈ names, IsName name) :
    (places.map (s.entryAt · .folder)).Nodup := by
  refine hplaces.map_on fun a ha b hb hsame => ?_
  have := congrArg (fun m => m.location.names) hsame
  rwa [names_entryAt (hnames a ha), names_entryAt (hnames b hb)] at this

namespace GrowsAbove

variable (h : s.GrowsAbove s' l) (hwf : s.host.tree.WellFormed) (hfounded : s.Founded)

include h in
lemma view_of_some (hfounded : s.Founded) {entry : Entry} (hentry : s.view names = some entry) :
    s'.view names = some entry := by
  rw [h.view_eq hfounded, if_neg, hentry]
  intro hmem
  rw [(mem_newAbove.mp hmem).2.1] at hentry
  cases hentry

include h hfounded in
/-- The path of a closed store's root is missing, and nothing is listed. -/
lemma list_root_of_closed (hclosed : ¬ s'.IsOpen) : s'.list .root = .ok [] := by
  have hcreatable := hfounded.ground.resolve_left fun hopen => hclosed (h.isOpen hopen)
  refine list_root_of_missing (h.lookup_of_closed hfounded (x := .root) hclosed ?_)
  rw [h.continues.path]
  exact HostPath.check_eq_ok hcreatable.fits hfounded.text

lemma isOpen_of_list_root_error {s : DiskStore} (hfounded : s.Founded)
    (hlist : s.list .root = .error e) : s.IsOpen := by
  by_contra hclosed
  rw [(GrowsAbove.refl s .root).list_root_of_closed hfounded hclosed] at hlist
  cases hlist

include h hfounded in
/-- A root directory that was found, or that has been made, is found. -/
lemma exists_lookup_root (hopen' : s'.IsOpen) (hlist : s.list .root = .ok entries) :
    ∃ inside, s'.host.lookup s'.root = .ok (.folder inside) := by
  rcases hfounded.ground with hopen | hcreatable
  · obtain ⟨-, ⟨-, hmissing⟩ | ⟨inside, hlookup, -⟩⟩ := found_of_list hfounded.text hlist
    · exact absurd hopen.view_nil hmissing
    have hlookup : s.host.lookup s.root = .ok (.folder inside) := hlookup
    rw [h.continues.root]
    rcases h.grows.lookup_cases (p := s.root) (by simp [hopen.layout_start]) with hsame | hmissing
    · exact Host.exists_folder_of_map_entry hsame hlookup
    · rw [hlookup] at hmissing
      cases hmissing
  · obtain ⟨inside, hlookup, -⟩ := Host.lookup_of_allFolders (h.continues.root ▸ hcreatable.fits)
      (h.continues.root ▸ hfounded.text) hopen'
    exact ⟨inside, hlookup⟩

include h hwf hfounded

/-- A whole listing that failed fails still. -/
lemma list_root_of_error (hlist : s.list .root = .error e) : s'.list .root = .error e := by
  have hopen := isOpen_of_list_root_error hfounded hlist
  obtain ⟨rfl, ⟨failure, hfailure, hlookup⟩ | ⟨names, -, hview, hlong⟩⟩ :=
    list_root_error hwf hopen hlist
  · rcases h.grows.lookup_cases (p := s.root) (by simp [hopen.layout_start]) with hsame | hmissing
    · rw [list_root_eq, h.continues.root, Host.eq_error_of_map_entry hsame hlookup]
      cases failure <;> first | rfl | exact absurd rfl hfailure
    · rw [hlookup] at hmissing
      exact absurd (Except.error.inj hmissing) hfailure
  · obtain ⟨entry, hentry⟩ := Option.ne_none_iff_exists'.mp hview
    exact list_root_fails (h.continues.wellFormed hwf) (h.continues.root ▸ hfounded.text)
      (by simp [h.view_of_some hfounded hentry]) (h.continues.root ▸ hlong)

/-- A whole listing that succeeded succeeds still: no path of a new directory is too long. -/
lemma exists_list_root (hlist : s.list .root = .ok entries) :
    ∃ entries', s'.list .root = .ok entries' := by
  by_cases hopen' : s'.IsOpen
  swap
  · exact ⟨[], h.list_root_of_closed hfounded hopen'⟩
  cases hlist' : s'.list .root with
  | ok entries' => exact ⟨entries', rfl⟩
  | error e =>
    exfalso
    obtain ⟨-, ⟨failure, -, hlookup⟩ | ⟨names, hne, hview, hlong⟩⟩ :=
      list_root_error (h.continues.wellFormed hwf) hopen' hlist'
    · obtain ⟨inside, hinside⟩ := h.exists_lookup_root hfounded hopen' hlist
      rw [hinside] at hlookup
      cases hlookup
    · rw [h.continues.root] at hlong
      by_cases hmem : names ∈ s.newAbove s' l
      · obtain ⟨habove, hnone, -⟩ := mem_newAbove.mp hmem
        rw [h.short names habove hne hnone hview] at hlong
        cases hlong
      · rw [h.view_eq hfounded, if_neg hmem] at hview
        rw [list_root_fails hwf hfounded.text hview hlong] at hlist
        cases hlist

/-- The whole listing lists what it listed, and the new directories. -/
lemma perm_list_root {entries' : List ObjectMeta} (hlist : s.list .root = .ok entries)
    (hlist' : s'.list .root = .ok entries') :
    entries'.Perm (entries ++ ((s.newAbove s' l).filter (· ≠ [])).map (s.entryAt · .folder)) := by
  have hnames : ∀ names ∈ s.newAbove s' l, ∀ name ∈ names, IsName name :=
    fun names hmem name hname =>
    l.isName_of_mem name (List.dropLast_subset _ ((mem_newAbove.mp hmem).1.subset hname))
  have hnew := nodup_directories (s := s) (nodup_newAbove.filter (· ≠ [])) fun names hmem =>
    hnames names (List.mem_filter.mp hmem).1
  refine perm_of_mem_iff h.continues hwf hfounded.text hlist'
    (List.nodup_append.mpr ⟨nodup_of_list hwf hfounded.text hlist, hnew, ?_⟩) fun m => ?_
  · -- What was listed was in view, and the new directories were not.
    rintro m hm m' hm' rfl
    obtain ⟨names, entry, -, hview, rfl⟩ := (mem_list_root hwf hfounded.text hlist _).mp hm
    obtain ⟨names', hmem, hsame⟩ := List.mem_map.mp hm'
    have hmem := (List.mem_filter.mp hmem).1
    have := congrArg (fun m => m.location.names) hsame
    rw [names_entryAt (hnames names' hmem), names_entryAt (isName_of_view hwf hview)] at this
    subst this
    rw [(mem_newAbove.mp hmem).2.1] at hview
    cases hview
  · simp only [List.mem_append, mem_list_root hwf hfounded.text hlist, List.mem_map,
      List.mem_filter, h.view_eq hfounded]
    constructor
    · rintro (⟨names, entry, hne, hview, rfl⟩ | ⟨names, ⟨hmem, hne⟩, rfl⟩)
      · have hafter := h.view_of_some hfounded hview
        rw [h.view_eq hfounded] at hafter
        exact ⟨names, entry, hne, hafter, rfl⟩
      · exact ⟨names, .folder, by simpa using hne, by rw [if_pos hmem], rfl⟩
    · rintro ⟨names, entry, hne, hview, rfl⟩
      split at hview
      · rename_i hmem
        exact .inr ⟨names, ⟨hmem, by simpa using hne⟩, by rw [Option.some.inj hview]⟩
      · exact .inl ⟨names, entry, hne, hview, rfl⟩

end GrowsAbove

/-! ## What a reader can tell -/

/-- The second store is the first one with new directories above a location, and they are all that a
reader can tell. -/
structure LeavesDirectories (s s' : DiskStore) (l : Location) : Prop where
  /-- No file of the host is new, changed or lost, and a new directory is on the way to that of the
  location. -/
  grows : s.host.Grows s'.host (s.rootRoute ++ l.names.dropLast.inits.map (s.base ++ ·))
  nodup : (s.newAbove s' l).Nodup
  above : ∀ names ∈ s.newAbove s' l, names <+: l.names.dropLast
  view : ∀ names, s'.view names = if names ∈ s.newAbove s' l then some .folder else s.view names
  get : ∀ x, s.Shifts (s.newAbove s' l) x (.error (.notFound x))
    (.error (.isDirectory (.ofDirectory x s.stamp))) (ObjectStore.get s x) (ObjectStore.get s' x)
  exists? : ∀ x, s.Shifts (s.newAbove s' l) x (.ok false) (.ok true)
    (ObjectStore.exists? s x) (ObjectStore.exists? s' x)
  list_of_error : ∀ e, ObjectStore.list s .root = .error e → ObjectStore.list s' .root = .error e
  list_of_ok : ∀ entries, ObjectStore.list s .root = .ok entries → ∃ entries',
    ObjectStore.list s' .root = .ok entries' ∧
      entries'.Perm (entries ++ ((s.newAbove s' l).filter (· ≠ [])).map (s.entryAt · .folder))

lemma GrowsAbove.leavesDirectories (h : s.GrowsAbove s' l) (hwf : s.host.tree.WellFormed)
    (hfounded : s.Founded) : s.LeavesDirectories s' l where
  grows := h.grows
  nodup := nodup_newAbove
  above _ hmem := (mem_newAbove.mp hmem).1
  view := h.view_eq hfounded
  get := h.get_shifts hfounded
  exists? := h.exists?_shifts hfounded
  list_of_error _ hlist := h.list_root_of_error hwf hfounded hlist
  list_of_ok _ hlist :=
    have ⟨entries', hlist'⟩ := h.exists_list_root hwf hfounded hlist
    ⟨entries', hlist', h.perm_list_root hwf hfounded hlist hlist'⟩

end DiskStore

end CommitStore
