import CommitStore.Proofs.Store.DiskListing
import CommitStore.Proofs.Store.MemoryListing
import CommitStore.Proofs.Store.Mirror

/-!
# A store in memory stands in for one in a directory

A store in a directory is more than the bytes in it: empty directories stay behind, a file excludes
everything below it, and the host may refuse.  Still everything that succeeds there succeeds in
memory, and whoever replays it in memory, as `Replay` does, reads the same objects there.  The two
differ in one way only: a directory that no object lies in is there on the host and not in memory.
`DiskStore.SimulatedBy` is what the store in memory tells about the other one.
-/

namespace CommitStore

/-- A run of permitted operations has led from `start` to a store, and what succeeded was replayed
in memory, which led from the empty store to another one. -/
inductive Replay (start : DiskStore) : DiskStore → MemoryStore → Prop
  | start : Replay start start .empty
  | success {s : DiskStore} {m : MemoryStore} {op : Operation} (hrun : Replay start s m)
      (hop : s.Permits op) (hok : (op.attempt s).1 = .ok ()) :
      Replay start (op.attempt s).2 (op.attempt m).2
  | failure {s : DiskStore} {m : MemoryStore} {op : Operation} {e : StoreError}
    (hrun : Replay start s m)
      (hop : s.Permits op) (herror : (op.attempt s).1 = .error e) : Replay start (op.attempt s).2 m

/-- What a store in memory tells about one in a directory. -/
structure DiskStore.SimulatedBy (s : DiskStore) (m : MemoryStore) : Prop where
  /-- What succeeds in the directory succeeds in memory. -/
  replays : ∀ op, s.Permits op → (op.attempt s).1 = .ok () → (op.attempt m).1 = .ok ()
  /-- The same bytes are read, with the same size. -/
  get : ∀ l, s.Usable l → ∀ content,
    ObjectStore.get s l = .ok content ↔ ObjectStore.get m l = .ok content
  size : ∀ l, s.Usable l → ∀ size, (ObjectStore.head s l).map (·.size) = .ok size ↔
    (ObjectStore.head m l).map (·.size) = .ok size
  /-- What is not found in the directory is not found in memory. -/
  get_notFound : ∀ l, s.Usable l → ∀ k, ObjectStore.get s l = .error (.notFound k) →
    ObjectStore.get m l = .error (.notFound k)
  head_notFound : ∀ l, s.Usable l → ∀ k, ObjectStore.head s l = .error (.notFound k) →
    ObjectStore.head m l = .error (.notFound k)
  /-- What is a directory in memory is one on the host. -/
  get_isDirectory : ∀ l, s.Usable l → ∀ entry, ObjectStore.get m l = .error (.isDirectory entry) →
    ∃ entry, ObjectStore.get s l = .error (.isDirectory entry)
  head_isDirectory : ∀ l, s.Usable l → ∀ entry, ObjectStore.head m l = .error (.isDirectory entry) →
    ∃ entry, ObjectStore.head s l = .error (.isDirectory entry)
  /-- The same objects can be deleted. -/
  delete : ∀ l, s.Usable l →
    ((∃ e, (ObjectStore.delete s l).1 = .error e) ↔ ∃ e, (ObjectStore.delete m l).1 = .error e)
  /-- When a listing succeeds, the same objects are listed with the same sizes, and in memory just
  those directories that an object lies in. -/
  list : ∀ query entries, ObjectStore.list s query = .ok entries →
    ∃ entries', ObjectStore.list m query = .ok entries' ∧
      (ObjectMeta.objects entries).Perm (ObjectMeta.objects entries') ∧
      ∀ l, l ∈ ObjectMeta.directories entries' ↔ l ∈ ObjectMeta.directories entries ∧
        ∃ object ∈ ObjectMeta.objects entries, l.names <+: object.1.names

namespace Mirrors

variable {s : DiskStore} {m : MemoryStore} {query k : Location} {entries : List ObjectMeta}

/-- Below a directory that is not there the store in memory has nothing. -/
lemma content?_ne_some (h : Mirrors s m) (hparent : query.splitLast.1.hasParentName = false)
    (hmissing : s.host.isFolder (s.path query.splitLast.1) = false) (hk : k.isObject = true)
    (hmatches : query.splitLast.1.Matches query.splitLast.2 k.names) (content : ByteArray) :
    m.content? k ≠ some content := by
  intro hcontent
  obtain ⟨rest, hrest, hnames⟩ := hmatches.below
  have hview := (h.view_eq_file_iff hk).mpr hcontent
  have hadmits := (h.reach k hk (by rw [← h.content? k hk, hcontent]; simp)).2
  have hfolder := DiskStore.isFolder_of_below h.root hparent hadmits (by simp [hview]) hrest hnames
  rw [hfolder] at hmissing
  cases hmissing

/-- The listing of a directory that is not there is empty in memory. -/
lemma list_of_missing (h : Mirrors s m) (hparent : query.splitLast.1.hasParentName = false)
    (hmissing : s.host.isFolder (s.path query.splitLast.1) = false) :
    ObjectMeta.objects (m.list query) = [] ∧ ObjectMeta.directories (m.list query) = [] := by
  constructor
  · rw [List.eq_nil_iff_forall_not_mem]
    rintro ⟨k, size⟩ hmem
    obtain ⟨hk, hmatches, content, hcontent, -⟩ := (MemoryStore.mem_objects_list h.keyed).mp hmem
    exact h.content?_ne_some hparent hmissing hk hmatches content hcontent
  · rw [List.eq_nil_iff_forall_not_mem]
    intro l hmem
    obtain ⟨-, -, k, hk, ⟨content, hcontent⟩, hmatches, -⟩ :=
      (MemoryStore.mem_directories_list h.keyed).mp hmem
    exact h.content?_ne_some hparent hmissing hk hmatches content hcontent

/-- The same objects are listed of a directory. -/
lemma mem_objects_iff {inside : Directory} (h : Mirrors s m)
    (hparent : query.splitLast.1.hasParentName = false)
    (hlookup : s.host.lookup (s.path query.splitLast.1) = .ok (.folder inside))
    (object : Location × Nat) :
    object ∈ ObjectMeta.objects (s.listing query.splitLast.1 query.splitLast.2 inside) ↔
      object ∈ ObjectMeta.objects (m.list query) := by
  obtain ⟨k, size⟩ := object
  rw [DiskStore.mem_objects_listing h.wellFormed hparent hlookup,
    MemoryStore.mem_objects_list h.keyed]
  refine and_congr_right fun hk => and_congr_right fun _ => ?_
  rw [h.content? k hk]

/-- Of the directories that are listed, the store in memory lists those that an object lies in. -/
lemma mem_directories_iff {inside : Directory} {l : Location} (h : Mirrors s m)
    (hparent : query.splitLast.1.hasParentName = false)
    (hlookup : s.host.lookup (s.path query.splitLast.1) = .ok (.folder inside)) :
    l ∈ ObjectMeta.directories (m.list query) ↔
      l ∈ ObjectMeta.directories (s.listing query.splitLast.1 query.splitLast.2 inside) ∧
        ∃ object ∈ ObjectMeta.objects (s.listing query.splitLast.1 query.splitLast.2 inside),
          l.names <+: object.1.names := by
  have hobjects := h.mem_objects_iff hparent hlookup
  rw [MemoryStore.mem_directories_list h.keyed,
    DiskStore.mem_directories_listing h.wellFormed hparent hlookup]
  constructor
  · rintro ⟨hmark, hcovers, k, hk, ⟨content, hcontent⟩, hmatches, after, hafter, hnames⟩
    have hview := (h.view_eq_file_iff hk).mpr hcontent
    rw [hnames] at hview
    have hfolder := DiskStore.view_of_append hafter (show s.view _ ≠ none by rw [hview]; simp)
    rw [DiskStore.view_of_isOpen (DiskStore.isOpen_of_view_eq hview)] at hfolder
    refine ⟨⟨hmark, hcovers, hfolder⟩, (k, content.size), ?_,
      by rw [hnames]; exact List.prefix_append _ _⟩
    apply (hobjects _).mpr
    apply (MemoryStore.mem_objects_list h.keyed).mpr
    exact ⟨hk, hmatches, content, hcontent, rfl⟩
  · rintro ⟨⟨hmark, hcovers, hfolder⟩, ⟨k, size⟩, hobject, after, hnames⟩
    obtain ⟨hk, hmatches, content, hcontent, -⟩ :=
      (MemoryStore.mem_objects_list h.keyed).mp ((hobjects _).mp hobject)
    refine ⟨hmark, hcovers, k, hk, ⟨content, hcontent⟩, hmatches, after, ?_, hnames.symm⟩
    -- A directory is not itself the object.
    intro hempty
    rw [hempty, List.append_nil] at hnames
    rw [h.content? k hk, DiskStore.content?_eq_some_iff, ← hnames, hfolder] at hcontent
    cases hcontent

/-- Both stores list the same objects, and in memory just those directories are listed that an
object lies in. -/
lemma list (h : Mirrors s m) (hlist : s.list query = .ok entries) :
    (ObjectMeta.objects entries).Perm (ObjectMeta.objects (m.list query)) ∧
      ∀ l, l ∈ ObjectMeta.directories (m.list query) ↔ l ∈ ObjectMeta.directories entries ∧
        ∃ object ∈ ObjectMeta.objects entries, l.names <+: object.1.names := by
  obtain ⟨hparent, ⟨rfl, hmissing⟩ | ⟨inside, hlookup, rfl⟩⟩ := DiskStore.list_cases hlist
  · obtain ⟨hobjects, hdirectories⟩ := h.list_of_missing hparent hmissing
    rw [hobjects, hdirectories]
    simp [ObjectMeta.objects, ObjectMeta.directories]
  · have hinside := DiskStore.wellFormed_inside h.wellFormed hparent hlookup
    refine ⟨?_, fun l => h.mem_directories_iff hparent hlookup⟩
    apply (List.perm_ext_iff_of_nodup (DiskStore.nodup_objects_listing hinside s _ _)
      (MemoryStore.nodup_objects_list h.keyed query)).mpr
    exact h.mem_objects_iff hparent hlookup

lemma exists_error_iff {ε α : Type} {x y : Except ε α} (h : (∃ a, x = .ok a) ↔ ∃ a, y = .ok a) :
    (∃ e, x = .error e) ↔ ∃ e, y = .error e := by
  cases x <;> cases y <;> simp_all

/-- A mirror tells all that it should. -/
lemma simulatedBy (h : Mirrors s m) : s.SimulatedBy m where
  replays op hop hok := (h.attempt_ok hop hok).1
  get l hl content := h.get_ok_iff hl
  size l hl size := h.head_size_iff hl
  get_notFound l hl k := h.get_notFound hl
  head_notFound l hl k hhead := by
    rw [DiskStore.head_error_iff hl.2] at hhead
    exact MemoryStore.head_error_iff.mpr (h.get_notFound hl hhead)
  get_isDirectory l hl entry := h.get_isDirectory hl
  head_isDirectory l hl entry hhead := by
    obtain ⟨entry', hget⟩ := h.get_isDirectory hl (MemoryStore.head_error_iff.mp hhead)
    exact ⟨entry', (DiskStore.head_error_iff hl.2).mpr hget⟩
  delete l hl := by
    apply exists_error_iff
    exact exists_congr fun _ => h.delete_ok_iff hl
  list query entries hlist := ⟨m.list query, rfl, h.list hlist⟩

end Mirrors

namespace DiskStore

/-- Nothing lies below the root directory. -/
def IsEmpty (s : DiskStore) : Prop := ∀ names ≠ [], s.host.layout (s.base ++ names) = none

lemma IsEmpty.mirrors {s : DiskStore} (h : s.IsEmpty) (hroot : s.root.text ≠ "")
    (hwf : s.host.tree.WellFormed) : Mirrors s .empty where
  root := hroot
  wellFormed := hwf
  content? l hl := by
    rw [content?, h l.names (Location.isObject_iff.mp hl).1]
    rfl
  keyed key hkey := by cases hkey
  reach l hl hsome := by
    rw [content?, h l.names (Location.isObject_iff.mp hl).1] at hsome
    exact absurd rfl hsome

end DiskStore

namespace Replay

variable {start s : DiskStore} {m : MemoryStore}

/-- Throughout a run the store in memory mirrors the other one. -/
lemma mirrors (hrun : Replay start s m) (hempty : start.IsEmpty) (hroot : start.root.text ≠ "")
    (hwf : start.host.tree.WellFormed) : Mirrors s m := by
  induction hrun with
  | start => exact hempty.mirrors hroot hwf
  | success hrun hop hok ih => exact (ih.attempt_ok hop hok).2
  | failure hrun hop herror ih => exact ih.attempt_error herror

/-- A store that starts in an empty directory is simulated throughout every run of permitted
operations by the store in memory on which its successes are replayed. -/
theorem simulated (hrun : Replay start s m) (hempty : start.IsEmpty) (hroot : start.root.text ≠ "")
    (hwf : start.host.tree.WellFormed) : s.SimulatedBy m :=
  (hrun.mirrors hempty hroot hwf).simulatedBy

/-! ## A directory that stays behind -/

section EmptySample

/-- An empty store in the directory `t`. -/
def emptySample : DiskStore := ⟨.bare ["w"], ⟨"t"⟩, .hardLink, .epoch⟩

/-- Put an object into a directory. -/
def putSample : Operation := .put (.ofText "a/b") ⟨#[1]⟩ .epoch

/-- Claim another location for it. -/
def claimSample : Operation := .claim (.ofText "a/b") (.ofText "c")

lemma isEmpty_emptySample : emptySample.IsEmpty := by
  intro names _
  have hbase : emptySample.base = ["w", "t"] := by decide +kernel
  rw [hbase]
  exact Host.layout_bare ["w"] "t" names

lemma replay_emptySample : Replay emptySample
    (claimSample.attempt (putSample.attempt emptySample).2).2
    (claimSample.attempt (putSample.attempt MemoryStore.empty).2).2 := by
  have hput : Replay emptySample (putSample.attempt emptySample).2
      (putSample.attempt MemoryStore.empty).2 :=
    .success .start ⟨by decide +kernel, by rintro l ⟨⟩⟩ (by decide +kernel)
  refine .success hput ⟨by decide +kernel, ?_⟩ (by decide +kernel)
  rintro l ⟨⟩ entry hhead
  have hfound :
      (ObjectStore.head (putSample.attempt emptySample).2 (.ofText "a/b")).isOk = true := by
    decide +kernel
  rw [hhead] at hfound
  cases hfound

/-- When the object has moved, its directory is left on the host and not in memory. -/
theorem emptySample_simulated :
    let s := (claimSample.attempt (putSample.attempt emptySample).2).2
    let m := (claimSample.attempt (putSample.attempt MemoryStore.empty).2).2
    s.SimulatedBy m ∧ ObjectStore.get m (.ofText "c") = .ok ⟨#[1]⟩ ∧
      ObjectStore.exists? s (.ofText "a") = .ok true ∧
      ObjectStore.exists? m (.ofText "a") = .ok false :=
  ⟨replay_emptySample.simulated isEmpty_emptySample (by decide) (by decide +kernel),
    by decide +kernel⟩

end EmptySample

end Replay

end CommitStore
