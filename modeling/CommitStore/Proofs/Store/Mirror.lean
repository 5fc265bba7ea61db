import CommitStore.Proofs.Store.Contents
import CommitStore.Proofs.Store.Presence
import CommitStore.Proofs.Store.Reachable

/-!
# A store in memory that mirrors one in a directory

A store in memory mirrors a store in a directory when both have the same bytes under all object
locations.  That alone does not last: as long as the store in the directory is closed, what lies
below its root cannot be seen, and putting an object may bring it to light.  So the relation
`Mirrors` also asks that the bytes be in reach, in an open store under a location within the limits
of the host.  This lasts as long as no directory is removed, and `DiskStore.Permits` names the
operations that remove none.

What succeeds in the directory then succeeds in memory, and the relation lasts
(`Mirrors.attempt_ok`); what fails in the directory changes no bytes there
(`Mirrors.attempt_error`).
-/

namespace CommitStore

namespace Operation

/-- The locations that an operation names, other than the beginning of a listing. -/
def locations : Operation → List Location
  | put location _ _ | get location | head location | exists? location | delete location =>
    [location]
  | list _ => []
  | rename source target | claim source target => [source, target]

/-- The location that an operation moves. -/
def source? : Operation → Option Location
  | rename source _ | claim source _ => some source
  | _ => none

lemma mem_locations_of_source? {op : Operation} {l : Location} (h : op.source? = some l) :
    l ∈ op.locations := by
  cases op <;> simp_all [source?, locations]

end Operation

/-- An object location without `..` and within the limits of the host. -/
def DiskStore.Usable (s : DiskStore) (l : Location) : Prop := l.isObject = true ∧ s.Admits l

instance (s : DiskStore) (l : Location) : Decidable (s.Usable l) := by
  unfold DiskStore.Usable
  infer_instance

/-- An operation on usable locations that moves no directory. -/
structure DiskStore.Permits (s : DiskStore) (op : Operation) : Prop where
  usable : ∀ l ∈ op.locations, s.Usable l
  no_folder : ∀ l, op.source? = some l → ∀ entry, ObjectStore.head s l ≠ .error (.isDirectory entry)

/-- Both stores have the same bytes under all object locations, and those of the store in the
directory are in reach. -/
structure Mirrors (s : DiskStore) (m : MemoryStore) : Prop where
  root : s.root.text ≠ ""
  wellFormed : s.host.tree.WellFormed
  content? : ∀ l : Location, l.isObject = true → m.content? l = s.content? l.names
  keyed : m.Keyed
  reach : ∀ l : Location, l.isObject = true → s.content? l.names ≠ none → s.IsOpen ∧ s.Admits l

namespace Mirrors

variable {s s' : DiskStore} {m m' : MemoryStore} {l source target : Location} {op : Operation}
  {content : ByteArray}

/-! ## What stands at a location -/

/-- A file that is seen in the directory is an object in memory. -/
lemma view_eq_file_iff (h : Mirrors s m) (hl : l.isObject = true) :
    s.view l.names = some (.file content) ↔ m.content? l = some content := by
  rw [h.content? l hl]
  constructor
  · intro hfile
    rw [DiskStore.view_of_isOpen (DiskStore.isOpen_of_view_eq hfile)] at hfile
    exact DiskStore.content?_eq_some_iff.mpr hfile
  · intro hcontent
    have hopen := (h.reach l hl (by simp [hcontent])).1
    rw [DiskStore.view_of_isOpen hopen]
    exact DiskStore.content?_eq_some_iff.mp hcontent

/-- Every key in memory is that of a file that is seen in the directory. -/
lemma exists_of_key (h : Mirrors s m) {key : String} {object : StoredObject}
    (hkey : m.objects.get? key = some object) : ∃ l : Location, l.isObject = true ∧ l.text = key ∧
      s.Admits l ∧ s.view l.names = some (.file object.content) := by
  obtain ⟨l, hl, rfl⟩ := h.keyed key (by simp [hkey])
  have hcontent : m.content? l = some object.content := by
    rw [MemoryStore.content?, hkey]
    rfl
  have hreach := h.reach l hl (by rw [← h.content? l hl, hcontent]; simp)
  exact ⟨l, hl, rfl, hreach.2, (h.view_eq_file_iff hl).mpr hcontent⟩

/-- A directory in memory is one on the host. -/
lemma view_of_impliedDirectory? (h : Mirrors s m) (hne : l.names ≠ [])
    (himplied : m.impliedDirectory? l ≠ none) : s.view l.names = some .folder := by
  have hroot : l.isRoot = false := by simpa [Location.isRoot] using hne
  rw [Ne, MemoryStore.impliedDirectory?_eq_none_iff hroot] at himplied
  push Not at himplied
  obtain ⟨key, hkey, hbelow⟩ := himplied
  obtain ⟨object, hobject⟩ := Option.isSome_iff_exists.mp hkey
  obtain ⟨k, hk, rfl, -, hfile⟩ := h.exists_of_key hobject
  obtain ⟨rest, hrest, hnames⟩ := (Location.prefix_text_iff hk).mp hbelow
  rw [hnames] at hfile
  exact DiskStore.view_of_append hrest (by simp [hfile])

/-- Where nothing is seen in the directory, nothing is in memory. -/
lemma absent (h : Mirrors s m) (hl : l.isObject = true) (hnone : s.view l.names = none) :
    m.content? l = none ∧ m.impliedDirectory? l = none := by
  constructor
  · by_contra hsome
    obtain ⟨content, hcontent⟩ := Option.ne_none_iff_exists'.mp hsome
    rw [(h.view_eq_file_iff hl).mpr hcontent] at hnone
    cases hnone
  · by_contra hsome
    rw [h.view_of_impliedDirectory? (Location.isObject_iff.mp hl).1 hsome] at hnone
    cases hnone

/-! ## Reading and deleting -/

lemma get_ok_iff (h : Mirrors s m) (hl : s.Usable l) :
    ObjectStore.get s l = .ok content ↔ ObjectStore.get m l = .ok content := by
  have hdisk : ObjectStore.get s l = .ok content ↔ s.view l.names = some (.file content) := by
    show s.get l = _ ↔ _
    rw [DiskStore.get_eq hl.2]
    cases s.view l.names with
    | none => simp
    | some entry => cases entry <;> simp
  rw [hdisk, h.view_eq_file_iff hl.1, MemoryStore.get_eq hl.1]
  cases m.content? l with
  | some content' => simp
  | none => cases m.impliedDirectory? l <;> simp

lemma head_size_iff (h : Mirrors s m) (hl : s.Usable l) {size : Nat} :
    (ObjectStore.head s l).map (·.size) = .ok size ↔
      (ObjectStore.head m l).map (·.size) = .ok size := by
  rw [DiskStore.map_size_head hl.2, MemoryStore.map_size_head]
  constructor
  · intro hsize
    obtain ⟨content, hget, rfl⟩ := map_eq_ok hsize
    rw [(h.get_ok_iff hl).mp hget]
    rfl
  · intro hsize
    obtain ⟨content, hget, rfl⟩ := map_eq_ok hsize
    rw [(h.get_ok_iff hl).mpr hget]
    rfl

/-- What is not found in the directory is not found in memory. -/
lemma get_notFound (h : Mirrors s m) (hl : s.Usable l) {k : Location}
    (hget : ObjectStore.get s l = .error (.notFound k)) :
    ObjectStore.get m l = .error (.notFound k) := by
  change s.get l = _ at hget
  rw [DiskStore.get_eq hl.2] at hget
  cases hview : s.view l.names with
  | some entry => cases entry <;> simp [hview] at hget
  | none =>
    obtain ⟨hcontent, himplied⟩ := h.absent hl.1 hview
    rw [MemoryStore.get_eq hl.1, hcontent, himplied]
    rwa [hview] at hget

/-- What is a directory in memory is one on the host. -/
lemma get_isDirectory (h : Mirrors s m) (hl : s.Usable l) {entry : ObjectMeta}
    (hget : ObjectStore.get m l = .error (.isDirectory entry)) :
    ∃ entry, ObjectStore.get s l = .error (.isDirectory entry) := by
  have himplied : m.impliedDirectory? l ≠ none := by
    intro hnone
    rw [MemoryStore.get_eq hl.1, hnone] at hget
    cases hcontent : m.content? l <;> simp [hcontent] at hget
  refine ⟨.ofDirectory l s.stamp, ?_⟩
  show s.get l = _
  rw [DiskStore.get_eq hl.2, h.view_of_impliedDirectory? (Location.isObject_iff.mp hl.1).1 himplied]

lemma delete_ok_iff (h : Mirrors s m) (hl : s.Usable l) :
    (ObjectStore.delete s l).1 = .ok () ↔ (ObjectStore.delete m l).1 = .ok () := by
  show (s.delete l).1 = _ ↔ (m.delete l).1 = _
  rw [DiskStore.delete_ok_iff h.wellFormed hl.2, MemoryStore.delete_ok_iff]
  exact exists_congr fun content => h.view_eq_file_iff hl.1

/-! ## One operation -/

/-- The relation lasts when both stores get the same bytes. -/
lemma evolve (h : Mirrors s m) {contents : List String → Option ByteArray}
    (hs : s.Evolves s' contents)
    (hm : ∀ k : Location, k.isObject = true → m'.content? k = contents k.names)
    (hkeyed : m'.Keyed)
    (hreach : ∀ k : Location, k.isObject = true → contents k.names ≠ none →
      s'.IsOpen ∧ s.Admits k) : Mirrors s' m' where
  root := by
    rw [hs.continues.root]
    exact h.root
  wellFormed := hs.continues.wellFormed h.wellFormed
  content? k hk := by rw [hm k hk, hs.content?]
  keyed := hkeyed
  reach k hk hsome := by
    rw [hs.content?] at hsome
    exact (hreach k hk hsome).imp_right hs.continues.admits.mpr

/-- A failure in the directory changes no bytes. -/
lemma of_evolves (h : Mirrors s m) (hs : s.Evolves s' s.content?) : Mirrors s' m :=
  h.evolve hs h.content? h.keyed fun k hk hsome => (h.reach k hk hsome).imp_left hs.isOpen

/-- An object that was moved in the directory can be moved in memory. -/
lemma moveOnto (h : Mirrors s m) (hsource : source.isObject = true) (htarget : s.Usable target)
    (hfile : s.view source.names = some (.file content))
    (hs : s.Evolves s' (fun names => if names = target.names then some content
      else if names = source.names then none else s.content? names)) :
    (m.moveOnto source target).1 = .ok () ∧ Mirrors s' (m.moveOnto source target).2 := by
  have hcontent := (h.view_eq_file_iff hsource).mp hfile
  have hopen : s.IsOpen := DiskStore.isOpen_of_view_eq hfile
  obtain ⟨hok, hmoved⟩ := MemoryStore.moveOnto_ok hsource htarget.1 hcontent
  refine ⟨hok, h.evolve hs (fun k hk => ?_) (h.keyed.moveOnto htarget.1) fun k hk hsome =>
    ⟨hs.isOpen hopen, ?_⟩⟩
  · rw [hmoved k hk, h.content? k hk]
  · by_cases hnames : k.names = target.names
    · rw [Location.eq_of_names_eq hk htarget.1 hnames]
      exact htarget.2
    · by_cases hsourceNames : k.names = source.names
      · rw [if_neg hnames, if_pos hsourceNames] at hsome
        exact absurd rfl hsome
      · exact (h.reach k hk (by simpa [hnames, hsourceNames] using hsome)).2

lemma put_ok (h : Mirrors s m) (hl : s.Usable l) {now : Instant}
    (hok : (s.put l content now).1 = .ok ()) :
    (m.put l content now).1 = .ok () ∧ Mirrors (s.put l content now).2 (m.put l content now).2 := by
  obtain ⟨hopen, hs⟩ := DiskStore.put_evolves hl.2 hok
  have hput := MemoryStore.put_eq (s := m) hl.1 content now
  have hkeyed := h.keyed.attempt (.put l content now)
  refine ⟨by rw [hput], h.evolve hs (fun k hk => ?_) hkeyed fun k hk hsome => ⟨hopen, ?_⟩⟩
  · rw [hput, MemoryStore.content?_insert _ hl.1 hk, h.content? k hk]
  · by_cases hnames : k.names = l.names
    · rw [Location.eq_of_names_eq hk hl.1 hnames]
      exact hl.2
    · exact (h.reach k hk (by simpa [hnames] using hsome)).2

lemma delete_ok (h : Mirrors s m) (hl : s.Usable l) (hok : (s.delete l).1 = .ok ()) :
    (m.delete l).1 = .ok () ∧ Mirrors (s.delete l).2 (m.delete l).2 := by
  have hs := DiskStore.delete_evolves h.wellFormed hok
  have hdeleted := (h.delete_ok_iff hl).mp hok
  have hkeyed := h.keyed.attempt (.delete l)
  refine ⟨hdeleted, h.evolve hs (fun k hk => ?_) hkeyed fun k hk hsome => ?_⟩
  · rw [MemoryStore.content?_delete hl.1 hk hdeleted, h.content? k hk]
  · by_cases hnames : k.names = l.names
    · simp [hnames] at hsome
    · exact (h.reach k hk (by simpa [hnames] using hsome)).imp_left hs.isOpen

lemma rename_ok (h : Mirrors s m) (hsource : s.Usable source) (htarget : s.Usable target)
    (hkind : s.view source.names ≠ some .folder) (hok : (s.rename source target).1 = .ok ()) :
    (m.rename source target).1 = .ok () ∧
      Mirrors (s.rename source target).2 (m.rename source target).2 := by
  obtain ⟨content, hfile, hs⟩ := DiskStore.rename_evolves h.wellFormed hsource.2 hkind hok
  have hmove : m.rename source target = m.moveOnto source target := if_pos htarget.1
  rw [hmove]
  exact h.moveOnto hsource.1 htarget hfile hs

lemma claim_ok (h : Mirrors s m) (hsource : s.Usable source) (htarget : s.Usable target)
    (hkind : s.view source.names ≠ some .folder) (hok : (s.claim source target).1 = .ok ()) :
    (m.claim source target).1 = .ok () ∧
      Mirrors (s.claim source target).2 (m.claim source target).2 := by
  obtain ⟨content, hclaimable⟩ :=
    DiskStore.claimable_of_ok h.wellFormed hsource.1 hsource.2 htarget.2 hkind hok
  -- What is free in the directory is free in memory, so the object is moved there too.
  obtain ⟨hfree, himplied⟩ := h.absent htarget.1 hclaimable.free
  have hkey : m.objects.get? target.text = none := Option.map_eq_none_iff.mp hfree
  have hmove : m.claim source target = m.moveOnto source target := by
    simp [MemoryStore.claim, htarget.1, MemoryStore.isTaken, SortedMap.contains_eq_isSome, hkey,
      himplied]
  rw [hmove]
  exact h.moveOnto hsource.1 htarget hclaimable.file hclaimable.evolves

lemma exists?_ok (hl : l.isObject = true) : ∃ found, ObjectStore.exists? m l = .ok found := by
  have hhead : ObjectStore.head m l = (m.find l).map _ := rfl
  rw [ObjectStore.exists?, hhead, MemoryStore.find_eq (Location.isRoot_of_isObject hl)]
  cases m.objects.get? l.text with
  | some object => exact ⟨true, rfl⟩
  | none =>
    cases m.impliedDirectory? l with
    | some entry => exact ⟨true, rfl⟩
    | none => exact ⟨false, rfl⟩

/-- What succeeds in the directory succeeds in memory, and the relation lasts. -/
lemma attempt_ok (h : Mirrors s m) (hop : s.Permits op) (hok : (op.attempt s).1 = .ok ()) :
    (op.attempt m).1 = .ok () ∧ Mirrors (op.attempt s).2 (op.attempt m).2 := by
  have hkind : ∀ l, op.source? = some l → s.view l.names ≠ some .folder := by
    intro l hl hfolder
    apply hop.no_folder l hl (.ofDirectory l s.stamp)
    show s.head l = _
    rw [DiskStore.head_eq (hop.usable l (Operation.mem_locations_of_source? hl)).2, hfolder]
  cases op with
  | put l content now => exact h.put_ok (hop.usable l (by simp [Operation.locations])) hok
  | delete l => exact h.delete_ok (hop.usable l (by simp [Operation.locations])) hok
  | rename source target =>
    have hsource := hop.usable source (by simp [Operation.locations])
    have htarget := hop.usable target (by simp [Operation.locations])
    exact h.rename_ok hsource htarget (hkind source rfl) hok
  | claim source target =>
    have hsource := hop.usable source (by simp [Operation.locations])
    have htarget := hop.usable target (by simp [Operation.locations])
    exact h.claim_ok hsource htarget (hkind source rfl) hok
  | get l =>
    have hl := hop.usable l (by simp [Operation.locations])
    obtain ⟨content, hget, -⟩ := map_eq_ok hok
    have hmemory := (h.get_ok_iff hl).mp hget
    exact ⟨congrArg (Except.map fun _ => ()) hmemory, h⟩
  | head l =>
    have hl := hop.usable l (by simp [Operation.locations])
    obtain ⟨entry, hhead, -⟩ := map_eq_ok hok
    have hsize := (h.head_size_iff hl).mp (congrArg (Except.map (·.size)) hhead)
    obtain ⟨entry', hmemory, -⟩ := map_eq_ok hsize
    exact ⟨congrArg (Except.map fun _ => ()) hmemory, h⟩
  | exists? l =>
    have hl := hop.usable l (by simp [Operation.locations])
    obtain ⟨found, hmemory⟩ := exists?_ok (m := m) hl.1
    exact ⟨congrArg (Except.map fun _ => ()) hmemory, h⟩
  | list l => exact ⟨rfl, h⟩

/-- What fails in the directory changes no bytes there. -/
lemma attempt_error (h : Mirrors s m) {e : StoreError} (herror : (op.attempt s).1 = .error e) :
    Mirrors (op.attempt s).2 m := by
  cases op with
  | put l content now =>
    have hs : s.Evolves (s.put l content now).2 s.content? := DiskStore.put_failed herror
    exact h.of_evolves hs
  | delete l =>
    rcases DiskStore.delete_effect h.wellFormed l with ⟨e', hdelete⟩ | ⟨host, hdelete, -⟩
    · show Mirrors (s.delete l).2 m
      rwa [hdelete]
    · change (s.delete l).1 = _ at herror
      rw [hdelete] at herror
      cases herror
  | rename source target =>
    rcases DiskStore.rename_effect h.wellFormed source target with
      ⟨e', hrename⟩ | ⟨host, hrename, -⟩
    · show Mirrors (s.rename source target).2 m
      rwa [hrename]
    · change (s.rename source target).1 = _ at herror
      rw [hrename] at herror
      cases herror
  | claim source target =>
    show Mirrors (s.claim source target).2 m
    rwa [DiskStore.claim_of_error herror]
  | get l | head l | exists? l | list l => exact h

end Mirrors

end CommitStore
