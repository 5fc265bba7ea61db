import CommitStore.Proofs.Store.DiskListing
import CommitStore.Proofs.Store.DiskReachable
import CommitStore.Proofs.Store.MemoryEntries

/-!
# Below an object

An object is no directory.  In a directory this is a fact of the host: nothing can stand below a
file, so nothing is found there (`ObjectStore.FindsNothing`).  A store in memory keeps its objects
apart from one another, and an object may well lie below another one
(`Backend.objects_stand_below_object`); what is found at a location depends on the objects at and
below that location only.

That a location is below another one, `Location.IsAbove`, is a matter of names, and
`Location.isAbove_iff_prefix_text` says it in terms of texts.
-/

namespace CommitStore

/-! ## Locations below one another -/

namespace Location

variable {a l : Location}

/-- The names of the second location go on from those of the first. -/
def IsAbove (a l : Location) : Prop := ∃ rest ≠ [], l.names = a.names ++ rest

lemma IsAbove.names_ne_nil (h : a.IsAbove l) : l.names ≠ [] := by
  obtain ⟨rest, hrest, hnames⟩ := h
  simp [hnames, hrest]

lemma IsAbove.isRoot (h : a.IsAbove l) : l.isRoot = false := by
  simpa [Location.isRoot] using h.names_ne_nil

/-- Below an object are the locations whose text begins with that of the object and a separator,
except the object's own text with that separator. -/
lemma isAbove_iff_prefix_text (ha : a.isObject = true) : a.IsAbove l ↔
    a.text.toList ++ ['/'] <+: l.text.toList ∧ l ≠ a.asDirectory := by
  obtain ⟨hne, hmark⟩ := isObject_iff.mp ha
  have htext : a.text.toList ++ ['/'] = a.asDirectory.text.toList := by
    rw [text_asDirectory hne, text, hmark]
    simp
  rw [htext]
  by_cases hroot : l.names = []
  · have hlong : ¬ a.asDirectory.text.toList <+: l.text.toList := fun hprefix => hne (by
      simpa [hroot] using prefix_names_of_prefix_text hne hprefix)
    exact iff_of_false (fun h => h.names_ne_nil hroot) fun h => hlong h.1
  cases hdirectory : l.directory with
  | false =>
    have hobject : l.isObject = true := isObject_iff.mpr ⟨hroot, hdirectory⟩
    have hother : l ≠ a.asDirectory := by
      rintro rfl
      simp [asDirectory, hne] at hdirectory
    rw [and_iff_left hother, prefix_text_iff hobject]
    rfl
  | true =>
    have hobject : l.asObject.isObject = true := isObject_iff.mpr ⟨hroot, rfl⟩
    have hself : a.asDirectory.text.toList = l.asObject.text.toList ++ ['/'] ↔
        l = a.asDirectory := by
      rw [← text_of_directory hdirectory, String.toList_inj]
      constructor
      · intro h
        rw [← ofText_text l, ← h, ofText_text]
      · rintro rfl
        rfl
    -- Without its last separator the text is that of an object.
    rw [text_of_directory hdirectory, List.prefix_concat_iff, hself, prefix_text_iff hobject]
    constructor
    · rintro ⟨rest, hrest, hnames⟩
      refine ⟨.inr ⟨rest, hrest, hnames⟩, ?_⟩
      rintro rfl
      exact hrest (by simpa [asDirectory] using hnames)
    · rintro ⟨hsame | habove, hother⟩
      · exact absurd hsame hother
      · exact habove

end Location

/-! ## Finding nothing -/

/-- Nothing is found at a location: reading and describing it fail for that reason, and it does not
exist. -/
structure ObjectStore.FindsNothing {σ : Type} [ObjectStore σ] (store : σ) (l : Location) :
    Prop where
  get : get store l = .error (.notFound l)
  head : head store l = .error (.notFound l)
  exists? : exists? store l = .ok false

lemma ObjectStore.exists?_of_notFound {σ : Type} [ObjectStore σ] {store : σ} {l : Location}
    (h : ObjectStore.head store l = .error (.notFound l)) :
    ObjectStore.exists? store l = .ok false := by
  rw [ObjectStore.exists?, h]

namespace DiskStore

variable {s : DiskStore} {a l : Location} {content : ByteArray}

lemma layout_of_get (h : s.get l = .ok content) : l.isRoot = false ∧ l.hasParentName = false ∧
    s.host.layout (s.base ++ l.names) = some (.file content) := by
  obtain ⟨node, hfind, hread⟩ := exists_of_bind_eq_ok h
  obtain ⟨hroot, hparent, hnode⟩ := find_ok hfind
  cases node with
  | folder entries => cases hread
  | file content' =>
    obtain rfl : content' = content := Except.ok.inj hread
    exact ⟨hroot, hparent, Host.layout_eq_file_iff.mpr hnode⟩

lemma Admits.of_isAbove (hl : s.Admits l) (ha : a.isRoot = false) (habove : a.IsAbove l) :
    s.Admits a := by
  obtain ⟨rest, -, hnames⟩ := habove
  refine ⟨ha, ?_, hl.fits.of_prefix ?_ fun c hc => ?_⟩
  · have hparent := hl.no_parent
    rw [Location.hasParentName, hnames] at hparent
    simp only [List.contains_eq_mem, List.mem_append, decide_eq_false_iff_not, not_or] at hparent
    simpa [Location.hasParentName] using hparent.1
  · rw [path, path, hnames, List.foldl_append]
    exact HostPath.text_prefix_foldl_push _ _
  · rw [components_path] at hc ⊢
    rw [hnames, ← List.append_assoc]
    exact List.mem_append_left _ hc

/-- Nothing is found where nothing stands. -/
lemma findsNothing_of_view (hl : s.Admits l) (h : s.view l.names = none) :
    ObjectStore.FindsNothing s l := by
  have hhead : s.head l = .error (.notFound l) := by rw [head_eq hl, h]
  exact ⟨by show s.get l = _; rw [get_eq hl, h], hhead, ObjectStore.exists?_of_notFound hhead⟩

/-- Nothing is found below an object. -/
lemma findsNothing_of_isAbove (hobject : s.get a = .ok content) (hl : s.Admits l)
    (habove : a.IsAbove l) : ObjectStore.FindsNothing s l := by
  have ha : s.Admits a := hl.of_isAbove (layout_of_get hobject).1 habove
  apply findsNothing_of_view hl
  by_contra hsome
  obtain ⟨rest, hrest, hnames⟩ := habove
  rw [hnames] at hsome
  rw [get_eq ha, view_of_append hrest hsome] at hobject
  cases hobject

lemma get_ne_ok_of_isAbove {other : ByteArray} (hobject : s.get a = .ok content)
    (habove : a.IsAbove l) : s.get l ≠ .ok other := by
  intro hother
  have hfile := (layout_of_get hobject).2.2
  have hbelow := (layout_of_get hother).2.2
  obtain ⟨rest, hrest, hnames⟩ := habove
  rw [hnames, ← List.append_assoc, Host.layout_below (by simp [hfile]) hrest] at hbelow
  cases hbelow

end DiskStore

namespace MemoryStore

variable {s : MemoryStore} {l : Location}

lemma get_ok_iff (hl : l.isRoot = false) : (∃ content, ObjectStore.get s l = .ok content) ↔
    (s.objects.get? l.text).isSome = true := by
  have hget : ObjectStore.get s l = (s.find l).map (·.content) := rfl
  rw [hget, find_eq hl]
  cases s.objects.get? l.text with
  | some object => simp [Except.map]
  | none => cases s.impliedDirectory? l <;> simp [Except.map]

lemma findsNothing_iff (hl : l.isRoot = false) : ObjectStore.FindsNothing s l ↔
    s.objects.get? l.text = none ∧ s.impliedDirectory? l = none := by
  have hget : ObjectStore.get s l = (s.find l).map (·.content) := rfl
  constructor
  · intro h
    have hnone := h.get
    rw [hget, find_eq hl] at hnone
    cases hkey : s.objects.get? l.text with
    | some object => simp [hkey, Except.map] at hnone
    | none =>
      cases himplied : s.impliedDirectory? l with
      | none => exact ⟨rfl, rfl⟩
      | some entry => simp [hkey, himplied, Except.map] at hnone
  · rintro ⟨hkey, himplied⟩
    have hnone : ObjectStore.get s l = .error (.notFound l) := by
      rw [hget, find_eq hl, hkey, himplied]
      rfl
    have hhead := head_error_iff.mpr hnone
    exact ⟨hnone, hhead, ObjectStore.exists?_of_notFound hhead⟩

/-- In memory nothing is found exactly where no object is at a location or below it. -/
lemma findsNothing_iff_no_object (hkeyed : s.Keyed) (hl : l.isRoot = false) :
    ObjectStore.FindsNothing s l ↔
      ∀ k : Location, k = l ∨ l.IsAbove k → ∀ content, ObjectStore.get s k ≠ .ok content := by
  rw [findsNothing_iff hl, impliedDirectory?_eq_none_iff hl]
  constructor
  · rintro ⟨hkey, hbelow⟩ k hk content hcontent
    have hroot : k.isRoot = false := by
      rcases hk with rfl | habove
      · exact hl
      · exact habove.isRoot
    have hsome := (get_ok_iff hroot).mp ⟨content, hcontent⟩
    rcases hk with rfl | habove
    · simp [hkey] at hsome
    · obtain ⟨k', hk', htext⟩ := hkeyed k.text hsome
      obtain rfl : k' = k := by rw [← Location.ofText_text k', htext, Location.ofText_text]
      exact hbelow _ hsome ((Location.prefix_text_iff hk').mpr habove)
  · intro hnone
    have habsent : ∀ k : Location, k = l ∨ l.IsAbove k → k.isRoot = false →
        (s.objects.get? k.text).isSome ≠ true := by
      intro k hk hroot hsome
      obtain ⟨content, hcontent⟩ := (get_ok_iff hroot).mpr hsome
      exact hnone k hk content hcontent
    refine ⟨by simpa using habsent l (.inl rfl) hl, fun key hkey hprefix => ?_⟩
    obtain ⟨k, hk, rfl⟩ := hkeyed key hkey
    exact habsent k (.inr ((Location.prefix_text_iff hk).mp hprefix))
      (Location.isRoot_of_isObject hk) hkey

end MemoryStore

/-! ## A store of either kind -/

namespace Backend

variable {b : Backend} {a l : Location} {content : ByteArray}

/-- A location of which a store can be asked what is there: in a directory it is not the root, holds
no `..` and is within the limits of the host. -/
def Reads : Backend → Location → Prop
  | memory _, l => l.isRoot = false
  | disk s, l => s.Admits l

/-- Below an object nothing is found exactly where there is no other object at or below, and in a
directory that is so everywhere. -/
theorem findsNothing_below_object (hb : b.Reachable) (hobject : ObjectStore.get b a = .ok content)
    (hl : b.Reads l) (habove : a.IsAbove l) :
    (ObjectStore.FindsNothing b l ↔
        ∀ k : Location, k = l ∨ l.IsAbove k → ∀ other, ObjectStore.get b k ≠ .ok other) ∧
      ∀ s, b = .disk s → ObjectStore.FindsNothing b l := by
  cases b with
  | memory s =>
    have hfinds : ObjectStore.FindsNothing (memory s) l ↔ ObjectStore.FindsNothing s l :=
      ⟨fun h => ⟨h.get, h.head, h.exists?⟩, fun h => ⟨h.get, h.head, h.exists?⟩⟩
    rw [hfinds]
    exact ⟨MemoryStore.findsNothing_iff_no_object (MemoryStore.Reachable.keyed hb) hl, by simp⟩
  | disk s =>
    have hnothing := DiskStore.findsNothing_of_isAbove hobject hl habove
    have hfinds : ObjectStore.FindsNothing (disk s) l :=
      ⟨hnothing.get, hnothing.head, hnothing.exists?⟩
    refine ⟨iff_of_true hfinds fun k hk other => ?_, fun _ _ => hfinds⟩
    have hbelow : a.IsAbove k := by
      rcases hk with rfl | ⟨more, hmore, hnames⟩
      · exact habove
      · obtain ⟨rest, -, hl⟩ := habove
        exact ⟨rest ++ more, by simp [hmore], by rw [hnames, hl, List.append_assoc]⟩
    exact DiskStore.get_ne_ok_of_isAbove hobject hbelow

/-- Put the object `a`. -/
def putUpper : Operation := .put (.ofText "a") ⟨#[49]⟩ .epoch

/-- Put the object `a/b`. -/
def putLower : Operation := .put (.ofText "a/b") ⟨#[50]⟩ .epoch

/-- A store in the directory `t` where both objects were put. -/
def nestedOnDisk : DiskStore :=
  (putLower.attempt (putUpper.attempt (⟨.bare ["w"], ⟨"t"⟩, .hardLink, .epoch⟩ : DiskStore)).2).2

/-- A store in memory where both objects were put. -/
def nestedInMemory : MemoryStore := (putLower.attempt (putUpper.attempt MemoryStore.empty).2).2

lemma reachable_nestedOnDisk : nestedOnDisk.Reachable :=
  .attempt (.attempt (.opened (Host.sound_of_walk (by decide) (by decide))) putUpper) putLower

lemma reachable_nestedInMemory : nestedInMemory.Reachable :=
  .attempt (.attempt .empty putUpper) putLower

lemma isAbove_nested : (Location.ofText "a").IsAbove (.ofText "a/b") :=
  ⟨["b"], by simp, by decide⟩

/-- The second object could not be put in a directory, and in memory it is there. -/
theorem nested_findsNothing :
    ObjectStore.FindsNothing (disk nestedOnDisk) (.ofText "a/b") ∧
      ¬ ObjectStore.FindsNothing (memory nestedInMemory) (.ofText "a/b") := by
  have hupper : ObjectStore.get (disk nestedOnDisk) (.ofText "a") = .ok ⟨#[49]⟩ := by decide +kernel
  have hupper' : ObjectStore.get (memory nestedInMemory) (.ofText "a") = .ok ⟨#[49]⟩ := by
    decide +kernel
  have hdisk := findsNothing_below_object (b := disk nestedOnDisk) reachable_nestedOnDisk hupper
    (by decide +kernel : nestedOnDisk.Admits _) isAbove_nested
  have hmemory :=
    findsNothing_below_object (b := memory nestedInMemory) reachable_nestedInMemory hupper'
    (by decide : (Location.ofText "a/b").isRoot = false) isAbove_nested
  refine ⟨hdisk.2 _ rfl, fun hnothing => ?_⟩
  exact hmemory.1.mp hnothing (.ofText "a/b") (.inl rfl) ⟨#[50]⟩ (by decide +kernel)

/-- In memory an object can be read that lies below another one. -/
theorem objects_stand_below_object :
    nestedInMemory.Reachable ∧ (Location.ofText "a").IsAbove (.ofText "a/b") ∧
      ObjectStore.get nestedInMemory (.ofText "a") = .ok ⟨#[49]⟩ ∧
      ObjectStore.get nestedInMemory (.ofText "a/b") = .ok ⟨#[50]⟩ :=
  ⟨reachable_nestedInMemory, isAbove_nested, by decide +kernel⟩

end Backend

end CommitStore
