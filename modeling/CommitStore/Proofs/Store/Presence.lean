import CommitStore.Proofs.Store.Operation

/-!
# Objects and free places in a store of either kind

What writers rely on is said here once for both kinds of stores: that an object is at a location
(`Backend.HasObject`), that a place is free (`Backend.IsFree`), that a directory is there
(`Backend.HasRoom`).  All of this stays as long as the store stays steady at the location,
`Backend.Steady`, and it does so through every operation elsewhere, one with `Backend.Spares`
(`Backend.steady_attempt`).  `Backend.claim_of_free` and `Backend.claim_of_taken` say what a claim
does.
-/

namespace CommitStore

/-- Neither of two locations is at or below the other. -/
def Location.Apart (l k : Location) : Prop := ¬ l.names <+: k.names ∧ ¬ k.names <+: l.names

instance (l k : Location) : Decidable (l.Apart k) := by unfold Location.Apart; infer_instance

lemma Location.Apart.symm {l k : Location} (h : l.Apart k) : k.Apart l := ⟨h.2, h.1⟩

lemma Location.Apart.text_ne {t l : Location} (h : t.Apart l) : t.text ≠ l.text := fun htext =>
  h.1 (names_eq_of_text_eq htext ▸ List.prefix_refl _)

/-! ## In a directory -/

namespace DiskStore

variable {s s' : DiskStore} {l : Location}

/-- Nothing has changed on the way to a location, except for new directories, and nothing at all at
the location. -/
structure Steady (s s' : DiskStore) (l : Location) : Prop where
  continues : s.Continues s'
  keeps : ∀ names, (names ∈ s.rootRoute ∨ ∃ front, front <+: l.names ∧ names = s.base ++ front) →
    s.host.Keeps s'.host names
  place : s'.host.layout (s.base ++ l.names) = s.host.layout (s.base ++ l.names)

lemma Steady.isOpen (h : s.Steady s' l) (hopen : s.IsOpen) : s'.IsOpen :=
  h.continues.isOpen hopen fun place hplace => (h.keeps place (.inl hplace)).some

/-- What stands on the way to a location or at it stands there still. -/
lemma Steady.view (h : s.Steady s' l) {front : List String} {entry : Entry}
    (hfront : front <+: l.names) (hentry : s.view front = some entry) :
    s'.view front = some entry := by
  have hopen : s.IsOpen := isOpen_of_view_eq hentry
  rw [view_of_isOpen hopen] at hentry
  rw [view_of_isOpen (h.isOpen hopen), h.continues.base]
  exact (h.keeps _ (.inr ⟨front, hfront, rfl⟩)).some hentry

lemma view_of_layout_none {names : List String} (h : s.host.layout (s.base ++ names) = none) :
    s.view names = none := by
  rw [view]
  split
  · exact h
  · rfl

end DiskStore

/-! ## In a store of either kind -/

namespace Backend

variable {b b' b'' : Backend} {l slot source : Location} {content : ByteArray} {op : Operation}
variable {places : List Location}

/-- In a directory, no two entries of the host have the same place. -/
def WellFormed : Backend → Prop
  | memory _ => True
  | disk s => s.host.tree.WellFormed

/-- An object with the given bytes is at a location. -/
def HasObject (b : Backend) (l : Location) (content : ByteArray) : Prop :=
  match b with
  | memory s => ∃ time, s.objects.get? l.text = some ⟨content, time⟩
  | disk s => s.view l.names = some (.file content)

/-- No object is at a location. -/
def Lacks (b : Backend) (l : Location) : Prop :=
  match b with
  | memory s => s.objects.get? l.text = none
  | disk s => s.host.layout (s.base ++ l.names) = none

/-- Nothing is at a location or below it. -/
def IsFree (b : Backend) (l : Location) : Prop :=
  match b with
  | memory s => s.objects.get? l.text = none ∧
      ∀ key, (s.objects.get? key).isSome → ¬ l.asDirectory.text.toList <+: key.toList
  | disk s => s.host.layout (s.base ++ l.names) = none

/-- In a directory, the directory that should hold what is at a location is there. -/
def HasRoom (b : Backend) (l : Location) : Prop :=
  match b with
  | memory _ => True
  | disk s => s.view l.names.dropLast = some .folder

/-- In a directory, the root path leads through directories to a directory. -/
def IsOpen : Backend → Prop
  | memory _ => True
  | disk s => s.IsOpen

/-- In a directory, the root path leads through the place of a location or a place below it. -/
def LeadsThrough (b : Backend) (l : Location) : Prop :=
  match b with
  | memory _ => False
  | disk s => ∃ place ∈ s.rootRoute, s.base ++ l.names <+: place

instance : (b : Backend) → Decidable b.WellFormed
  | memory _ => .isTrue trivial
  | disk s => inferInstanceAs (Decidable s.host.tree.WellFormed)

instance : (b : Backend) → (l : Location) → Decidable (b.HasRoom l)
  | memory _, _ => .isTrue trivial
  | disk s, l => inferInstanceAs (Decidable (s.view l.names.dropLast = some .folder))

instance : (b : Backend) → (l : Location) → Decidable (b.LeadsThrough l)
  | memory _, _ => .isFalse id
  | disk s, l => inferInstanceAs (Decidable (∃ place ∈ s.rootRoute, s.base ++ l.names <+: place))

/-- The store is of the same kind and, in a directory, the same one on a changed host. -/
def Continues : Backend → Backend → Prop
  | memory _, memory _ => True
  | disk s, disk s' => s.Continues s'
  | _, _ => False

/-- Nothing has changed that matters at a location. -/
def Steady (b b' : Backend) (l : Location) : Prop :=
  match b, b' with
  | memory s, memory s' => s'.objects.get? l.text = s.objects.get? l.text ∧
      ∀ key, l.asDirectory.text.toList <+: key.toList →
        (s'.objects.get? key).isSome → (s.objects.get? key).isSome
  | disk s, disk s' => s.Steady s' l
  | _, _ => False

/-- An operation touches no location at, above or below some places, and none that the root path
leads through. -/
structure Spares (b : Backend) (op : Operation) (places : List Location) : Prop where
  apart : ∀ t ∈ op.touched, ∀ p ∈ places, t.Apart p
  root : ∀ t ∈ op.touched, ¬ b.LeadsThrough t

/-! ## Reading -/

lemma get_eq_ok_iff (hl : b.Admits l) :
    ObjectStore.get b l = .ok content ↔ b.HasObject l content := by
  cases b with
  | memory s =>
    have hget : ObjectStore.get (memory s) l = (s.find l).map (·.content) := rfl
    rw [hget, MemoryStore.find_eq (Location.isRoot_of_isObject hl.isObject)]
    cases hkey : s.objects.get? l.text with
    | some object =>
      obtain ⟨bytes, time⟩ := object
      simp [HasObject, hkey, Except.map]
    | none => cases s.impliedDirectory? l <;> simp [HasObject, hkey, Except.map]
  | disk s =>
    have hget : ObjectStore.get (disk s) l = _ := DiskStore.get_eq (hl.onDisk s rfl)
    rw [hget, HasObject]
    cases s.view l.names with
    | none => simp
    | some entry => cases entry <;> simp

lemma Lacks.get_ne_ok (h : b.Lacks l) (hl : b.Admits l) : ObjectStore.get b l ≠ .ok content := by
  rw [Ne, get_eq_ok_iff hl]
  cases b with
  | memory s =>
    rintro ⟨time, hkey⟩
    rw [show s.objects.get? l.text = none from h] at hkey
    cases hkey
  | disk s =>
    intro hfile
    have hnone : s.view l.names = none := DiskStore.view_of_layout_none h
    rw [show s.view l.names = some (.file content) from hfile] at hnone
    cases hnone

/-- In an open store a place is free when nothing is found there. -/
lemma isFree_of_head (hl : b.Admits l) (hopen : b.IsOpen)
    (hhead : ObjectStore.head b l = .error (.notFound l)) : b.IsFree l := by
  cases b with
  | memory s =>
    have hroot := Location.isRoot_of_isObject hl.isObject
    have hfind : (s.find l).map (fun object =>
        ObjectMeta.ofObject l object.content.size object.lastModified) = .error (.notFound l) :=
      hhead
    rw [MemoryStore.find_eq hroot] at hfind
    rw [IsFree, ← MemoryStore.impliedDirectory?_eq_none_iff hroot]
    cases hkey : s.objects.get? l.text with
    | some object => simp [hkey, Except.map] at hfind
    | none =>
      cases hdirectory : s.impliedDirectory? l with
      | some entry => simp [hkey, hdirectory, Except.map] at hfind
      | none => exact ⟨rfl, rfl⟩
  | disk s =>
    have hview : s.head l = .error (.notFound l) := hhead
    rw [DiskStore.head_eq (hl.onDisk s rfl)] at hview
    show s.host.layout (s.base ++ l.names) = none
    rw [← DiskStore.view_of_isOpen (show s.IsOpen from hopen)]
    cases hentry : s.view l.names with
    | none => rfl
    | some entry => cases entry <;> simp [hentry] at hview

/-- Nothing is found at a free place. -/
lemma IsFree.head (h : b.IsFree l) (hl : b.Admits l) :
    ObjectStore.head b l = .error (.notFound l) := by
  cases b with
  | memory s =>
    have hroot := Location.isRoot_of_isObject hl.isObject
    have hhead : ObjectStore.head (memory s) l = (s.find l).map fun object =>
        ObjectMeta.ofObject l object.content.size object.lastModified := rfl
    rw [hhead, MemoryStore.find_eq hroot, h.1]
    simp only [(MemoryStore.impliedDirectory?_eq_none_iff hroot).mpr h.2]
    rfl
  | disk s =>
    have hhead : ObjectStore.head (disk s) l = s.head l := rfl
    rw [hhead, DiskStore.head_eq (hl.onDisk s rfl), DiskStore.view_of_layout_none h]

lemma IsFree.exists? (h : b.IsFree l) (hl : b.Admits l) : ObjectStore.exists? b l = .ok false := by
  rw [ObjectStore.exists?, h.head hl]

lemma HasObject.exists? (h : b.HasObject l content) (hl : b.Admits l) :
    ObjectStore.exists? b l = .ok true := by
  cases b with
  | memory s =>
    obtain ⟨time, hkey⟩ := h
    refine (MemoryStore.exists?_eq_true_iff (Location.isRoot_of_isObject hl.isObject)).mpr ?_
    simp [MemoryStore.isTaken, SortedMap.contains_eq_isSome, hkey]
  | disk s =>
    have hview : s.view l.names = some (.file content) := h
    exact (DiskStore.exists?_eq_true_iff (hl.onDisk s rfl)).mpr (by simp [hview])

lemma IsFree.lacks (h : b.IsFree l) : b.Lacks l := by
  cases b with
  | memory s => exact h.1
  | disk s => exact h

lemma HasRoom.isOpen (h : b.HasRoom l) : b.IsOpen := by
  cases b with
  | memory s => trivial
  | disk s =>
    have hroom : s.view l.names.dropLast = some .folder := h
    exact DiskStore.isOpen_of_view_eq hroom

/-! ## Going on -/

lemma Continues.trans (h : b.Continues b') (h' : b'.Continues b'') : b.Continues b'' := by
  cases b <;> cases b' <;> cases b'' <;> try contradiction
  · trivial
  · exact DiskStore.Continues.trans h h'

lemma Continues.admits (h : b.Continues b') : b'.Admits l ↔ b.Admits l := by
  cases b <;> cases b' <;> try contradiction
  · exact ⟨fun ha => ⟨ha.isObject, by simp⟩, fun ha => ⟨ha.isObject, by simp⟩⟩
  · rename_i s s'
    have hsame : s'.Admits l ↔ s.Admits l := DiskStore.Continues.admits h
    refine ⟨fun ha => ⟨ha.isObject, ?_⟩, fun ha => ⟨ha.isObject, ?_⟩⟩
    · rintro t ⟨⟩
      exact hsame.mp (ha.onDisk s' rfl)
    · rintro t ⟨⟩
      exact hsame.mpr (ha.onDisk s rfl)

lemma Continues.leadsThrough (h : b.Continues b') : b'.LeadsThrough l ↔ b.LeadsThrough l := by
  cases b <;> cases b' <;> try contradiction
  · exact Iff.rfl
  · rename_i s s'
    have hc : s.Continues s' := h
    simp only [LeadsThrough, hc.rootRoute, hc.base]

lemma Continues.spares (h : b.Continues b') (hs : b.Spares op places) : b'.Spares op places :=
  ⟨hs.apart, fun t ht hleads => hs.root t ht (h.leadsThrough.mp hleads)⟩

lemma Continues.wellFormed (h : b.Continues b') (hwf : b.WellFormed) : b'.WellFormed := by
  cases b <;> cases b' <;> try contradiction
  · trivial
  · exact DiskStore.Continues.wellFormed h hwf

lemma Steady.refl (b : Backend) (l : Location) : b.Steady b l := by
  cases b with
  | memory s => exact ⟨rfl, fun _ _ => id⟩
  | disk s => exact ⟨.refl s, fun _ _ => .inl rfl, rfl⟩

lemma Steady.continues (h : b.Steady b' l) : b.Continues b' := by
  cases b <;> cases b' <;> try contradiction
  · trivial
  · exact DiskStore.Steady.continues h

lemma HasObject.steady (h : b.HasObject l content) (hs : b.Steady b' l) :
    b'.HasObject l content := by
  cases b <;> cases b' <;> try contradiction
  · obtain ⟨time, hkey⟩ := h
    exact ⟨time, hs.1.trans hkey⟩
  · exact DiskStore.Steady.view hs (List.prefix_refl _) h

lemma Lacks.steady (h : b.Lacks l) (hs : b.Steady b' l) : b'.Lacks l := by
  cases b <;> cases b' <;> try contradiction
  · exact hs.1.trans h
  · rename_i s s'
    have hsteady : s.Steady s' l := hs
    show s'.host.layout (s'.base ++ l.names) = none
    rw [hsteady.continues.base]
    exact hsteady.place.trans h

lemma IsFree.steady (h : b.IsFree l) (hs : b.Steady b' l) : b'.IsFree l := by
  have hlacks := h.lacks.steady hs
  cases b <;> cases b' <;> try contradiction
  · exact ⟨hlacks, fun key hkey hbelow => h.2 key (hs.2 key hbelow hkey) hbelow⟩
  · exact hlacks

lemma HasRoom.steady (h : b.HasRoom l) (hs : b.Steady b' l) : b'.HasRoom l := by
  cases b <;> cases b' <;> try contradiction
  · trivial
  · exact DiskStore.Steady.view hs (List.dropLast_prefix _) h

/-! ## Operations elsewhere -/

lemma attempt_disk (s : DiskStore) (op : Operation) :
    (op.attempt (disk s)).2 = disk (op.attempt s).2 := by
  cases op <;> rfl

lemma attempt_memory (s : MemoryStore) (op : Operation) :
    (op.attempt (memory s)).2 = memory (op.attempt s).2 := by
  cases op <;> rfl

lemma continues_attempt (hwf : b.WellFormed) (op : Operation) : b.Continues (op.attempt b).2 := by
  cases b with
  | memory s =>
    rw [attempt_memory]
    trivial
  | disk s =>
    rw [attempt_disk]
    exact (DiskStore.attempt_effect hwf op).continues

/-- An operation elsewhere leaves the store steady at a location below the root, unless it makes the
location a directory of the root path. -/
lemma steady_attempt (hwf : b.WellFormed) (hs : b.Spares op places) (hl : l ∈ places)
    (hne : l.names ≠ []) (hroot : b.IsOpen ∨ ¬ b.LeadsThrough l) : b.Steady (op.attempt b).2 l := by
  cases b with
  | memory s =>
    rw [attempt_memory]
    refine ⟨MemoryStore.get?_attempt fun t ht => (hs.apart t ht l hl).text_ne,
      fun key hbelow hkey => ?_⟩
    by_contra hold
    -- A new key is that of a location that was touched, and that is not below the free place.
    by_cases htouched : ∀ t ∈ op.touched, t.text ≠ key
    · rw [MemoryStore.get?_attempt htouched] at hkey
      exact hold hkey
    · obtain ⟨t, ht, rfl⟩ : ∃ t ∈ op.touched, t.text = key := by simpa using htouched
      exact (hs.apart t ht l hl).2 (Location.prefix_names_of_prefix_text hne hbelow)
  | disk s =>
    rw [attempt_disk]
    have hchanges := DiskStore.attempt_effect hwf op
    have hspared : ∀ front, front <+: l.names → ∀ t ∈ op.touched,
        ¬ s.base ++ t.names <+: s.base ++ front := fun front hfront t ht hbelow =>
      (hs.apart t ht l hl).1 (((List.prefix_append_right_inj s.base).mp hbelow).trans hfront)
    refine ⟨hchanges.continues, ?_, ?_⟩
    · rintro names (hnames | ⟨front, hfront, rfl⟩)
      · exact .of_layout (hchanges.layout names fun t ht hbelow =>
          hs.root t ht ⟨names, hnames, hbelow⟩)
      · exact .of_layout (hchanges.layout _ (hspared front hfront))
    · rcases hchanges.layout _ (hspared _ (List.prefix_refl _)) with
        hsame | ⟨hnone, -, hgrown | ⟨t, ht, front, hfront, heq⟩⟩
      · exact hsame
      · rcases hroot with hopen | hnot
        · rw [show s.host.layout _ = some Entry.folder from hopen _ hgrown] at hnone
          cases hnone
        · exact absurd ⟨_, hgrown, List.prefix_refl _⟩ hnot
      · rw [← List.append_cancel_left heq] at hfront
        exact absurd hfront (hs.apart t ht l hl).2

/-! ## Claims -/

lemma claim_of_taken {d : ByteArray} (hsource : b.Admits source) (hslot : b.Admits slot)
    (hobject : b.HasObject source content) (htaken : b.HasObject slot d) :
    ObjectStore.claim b source slot = (.error (.alreadyExists slot), b) := by
  cases b with
  | memory s =>
    obtain ⟨time, hkey⟩ := htaken
    have htaken : s.isTaken slot = true := by
      simp [MemoryStore.isTaken, SortedMap.contains_eq_isSome, hkey]
    have hrefused : (s.claim source slot).1 = .error (.alreadyExists slot) :=
      (MemoryStore.claim_refused_iff hslot.isObject).mpr htaken
    exact Prod.ext hrefused (congrArg memory (MemoryStore.claim_of_error hrefused))
  | disk s =>
    have hsourceView : s.view source.names = some (.file content) := hobject
    have hslotView : s.view slot.names = some (.file d) := htaken
    have hrefused := (DiskStore.claim_refused_iff hsource.isObject hslot.isObject
      (hsource.onDisk s rfl) (hslot.onDisk s rfl)).mpr ⟨by simp [hslotView], by simp [hsourceView]⟩
    exact Prod.ext hrefused (congrArg disk (DiskStore.claim_of_error hrefused))

end Backend

namespace MemoryStore

variable {s : MemoryStore} {source slot : Location} {object : StoredObject}

/-- A claim in memory moves one entry. -/
lemma claim_of_free (hslot : slot.isObject = true) (hkey : s.objects.get? source.text = some object)
    (hfree : (Backend.memory s).IsFree slot) :
    s.claim source slot =
      (.ok (), ⟨(s.objects.erase source.text).insert slot.text object⟩) := by
  have hroot := Location.isRoot_of_isObject hslot
  have htaken : s.isTaken slot = false := by
    simp [isTaken, SortedMap.contains_eq_isSome, hfree.1,
      (impliedDirectory?_eq_none_iff hroot).mpr hfree.2]
  rw [claim, if_pos hslot, htaken, moveOnto, hkey]
  rfl

end MemoryStore

namespace DiskStore

variable {s : DiskStore} {source slot : Location} {content : ByteArray}

/-- A claim in a directory moves one file. -/
lemma Claimable.keeps (h : s.Claimable source slot content) {host : Host}
    (hbecomes : s.host.Becomes host ((s.host.layout.clear (s.base ++ source.names)).plant
      (s.base ++ slot.names) (.ofFile content))) {names : List String} {entry : Entry}
    (hentry : s.host.layout names = some entry) (hne : names ≠ s.base ++ source.names) :
    host.layout names = some entry := by
  have hsome : s.host.layout names ≠ none := by simp [hentry]
  rw [hbecomes.layout, Layout.plant_elsewhere (Host.not_prefix_of_none h.layout_target hsome),
    Layout.clear_elsewhere (Host.not_prefix_of_file h.layout_source hne hsome), hentry]

end DiskStore

namespace Backend

variable {b : Backend} {slot source : Location} {content : ByteArray}

lemma claim_of_free_memory {s : MemoryStore} (hslot : slot.isObject = true)
    (hobject : (memory s).HasObject source content) (hfree : (memory s).IsFree slot) :
    ∃ after, ObjectStore.claim (memory s) source slot = (.ok (), after) ∧
      after.HasObject slot content ∧ after.Lacks source ∧ after.HasRoom slot ∧
      ∀ l d, l.names ≠ source.names → (memory s).HasObject l d → after.HasObject l d := by
  obtain ⟨time, hkey⟩ := hobject
  have hclaim := MemoryStore.claim_of_free hslot hkey hfree
  have hne : slot.text ≠ source.text := by
    intro heq
    rw [← heq, hfree.1] at hkey
    cases hkey
  refine ⟨memory ⟨(s.objects.erase source.text).insert slot.text ⟨content, time⟩⟩,
    congrArg (fun r => (r.1, memory r.2)) hclaim, ⟨time, ?_⟩, ?_, trivial, ?_⟩
  · rw [SortedMap.get?_insert, if_pos rfl]
  · show ((s.objects.erase source.text).insert slot.text ⟨content, time⟩).get? source.text = none
    rw [SortedMap.get?_insert, if_neg hne, SortedMap.get?_erase, if_pos rfl]
  · rintro l d hnames ⟨time', hl⟩
    have hlsource : source.text ≠ l.text := fun h => hnames (Location.names_eq_of_text_eq h).symm
    have hlslot : slot.text ≠ l.text := by
      intro heq
      rw [← heq, hfree.1] at hl
      cases hl
    refine ⟨time', ?_⟩
    rw [SortedMap.get?_insert, if_neg hlslot, SortedMap.get?_erase, if_neg hlsource, hl]

lemma claim_of_free_disk {s : DiskStore} (h : s.Claimable source slot content) :
    ∃ after, ObjectStore.claim (disk s) source slot = (.ok (), after) ∧
      after.HasObject slot content ∧ after.Lacks source ∧ after.HasRoom slot ∧
      ∀ l d, l.names ≠ source.names → (disk s).HasObject l d → after.HasObject l d := by
  obtain ⟨host, hclaim, hbecomes⟩ := h.claim_ok
  have hc : s.Continues { s with host } := .of_becomes hbecomes
  have hkeepFolder : ∀ names, s.host.layout names = some .folder →
      host.layout names = some .folder := by
    intro names hfolder
    apply h.keeps hbecomes hfolder
    intro heq
    rw [heq, h.layout_source] at hfolder
    cases hfolder
  have hopen : DiskStore.IsOpen { s with host } :=
    hc.isOpen h.isOpen fun place _ => hkeepFolder place
  have hview : ∀ names, DiskStore.view { s with host } names = host.layout (s.base ++ names) := by
    intro names
    rw [DiskStore.view_of_isOpen hopen, hc.base]
  refine ⟨disk { s with host }, congrArg (fun r => (r.1, disk r.2)) hclaim, ?_, ?_, ?_, ?_⟩
  · show DiskStore.view { s with host } slot.names = some (.file content)
    rw [hview, hbecomes.layout, Layout.plant_self, Layout.ofFile_nil]
  · show host.layout (DiskStore.base { s with host } ++ source.names) = none
    rw [hc.base, hbecomes.layout, Layout.plant_elsewhere h.target_not_above,
      Layout.clear_below (List.prefix_refl _)]
  · show DiskStore.view { s with host } slot.names.dropLast = some .folder
    have hfolder := h.room
    rw [DiskStore.view_of_isOpen h.isOpen] at hfolder
    rw [hview, hkeepFolder _ hfolder]
  · intro l d hnames hl
    have hfile : s.view l.names = some (.file d) := hl
    rw [DiskStore.view_of_isOpen h.isOpen] at hfile
    show DiskStore.view { s with host } l.names = some (.file d)
    rw [hview, h.keeps hbecomes hfile fun heq => hnames (List.append_cancel_left heq)]

/-- A claim of a free place by an object that is there succeeds: the object moves, and all others
stay. -/
lemma claim_of_free (hwf : b.WellFormed) (hsource : b.Admits source) (hslot : b.Admits slot)
    (hobject : b.HasObject source content) (hfree : b.IsFree slot) (hroom : b.HasRoom slot) :
    ∃ after, ObjectStore.claim b source slot = (.ok (), after) ∧
      after.HasObject slot content ∧ after.Lacks source ∧ after.HasRoom slot ∧
      ∀ l d, l.names ≠ source.names → b.HasObject l d → after.HasObject l d := by
  cases b with
  | memory s => exact claim_of_free_memory hslot.isObject hobject hfree
  | disk s =>
    apply claim_of_free_disk
    exact ⟨hwf, hsource.isObject, hslot.isObject, hsource.onDisk s rfl, hslot.onDisk s rfl, hobject,
      DiskStore.view_of_layout_none hfree, hroom⟩

end Backend

end CommitStore
