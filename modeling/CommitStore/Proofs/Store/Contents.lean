import CommitStore.Proofs.Store.DiskEffect
import CommitStore.Proofs.Store.MemoryView

/-!
# The bytes under the locations of a store

To compare stores of different kinds only the bytes of their objects are looked at: which ones are
under which names, whether or not a store in a directory is open.  For both kinds this is
`content?`.  An operation that succeeds changes these bytes at its locations and nowhere else, and
in a directory it removes no directory as long as it moves none; `DiskStore.Evolves` has the two
together.
-/

namespace CommitStore

/-- The bytes of a file. -/
def Entry.content? : Entry → Option ByteArray
  | file content => some content
  | folder => none

lemma Entry.content?_eq_some_iff {entry : Entry} {content : ByteArray} :
    entry.content? = some content ↔ entry = .file content := by
  cases entry <;> simp [content?]

/-! ## In a directory -/

namespace DiskStore

variable {s s' : DiskStore} {l source target : Location} {content : ByteArray} {now : Instant}

/-- The bytes of the file under some names, whether or not the store is open. -/
def content? (s : DiskStore) (names : List String) : Option ByteArray :=
  (s.host.layout (s.base ++ names)).bind Entry.content?

lemma content?_eq_some_iff {names : List String} :
    s.content? names = some content ↔ s.host.layout (s.base ++ names) = some (.file content) := by
  rw [content?, Option.bind_eq_some_iff]
  simp [Entry.content?_eq_some_iff]

/-- The store goes on with the given bytes under its names, and every directory has stayed. -/
structure Evolves (s s' : DiskStore) (contents : List String → Option ByteArray) : Prop where
  continues : s.Continues s'
  folder : ∀ places, s.host.layout places = some .folder → s'.host.layout places = some .folder
  content? : ∀ names, s'.content? names = contents names

lemma Evolves.refl (s : DiskStore) : s.Evolves s s.content? := ⟨.refl s, fun _ => id, fun _ => rfl⟩

lemma Evolves.isOpen {contents : List String → Option ByteArray} (h : s.Evolves s' contents)
    (hopen : s.IsOpen) : s'.IsOpen :=
  h.continues.isOpen hopen fun place _ => h.folder place

lemma Evolves.trans {s'' : DiskStore} {contents contents' : List String → Option ByteArray}
    (h : s.Evolves s' contents) (h' : s'.Evolves s'' contents') : s.Evolves s'' contents' where
  continues := h.continues.trans h'.continues
  folder places hfolder := h'.folder places (h.folder places hfolder)
  content? := h'.content?

/-- New directories hold no bytes. -/
lemma evolves_of_grows {host : Host} {places : List (List String)}
    (hgrows : s.host.Grows host places) :
    s.Evolves { s with host } s.content? where
  continues := .of_grows hgrows
  folder _ := hgrows.layout_of_some
  content? names := by
    apply Option.ext
    intro content
    rw [content?_eq_some_iff, content?_eq_some_iff, (Continues.of_grows hgrows).base]
    exact hgrows.file_iff

/-- When the bytes under one path change and no directory is there, then they change under that path
only. -/
lemma evolves_of_update {host : Host} {changed : Option ByteArray}
    (hc : s.Continues { s with host })
    (hplace : s.host.layout (s.base ++ l.names) ≠ some .folder)
    (hlayout : ∀ names, host.layout names =
      if names = s.base ++ l.names then changed.map Entry.file else s.host.layout names) :
    s.Evolves { s with host }
      (fun names => if names = l.names then changed else s.content? names) where
  continues := hc
  folder names hfolder := by
    have hne : names ≠ s.base ++ l.names := by
      intro heq
      rw [heq] at hfolder
      exact hplace hfolder
    show host.layout names = some .folder
    rw [hlayout, if_neg hne, hfolder]
  content? names := by
    rw [content?, hc.base, hlayout]
    by_cases hnames : names = l.names
    · cases changed <;> simp [hnames, Entry.content?]
    · simp [hnames, content?]

/-- When something is looked for in the directory that should hold it, then that is there. -/
lemma room_of_place {found : List String × Option String} (hl : s.Admits l)
    (hplace : s.host.place (s.path l) = .ok found) : s.view l.names.dropLast = some .folder := by
  by_contra hroom
  obtain ⟨e, -, herror⟩ := place_path_error hl hroom
  rw [herror] at hplace
  cases hplace

lemma map_size_head (hl : s.Admits l) :
    (ObjectStore.head s l).map (·.size) = (ObjectStore.get s l).map (·.size) := by
  show (s.head l).map _ = (s.get l).map _
  rw [head_eq hl, get_eq hl]
  cases s.view l.names with
  | none => rfl
  | some entry => cases entry <;> rfl

lemma head_error_iff (hl : s.Admits l) {e : StoreError} :
    ObjectStore.head s l = .error e ↔ ObjectStore.get s l = .error e := by
  show s.head l = _ ↔ s.get l = _
  rw [head_eq hl, get_eq hl]
  cases s.view l.names with
  | none => simp
  | some entry => cases entry <;> simp

/-- A put that fails may have made directories. -/
lemma put_failed {e : StoreError} (h : (s.put l content now).1 = .error e) :
    s.Evolves (s.put l content now).2 s.content? := by
  rcases s.put_effect l content now with
    ⟨e', hput⟩ | ⟨-, -, mid, hgrows, ⟨e', hput⟩ | ⟨host, hput, -⟩⟩
  · rw [hput]
    exact .refl s
  · rw [hput]
    exact evolves_of_grows hgrows
  · rw [hput] at h
    cases h

/-- A put that succeeds opens the store and puts the bytes under the names of the location. -/
lemma put_evolves (hl : s.Admits l) (h : (s.put l content now).1 = .ok ()) :
    (s.put l content now).2.IsOpen ∧ s.Evolves (s.put l content now).2
      (fun names => if names = l.names then some content else s.content? names) := by
  rcases s.put_effect l content now with
    ⟨e, hput⟩ | ⟨-, -, mid, hgrows, ⟨e, hput⟩ | ⟨host, hput, hwrite, hfree, hbecomes⟩⟩
  · rw [hput] at h
    cases h
  · rw [hput] at h
    cases h
  have hmid : s.Evolves { s with host := mid } s.content? := evolves_of_grows hgrows
  obtain ⟨names, last, hplace, -⟩ := Host.exists_of_writeFile hwrite
  have hopen : IsOpen { s with host := mid } := by
    have hroom := room_of_place (hmid.continues.admits.mpr hl) hplace
    exact isOpen_of_view_eq hroom
  have hwritten : Evolves { s with host := mid } { s with host }
      (fun names => if names = l.names then some content else s.content? names) := by
    rw [← hmid.continues.base] at hfree hbecomes
    rw [← funext hmid.content?]
    apply evolves_of_update (s := { s with host := mid }) (.of_becomes hbecomes) hfree
    intro names
    rw [hbecomes.layout]
    exact Layout.plant_file (fun rest hrest => Host.layout_below hfree hrest) content
  rw [hput]
  exact ⟨hwritten.isOpen hopen, hmid.trans hwritten⟩

/-- An object can be deleted exactly when it is there. -/
lemma delete_ok_iff (hwf : s.host.tree.WellFormed) (hl : s.Admits l) :
    (s.delete l).1 = .ok () ↔ ∃ content, s.view l.names = some (.file content) := by
  constructor
  · intro h
    rcases delete_effect hwf l with ⟨e, hdelete⟩ | ⟨host, -, -, hremove, ⟨content, hfile⟩, -⟩
    · rw [hdelete] at h
      cases h
    obtain ⟨names, last, -, hplace, -⟩ := Host.exists_of_removeFile hremove
    exact ⟨content, by rw [view_of_isOpen (isOpen_of_view_eq (room_of_place hl hplace)), hfile]⟩
  · rintro ⟨content, hfile⟩
    have hresolves := resolves_path hl (view_dropLast hl (by simp [hfile]))
    rw [view_of_isOpen (isOpen_of_view_eq hfile), ← goal_path hl.no_parent] at hfile
    obtain ⟨removed, hremoved⟩ := Host.removeFile_of_resolves hresolves hfile
    simp [delete, resolve_eq hl.no_parent, hremoved, change, Except.mapError, bind, Except.bind]

/-- A delete that succeeds removes the bytes under the names of the location. -/
lemma delete_evolves (hwf : s.host.tree.WellFormed) (h : (s.delete l).1 = .ok ()) :
    s.Evolves (s.delete l).2 (fun names => if names = l.names then none else s.content? names) := by
  rcases delete_effect hwf l with ⟨e, hdelete⟩ | ⟨host, hdelete, -, -, ⟨content, hfile⟩, hbecomes⟩
  · rw [hdelete] at h
    cases h
  rw [hdelete]
  apply evolves_of_update (.of_becomes hbecomes) (by simp [hfile])
  intro names
  rw [hbecomes.layout]
  exact Layout.clear_file fun rest hrest => Host.layout_below (by simp [hfile]) hrest

/-- A file that moves takes its bytes along. -/
lemma evolves_of_move {host : Host}
    (hfile : s.host.layout (s.base ++ source.names) = some (.file content))
    (htarget : s.host.layout (s.base ++ target.names) ≠ some .folder)
    (hbecomes : s.host.Becomes host ((s.host.layout.clear (s.base ++ source.names)).plant
      (s.base ++ target.names) (.ofFile content))) :
    s.Evolves { s with host } (fun names => if names = target.names then some content
      else if names = source.names then none else s.content? names) := by
  have hclear : ∀ names, s.host.layout.clear (s.base ++ source.names) names =
      if names = s.base ++ source.names then none else s.host.layout names := fun names =>
    Layout.clear_file fun rest hrest => Host.layout_below (by simp [hfile]) hrest
  have hmoved : ∀ names, host.layout names = if names = s.base ++ target.names then
      some (.file content) else if names = s.base ++ source.names then none
      else s.host.layout names := by
    intro names
    rw [hbecomes.layout, Layout.plant_file fun rest hrest => ?_, hclear]
    rw [hclear]
    split
    · rfl
    · exact Host.layout_below htarget hrest
  have hc : s.Continues { s with host } := .of_becomes hbecomes
  refine ⟨hc, fun names hfolder => ?_, fun names => ?_⟩
  · have hsource : names ≠ s.base ++ source.names := by
      rintro rfl
      rw [hfile] at hfolder
      cases hfolder
    have htarget : names ≠ s.base ++ target.names := by
      rintro rfl
      exact htarget hfolder
    show host.layout names = some .folder
    rw [hmoved, if_neg htarget, if_neg hsource, hfolder]
  · rw [DiskStore.content?, hc.base, hmoved]
    by_cases htarget : names = target.names
    · simp [htarget, Entry.content?]
    · by_cases hsource : names = source.names
      · subst hsource
        simp [htarget]
      · simp [htarget, hsource, DiskStore.content?]

/-- A rename that succeeds moves the bytes of an object. -/
lemma rename_evolves (hwf : s.host.tree.WellFormed) (hsource : s.Admits source)
    (hkind : s.view source.names ≠ some .folder) (h : (s.rename source target).1 = .ok ()) :
    ∃ content, s.view source.names = some (.file content) ∧ s.Evolves (s.rename source target).2
      (fun names => if names = target.names then some content
        else if names = source.names then none else s.content? names) := by
  rcases rename_effect hwf source target with ⟨e, hrename⟩ | ⟨host, hrename, -, -, hmove, hmoves⟩
  · rw [hrename] at h
    cases h
  obtain ⟨names, last, -, -, -, hplace, -⟩ := Host.exists_of_move hmove
  have hopen : s.IsOpen := isOpen_of_view_eq (room_of_place hsource hplace)
  rw [view_of_isOpen hopen] at hkind ⊢
  rw [hrename]
  have hsome : s.host.layout (s.base ++ source.names) ≠ none := by
    rcases hmoves with ⟨-, hsome, -⟩ | ⟨hmovable, -⟩
    · exact hsome
    · exact hmovable.exists_source
  obtain ⟨entry, hentry⟩ := Option.ne_none_iff_exists'.mp hsome
  cases entry with
  | folder => exact absurd hentry hkind
  | file content =>
    refine ⟨content, hentry, ?_⟩
    rcases hmoves with ⟨hsame, -, rfl⟩ | ⟨hmovable, hbecomes⟩
    · refine ⟨.refl s, fun _ => id, fun names => ?_⟩
      have hnames : source.names = target.names := List.append_cancel_left hsame
      by_cases htarget : names = target.names
      · rw [if_pos htarget, htarget, ← hnames]
        exact content?_eq_some_iff.mpr hentry
      · rw [if_neg htarget, if_neg (hnames ▸ htarget)]
    · rw [Host.focus_of_file hentry] at hbecomes
      refine evolves_of_move hentry ?_ hbecomes
      rcases hmovable.target_kind with hnone | ⟨old, new, -, hnew⟩ | ⟨hfolder, -, -⟩
      · simp [hnone]
      · simp [hnew]
      · exact absurd hfolder hkind

/-- A claim that succeeds was one of a free place in a directory by an object. -/
lemma claimable_of_ok (hwf : s.host.tree.WellFormed) (hobject : source.isObject = true)
    (hsource : s.Admits source) (htarget : s.Admits target)
    (hkind : s.view source.names ≠ some .folder) (h : (s.claim source target).1 = .ok ()) :
    ∃ content, s.Claimable source target content := by
  rw [claim] at h
  split at h
  · rcases claimByLink_effect hwf source target with
      ⟨e, hclaim⟩ |
        ⟨host, linked, content, -, -, htargetObject, -, -, hlink, hfile, hfree, -⟩
    · rw [hclaim] at h
      cases h
    obtain ⟨-, -, names, last, -, hplace, -⟩ := Host.exists_of_link hlink
    have hroom := room_of_place htarget hplace
    have hopen : s.IsOpen := isOpen_of_view_eq hroom
    refine ⟨content, hwf, hobject, htargetObject, hsource, htarget, ?_, ?_, hroom⟩
    · rw [view_of_isOpen hopen, hfile]
    · rw [view_of_isOpen hopen, hfree]
  · rcases claimByCheck_effect (s := s) source target with
      ⟨e, hclaim⟩ | ⟨hclaim, htargetObject, l, hhead⟩
    · rw [hclaim] at h
      cases h
    rw [hclaim] at h
    obtain ⟨content, hfile, -⟩ := rename_evolves hwf hsource hkind h
    rcases rename_effect hwf source target with ⟨e, hrename⟩ | ⟨host, -, -, -, hmove, -⟩
    · rw [hrename] at h
      cases h
    obtain ⟨-, -, names, last, -, -, hplace, -⟩ := Host.exists_of_move hmove
    refine ⟨content, hwf, hobject, htargetObject, hsource, htarget, hfile, ?_,
      room_of_place htarget hplace⟩
    rw [head_eq htarget] at hhead
    cases hentry : s.view target.names with
    | none => rfl
    | some entry => cases entry <;> simp [hentry] at hhead

/-- A claim that succeeds moves the bytes of an object to a free place. -/
lemma Claimable.evolves (h : s.Claimable source target content) :
    s.Evolves (s.claim source target).2 (fun names => if names = target.names then some content
      else if names = source.names then none else s.content? names) := by
  obtain ⟨host, hclaim, hbecomes⟩ := h.claim_ok
  rw [hclaim]
  exact evolves_of_move h.layout_source (by simp [h.layout_target]) hbecomes

end DiskStore

/-! ## In memory -/

namespace MemoryStore

variable {s : MemoryStore} {l k source target : Location} {content : ByteArray}

/-- The bytes of the object at a location. -/
def content? (s : MemoryStore) (l : Location) : Option ByteArray :=
  (s.objects.get? l.text).map (·.content)

/-- Every key is the text of an object location. -/
def Keyed (s : MemoryStore) : Prop :=
  ∀ key, (s.objects.get? key).isSome → ∃ l : Location, l.isObject = true ∧ l.text = key

lemma content?_insert (object : StoredObject) (hl : l.isObject = true) (hk : k.isObject = true) :
    content? ⟨s.objects.insert l.text object⟩ k =
      if k.names = l.names then some object.content else s.content? k := by
  rw [content?, SortedMap.get?_insert]
  simp only [Location.text_eq_iff hl hk, eq_comm]
  split <;> rfl

lemma content?_erase (hl : l.isObject = true) (hk : k.isObject = true) :
    content? ⟨s.objects.erase l.text⟩ k = if k.names = l.names then none else s.content? k := by
  rw [content?, SortedMap.get?_erase]
  simp only [Location.text_eq_iff hl hk, eq_comm]
  split <;> rfl

lemma get_eq (hl : l.isObject = true) :
    ObjectStore.get s l = match s.content? l with
      | some content => .ok content
      | none =>
        match s.impliedDirectory? l with
        | some entry => .error (.isDirectory entry)
        | none => .error (.notFound l) := by
  show (s.find l).map (·.content) = _
  rw [find_eq (Location.isRoot_of_isObject hl), content?]
  cases s.objects.get? l.text with
  | some object => rfl
  | none => cases s.impliedDirectory? l <;> rfl

lemma map_size_head (s : MemoryStore) (l : Location) :
    (ObjectStore.head s l).map (·.size) = (ObjectStore.get s l).map (·.size) := by
  show ((s.find l).map _).map _ = ((s.find l).map _).map _
  cases s.find l <;> rfl

lemma head_error_iff {e : StoreError} :
    ObjectStore.head s l = .error e ↔ ObjectStore.get s l = .error e := by
  show (s.find l).map _ = _ ↔ (s.find l).map _ = _
  cases s.find l <;> simp [Except.map]

/-- An object can be put at every object location. -/
lemma put_eq (hl : l.isObject = true) (content : ByteArray) (now : Instant) :
    s.put l content now = (.ok (), ⟨s.objects.insert l.text ⟨content, now⟩⟩) := by
  rw [put, if_pos hl]

lemma delete_ok_iff : (s.delete l).1 = .ok () ↔ ∃ content, s.content? l = some content := by
  rw [delete, content?, SortedMap.contains_eq_isSome]
  cases s.objects.get? l.text <;> simp

lemma content?_delete (hl : l.isObject = true) (hk : k.isObject = true)
    (h : (s.delete l).1 = .ok ()) :
    (s.delete l).2.content? k = if k.names = l.names then none else s.content? k := by
  rw [delete] at h ⊢
  split at h
  · rename_i hkey
    rw [if_pos hkey]
    exact content?_erase hl hk
  · cases h

/-- An object can be moved onto every object location. -/
lemma moveOnto_ok (hsource : source.isObject = true) (htarget : target.isObject = true)
    (h : s.content? source = some content) :
    (s.moveOnto source target).1 = .ok () ∧
      ∀ k, k.isObject = true → (s.moveOnto source target).2.content? k =
        if k.names = target.names then some content
        else if k.names = source.names then none else s.content? k := by
  obtain ⟨object, hobject, rfl⟩ := Option.map_eq_some_iff.mp h
  rw [moveOnto, hobject]
  refine ⟨rfl, fun k hk => ?_⟩
  have herased : content? ⟨s.objects.erase source.text⟩ k = _ := content?_erase hsource hk
  have hmoved : content? ⟨(s.objects.erase source.text).insert target.text object⟩ k = _ :=
    content?_insert (s := ⟨s.objects.erase source.text⟩) object htarget hk
  rw [hmoved, herased]

end MemoryStore

end CommitStore
