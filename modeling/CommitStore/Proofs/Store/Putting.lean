import CommitStore.Proofs.Store.Presence

/-!
# Putting an object where there is room

In memory an object can be put everywhere.  In a directory no file may be on the way from where the
root path starts to the place of the object, and no directory in that place, which is
`Backend.HasWay`; then the missing directories are made and the object is written
(`Backend.put_ok`), and nothing changes beside it (`Backend.put_beside`).
-/

namespace CommitStore

namespace DiskStore

variable {s s' : DiskStore} {l : Location} {content : ByteArray}

/-- No file is on the way from where the root path starts to a location, and no directory at its
place. -/
structure HasWay (s : DiskStore) (l : Location) : Prop where
  start : s.host.layout (s.host.start s.root) = some .folder
  root : s.host.NoFile s.rootRoute
  above : ∀ front, front <+: l.names → front ≠ l.names → ∀ content,
    s.host.layout (s.base ++ front) ≠ some (.file content)
  place : s.host.layout (s.base ++ l.names) ≠ some .folder

lemma HasWay.steady (h : s.HasWay l) (hs : s.Steady s' l) : s'.HasWay l where
  start := by
    rw [hs.continues.start]
    exact (hs.keeps _ (.inl (self_mem_route _ _))).some h.start
  root place hplace content := by
    rw [hs.continues.rootRoute] at hplace
    exact (hs.keeps place (.inl hplace)).noFile (h.root place hplace) content
  above front hfront hne content := by
    rw [hs.continues.base]
    exact (hs.keeps _ (.inr ⟨front, hfront, rfl⟩)).noFile (h.above front hfront hne) content
  place := by
    rw [hs.continues.base, hs.place]
    exact h.place

lemma ne_of_prefix_dropLast {front names : List String} (hne : names ≠ [])
    (hfront : front <+: names.dropLast) : front ≠ names := by
  rintro rfl
  have hpos := List.length_pos_iff.mpr hne
  have := hfront.length_le
  rw [List.length_dropLast] at this
  omega

/-- The way to the directory of a location leads through the places of the root path and those of
the locations above. -/
lemma mem_route_above (hl : s.Admits l) {place : List String}
    (hplace : place ∈ route (s.host.start s.root) (s.root.components ++ l.names.dropLast)) :
    place ∈ s.rootRoute ∨ ∃ front, front <+: l.names ∧ front ≠ l.names ∧
      place = s.base ++ front := by
  have hnames : ∀ c ∈ l.names.dropLast, Directory.IsEntryName c := fun c hc =>
    Location.isEntryName_of_mem hl.no_parent c (List.dropLast_subset l.names hc)
  exact ((mem_route_names hnames).mp hplace).imp_right fun ⟨front, hfront, hsame⟩ =>
    ⟨front, hfront.trans (List.dropLast_prefix l.names),
      ne_of_prefix_dropLast hl.names_ne_nil hfront, hsame⟩

lemma HasWay.noFile (h : s.HasWay l) (hl : s.Admits l) :
    s.host.NoFile (route (s.host.start s.root) (s.root.components ++ l.names.dropLast)) := by
  intro place hplace
  rcases mem_route_above hl hplace with hroot | ⟨front, hfront, hne, rfl⟩
  · exact h.root place hroot
  · exact h.above front hfront hne

/-- With nothing in the way, the directories above a location are made, and then the location can be
used. -/
lemma HasWay.makeParents_ok (h : s.HasWay l) (hl : s.Admits l)
    (hoff : ∀ place ∈ s.rootRoute, ¬ s.base ++ l.names <+: place) :
    ∃ made, s.host.makeParents (s.path l) = (.ok (), made) ∧ s.Continues { s with host := made } ∧
      made.AllFolders s.rootRoute ∧ made.Resolves (s.path l) ∧
      made.layout (s.base ++ l.names) ≠ some .folder := by
  obtain ⟨front, last, hnames, hlast, -⟩ := exists_concat_names hl
  have hcomponents : (s.path l).components = (s.root.components ++ l.names.dropLast) ++ [last] := by
    rw [components_path, hnames, List.dropLast_concat, List.append_assoc]
  have hstart := h.start
  have hfree := h.noFile hl
  rw [← start_path s l] at hstart hfree
  obtain ⟨made, hmake, hall⟩ := Host.makeParents_ok hl.fits hcomponents hlast.2.1 hstart hfree
  have hgrows := s.host.grows_makeParents_front hcomponents hlast.2.1
  rw [hmake, start_path] at hgrows
  rw [start_path] at hall
  refine ⟨made, hmake, .of_grows hgrows,
    fun place hplace => hall place (mem_route_append.mpr (.inl hplace)), ?_, ?_⟩
  · refine Host.resolves_of_folders hl.fits hcomponents hlast
      (asksDirectory_path hl.names_ne_nil) ?_
    rw [hgrows.start, start_path]
    exact hall
  · rw [hgrows.layout_elsewhere fun hplace => ?_]
    · exact h.place
    rcases mem_route_above hl hplace with hroot | ⟨first, -, hne, heq⟩
    · exact hoff _ hroot (List.prefix_refl _)
    · exact hne (List.append_cancel_left heq).symm

/-- With nothing in the way, the directories above a location are made, and then the object is
written. -/
lemma HasWay.put_ok (h : s.HasWay l) (hl : s.Admits l) (hobject : l.isObject = true)
    (hoff : ∀ place ∈ s.rootRoute, ¬ s.base ++ l.names <+: place) (now : Instant) :
    ∃ host, s.put l content now = (.ok (), { s with host }) ∧
      view { s with host } l.names = some (.file content) := by
  obtain ⟨made, hmake, hmade, hall, hresolves, htarget⟩ := h.makeParents_ok hl hoff
  have hgoal : made.goal (s.path l) = s.base ++ l.names := by
    rw [← hmade.base]
    exact goal_path (s := { s with host := made }) hl.no_parent
  obtain ⟨host, hwrite⟩ := Host.writeFile_of_resolves hresolves content (by rwa [hgoal])
  have hbecomes := (Host.writeFile_ok hwrite).2
  rw [hgoal] at hbecomes
  have hc := hmade.becomes hbecomes
  have hopen : IsOpen { s with host } := by
    intro place hplace
    have hfolder := hall place (by rwa [← hc.rootRoute])
    rw [hbecomes.layout, Layout.plant_elsewhere (Host.not_prefix_of_folder htarget hfolder),
      hfolder]
  refine ⟨host, ?_, ?_⟩
  · rw [Host.makeParents] at hmake
    simp [put, resolveObject_eq hobject hl.no_parent, hmake, hwrite, change, Except.mapError]
  · rw [view_of_isOpen hopen, hc.base, hbecomes.layout, Layout.plant_self, Layout.ofFile_nil]

end DiskStore

namespace Backend

variable {b b' : Backend} {l : Location} {content : ByteArray}

/-- Nothing is in the way of an object at a location. -/
def HasWay (b : Backend) (l : Location) : Prop :=
  match b with
  | memory _ => True
  | disk s => s.HasWay l

/-- Nothing is in the store, and in a directory the root can be made. -/
def IsBlank (b : Backend) : Prop :=
  match b with
  | memory s => s = .empty
  | disk s => s.host.layout (s.host.start s.root) = some .folder ∧ s.host.NoFile s.rootRoute ∧
      ∀ names ≠ [], s.host.layout (s.base ++ names) = none

lemma IsBlank.isFree (h : b.IsBlank) (hl : l.names ≠ []) : b.IsFree l := by
  cases b with
  | memory s =>
    obtain rfl : s = .empty := h
    exact ⟨rfl, fun key hkey => by cases hkey⟩
  | disk s => exact h.2.2 l.names hl

lemma IsBlank.hasWay (h : b.IsBlank) (hl : l.names ≠ []) : b.HasWay l := by
  cases b with
  | memory s => trivial
  | disk s =>
    obtain ⟨hstart, hroot, hnone⟩ := h
    refine ⟨hstart, hroot, fun front _ _ content => ?_, by simp [hnone l.names hl]⟩
    by_cases hfront : front = []
    · rw [hfront, List.append_nil]
      exact hroot _ (settle_mem_route _ _) content
    · simp [hnone front hfront]

lemma HasWay.steady (h : b.HasWay l) (hs : b.Steady b' l) : b'.HasWay l := by
  cases b <;> cases b' <;> try contradiction
  · trivial
  · exact DiskStore.HasWay.steady h hs

/-- With nothing in the way, an object can be put, and is there afterwards. -/
lemma put_ok (h : b.HasWay l) (hl : b.Admits l) (hoff : ¬ b.LeadsThrough l) (now : Instant) :
    ∃ after, ObjectStore.put b l content now = (.ok (), after) ∧ after.HasObject l content := by
  cases b with
  | memory s =>
    have hput : s.put l content now = (.ok (), ⟨s.objects.insert l.text ⟨content, now⟩⟩) := by
      rw [MemoryStore.put, if_pos hl.isObject]
    refine ⟨memory ⟨s.objects.insert l.text ⟨content, now⟩⟩,
      congrArg (fun r => (r.1, memory r.2)) hput, now, ?_⟩
    rw [SortedMap.get?_insert, if_pos rfl]
  | disk s =>
    have hoff' : ∀ place ∈ s.rootRoute, ¬ s.base ++ l.names <+: place := fun place hplace hbelow =>
      hoff ⟨place, hplace, hbelow⟩
    obtain ⟨host, hput, hview⟩ :=
      DiskStore.HasWay.put_ok h (hl.onDisk s rfl) hl.isObject hoff' now
    exact ⟨disk { s with host }, congrArg (fun r => (r.1, disk r.2)) hput, hview⟩

/-- With nothing in the way an object can be put, and nothing changes beside it. -/
lemma put_beside {places : List Location} {now : Instant} (hwf : b.WellFormed) (hway : b.HasWay l)
    (hl : b.Admits l) (hspares : b.Spares (.put l content now) places)
    (hplaces : ∀ k ∈ places, k.names ≠ [] ∧ ¬ b.LeadsThrough k) :
    ((Operation.put l content now).attempt b).2.HasObject l content ∧
      ∀ k ∈ places, b.Steady ((Operation.put l content now).attempt b).2 k := by
  refine ⟨?_, fun k hk => steady_attempt hwf hspares hk (hplaces k hk).1 (.inr (hplaces k hk).2)⟩
  obtain ⟨after, hput, hobject⟩ := put_ok hway hl (hspares.root l (List.mem_singleton_self l)) now
  show (ObjectStore.put b l content now).2.HasObject l content
  rwa [hput]

end Backend

end CommitStore
