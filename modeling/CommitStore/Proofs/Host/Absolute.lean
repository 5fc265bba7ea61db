import CommitStore.Proofs.Host.Making

/-!
# Paths written from the top

A path from the working directory and the same path written from the top lead through the same
directories, except that the second one first leads down to the working directory:
`Host.components_absolute` for the components, and `Host.allFolders_absolute` for the directories.
-/

namespace CommitStore

namespace HostPath

lemma components_ofNames {names : List String} (h : ∀ name ∈ names, IsComponent name) :
    (ofNames names).components = names := by
  have hsplit : Text.splitAt '/' (ofNames names).text.toList =
      [] :: Text.splitAt '/' (Text.joinWith '/' (names.map String.toList)) := by
    simp [ofNames, Text.splitAt]
  rw [components, hsplit]
  cases names with
  | nil => rfl
  | cons name names =>
    have hsep : ∀ word ∈ (name :: names).map String.toList, '/' ∉ word := by
      intro word hword
      obtain ⟨n, hn, rfl⟩ := List.mem_map.mp hword
      exact (h n hn).2
    have hne : ∀ word ∈ (name :: names).map String.toList, word ≠ [] := by
      intro word hword
      obtain ⟨n, hn, rfl⟩ := List.mem_map.mp hword
      simpa using (h n hn).1
    rw [Text.splitAt_joinWith (by simp) hsep, List.filter_cons_of_neg (by simp),
      List.filter_eq_self.mpr (by simpa using hne)]
    simp [Function.comp_def]

lemma isAbsolute_ofNames_push (names : List String) (text : String) :
    ((ofNames names).push text).isAbsolute = true := by
  unfold push
  split <;> simp [ofNames, isAbsolute]

lemma asksDirectory_push_text (p : HostPath) {text : String} (hne : text ≠ "") :
    (p.push text).asksDirectory = (⟨text⟩ : HostPath).asksDirectory := by
  obtain ⟨last, hlast⟩ : ∃ last, text.toList.getLast? = some last := by
    rw [← Option.isSome_iff_exists, List.getLast?_isSome]
    simpa using hne
  have hcons : ('/' :: text.toList).getLast? = some last := by
    rw [List.getLast?_cons, hlast]
    rfl
  unfold push
  split <;> simp [asksDirectory, hlast, hcons]

end HostPath

namespace Host

variable {h : Host} {p : HostPath}

lemma start_absolute (h : Host) (p : HostPath) : h.start (h.absolute p) = [] := by
  unfold absolute
  split
  · rename_i habsolute
    simp [start, habsolute]
  · simp [start, HostPath.isAbsolute_ofNames_push]

lemma isEntryName_of_start (hwf : h.tree.WellFormed)
    (hstart : h.layout (h.start p) = some .folder) :
    ∀ name ∈ h.start p, Directory.IsEntryName name :=
  Directory.isEntryName_of_layout hwf (by simp [show h.tree.layout (h.start p) = _ from hstart])

/-- A path that is written from the top leads down to where the path starts and then along its
components. -/
lemma components_absolute (hnames : ∀ name ∈ h.start p, Directory.IsEntryName name) :
    (h.absolute p).components = h.start p ++ p.components := by
  unfold absolute
  split
  · rename_i habsolute
    simp [start, habsolute]
  · rename_i habsolute
    have hstart : h.start p = h.workingDirectory := by simp [start, habsolute]
    rw [hstart] at hnames ⊢
    rw [HostPath.components_push_text, HostPath.components_ofNames fun name hname =>
      ⟨(hnames name hname).1, (hnames name hname).2.2.2⟩]

lemma asksDirectory_absolute (h : Host) (hne : p.text ≠ "") :
    (h.absolute p).asksDirectory = p.asksDirectory := by
  unfold absolute
  split
  · rfl
  · exact HostPath.asksDirectory_push_text _ hne

lemma goal_absolute (hnames : ∀ name ∈ h.start p, Directory.IsEntryName name) :
    h.goal (h.absolute p) = h.goal p := by
  rw [goal, start_absolute, components_absolute hnames, settle_append, settle_of_isEntryName hnames]
  rfl

/-- Above a directory there are only directories, so the way from the top consists of directories if
the way from the start does. -/
lemma allFolders_absolute {components : List String}
    (hnames : ∀ name ∈ h.start p, Directory.IsEntryName name)
    (hway : h.AllFolders (route (h.start p) components)) :
    h.AllFolders (route [] (h.start p ++ components)) := by
  intro place hplace
  have hstart := hway _ (self_mem_route _ _)
  rcases mem_route_append.mp hplace with hplace | hplace
  · obtain ⟨first, ⟨rest, hrest⟩, rfl⟩ := mem_route_iff.mp hplace
    rw [settle_of_isEntryName fun c hc => hnames c (hrest ▸ List.mem_append_left rest hc)]
    rw [← hrest] at hstart
    cases rest with
    | nil => simpa using hstart
    | cons c rest => exact layout_of_append (List.cons_ne_nil c rest) (by simp [hstart])
  · rw [settle_of_isEntryName hnames] at hplace
    exact hway place hplace

end Host

end CommitStore
