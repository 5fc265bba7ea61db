import CommitStore.Proofs.Host.Grown
import Mathlib.Data.List.Basic

/-!
# What was just written or made

An operation of the host that succeeds says something about the path it was given: the way to its
last name consists of directories.  So a file that was written can be written again, with nothing
left of what it held, and one that was written in a free place can be removed, and then the tree is
as it was before.  `Host.HasWritten` is what stays in between.  A directory that was made is found.
On a host that has grown by directories, what was read is read as before.
-/

namespace CommitStore

namespace Host

variable {h h' : Host} {p : HostPath} {names : List String} {last : String} {content : ByteArray}

/-! ## Writing and removing -/

/-- The way to a name in a directory that was found consists of directories. -/
lemma allFolders_of_place (hp : h.place p = .ok (names, some last)) :
    ∃ front, p.components = front ++ [last] ∧ h.AllFolders (route (h.start p) front) := by
  obtain ⟨-, -, hfolder⟩ := place_ok hp
  obtain ⟨-, -, hp⟩ := exists_of_bind_eq_ok hp
  split at hp
  · cases hp
  · rename_i last' hlast
    obtain ⟨front, hfollow, hp⟩ := exists_of_bind_eq_ok hp
    obtain ⟨rfl, rfl⟩ : front = names ∧ last' = last := by
      split at hp
      · split at hp
        · cases hp
        · split at hp
          · cases hp
          · simpa using hp
      · cases hp
    exact ⟨_, (List.dropLast_append_getLast? _ hlast).symm, folders_of_follow hfollow hfolder⟩

/-- A path under which a name was found resolves as long as the way to it consists of
directories. -/
lemma resolves_of_writeFile (hw : h.writeFile p content = .ok h') : h'.Resolves p := by
  obtain ⟨hnot, hbecomes⟩ := writeFile_ok hw
  obtain ⟨names, last, hplace, hmark, -⟩ := exists_of_writeFile hw
  obtain ⟨front, hcomponents, hway⟩ := allFolders_of_place hplace
  refine resolves_of_folders (fits_of_place hplace).1 hcomponents (place_ok hplace).1 hmark
    fun place hmem => ?_
  rw [hbecomes.start] at hmem
  rw [hbecomes.layout, Layout.plant_elsewhere (not_prefix_of_folder hnot (hway place hmem))]
  exact hway place hmem

/-- A file was written on the first host, which gave the second one: the file has the content, its
path resolves still, and nothing else has changed. -/
structure HasWritten (h h' : Host) (p : HostPath) (content : ByteArray) : Prop where
  resolves : h'.Resolves p
  becomes : h.Becomes h' (h.layout.plant (h.goal p) (.ofFile content))

lemma hasWritten_of_writeFile (hw : h.writeFile p content = .ok h') : h.HasWritten h' p content :=
  ⟨resolves_of_writeFile hw, (writeFile_ok hw).2⟩

namespace HasWritten

lemma layout_goal (h₁ : h.HasWritten h' p content) :
    h'.layout (h'.goal p) = some (.file content) := by
  rw [h₁.becomes.goal, h₁.becomes.layout, Layout.plant_self, Layout.ofFile_nil]

/-- A file that was written can be written again, with the same effect as if it had only been
written with the last content. -/
lemma writeFile (h₁ : h.HasWritten h' p content) (content' : ByteArray) :
    ∃ after, h'.writeFile p content' = .ok after ∧ h.HasWritten after p content' := by
  obtain ⟨after, hw⟩ := writeFile_of_resolves h₁.resolves content' (by simp [h₁.layout_goal])
  have h₂ := hasWritten_of_writeFile hw
  refine ⟨after, hw, h₂.resolves, ?_⟩
  have hbecomes := h₂.becomes
  rw [h₁.becomes.goal, h₁.becomes.layout, Layout.plant_plant] at hbecomes
  exact h₁.becomes.trans hbecomes

/-- What was written in a free place can be removed without a trace. -/
lemma removeFile (h₁ : h.HasWritten h' p content) (hwf : h.tree.WellFormed)
    (hfree : h.layout (h.goal p) = none) :
    ∃ removed, h'.removeFile p = .ok removed ∧ h.Becomes removed h.layout := by
  obtain ⟨removed, hremove⟩ := removeFile_of_resolves h₁.resolves h₁.layout_goal
  refine ⟨removed, hremove, ?_⟩
  have hcleared := (removeFile_ok (h₁.becomes.wellFormed hwf) hremove).2
  rw [h₁.becomes.goal, h₁.becomes.layout, clear_plant_of_none _ hfree] at hcleared
  exact h₁.becomes.trans hcleared

end HasWritten

/-! ## Directories that were made -/

lemma isFolder_of_makeDirectory (hm : h.makeDirectory p = .ok h') : h'.isFolder p = true := by
  obtain ⟨hfree, hbecomes⟩ := makeDirectory_ok hm
  obtain ⟨names, last, hplace, -⟩ := exists_of_makeDirectory hm
  obtain ⟨front, hcomponents, hway⟩ := allFolders_of_place hplace
  have hgoal : h.goal p = turn (settle (h.start p) front) last := by
    rw [goal, hcomponents, settle_append, settle_cons, settle_nil]
  refine isFolder_of_allFolders (fits_of_place hplace).1
    (HostPath.text_ne_empty_of_concat hcomponents) ?_
  rw [hbecomes.start, hcomponents]
  refine allFolders_concat (fun place hmem => ?_) ?_
  · rw [hbecomes.layout,
      Layout.plant_elsewhere (not_prefix_of_none hfree (by simp [hway place hmem]))]
    exact hway place hmem
  · rw [← hgoal, hbecomes.layout, Layout.plant_self, Layout.ofFolder_nil]

/-- A directory that was made is found. -/
lemma isFolder_of_makeDirectories (hne : p.text ≠ "") (hok : (h.makeDirectories p).1 = .ok ()) :
    (h.makeDirectories p).2.isFolder p = true := by
  rw [makeDirectories, makeChain, if_neg hne] at hok ⊢
  split at hok
  · rename_i made hmade
    exact isFolder_of_makeDirectory hmade
  · split at hok
    · cases hok
    · split at hok
      · rename_i made hmade
        exact isFolder_of_makeDirectory hmade
      · split at hok
        · rename_i hfolder
          rwa [if_pos hfolder]
        · cases hok
  · split at hok
    · rename_i hfolder
      rwa [if_pos hfolder]
    · cases hok

lemma grows_makeDirectories (h : Host) (p : HostPath) :
    h.Grows (h.makeDirectories p).2 (route (h.start p) p.components) := by
  refine (grows_makeChain h (p :: p.ancestors)).mono fun place hplace => ?_
  obtain ⟨q, hq, rfl⟩ := List.mem_map.mp hplace
  obtain ⟨hq, hne⟩ := List.mem_filter.mp hq
  rcases List.mem_cons.mp hq with rfl | hq
  · exact settle_mem_route _ _
  · exact h.goal_mem_route hq (by simpa using hne)

lemma Becomes.grows {places : List (List String)} (hb : h.Becomes h' h.layout) :
    h.Grows h' places :=
  ⟨hb.workingDirectory, hb.wellFormed, fun names => .inl (by rw [hb.layout])⟩

/-- A host that has grown by directories is as well-formed as it was. -/
lemma Grows.host_wellFormed {places : List (List String)} (hg : h.Grows h' places)
    (hwf : h.WellFormed) : h'.WellFormed := by
  refine ⟨hg.wellFormed hwf.1, ?_⟩
  rw [hg.workingDirectory]
  exact Directory.layout_eq_folder_iff.mp
    (hg.layout_of_some (Directory.layout_eq_folder_iff.mpr hwf.2))

lemma fileContent_eq_ok_iff : h.fileContent p = .ok content ↔ h.lookup p = .ok (.file content) := by
  cases hlookup : h.lookup p with
  | error e => simp [fileContent, hlookup, bind, Except.bind]
  | ok node => cases node <;> simp [fileContent, hlookup, bind, Except.bind]

/-- In a tree that has grown by directories every file that was read is read as before. -/
lemma Grows.fileContent {places : List (List String)} (hg : h.Grows h' places)
    (hstart : h.layout (h.start p) ≠ none) (hread : h.fileContent p = .ok content) :
    h'.fileContent p = .ok content := by
  rw [fileContent_eq_ok_iff] at hread ⊢
  rcases hg.lookup_cases (p := p) hstart with hsame | hmissing
  · rw [hread] at hsame
    cases hlookup : h'.lookup p with
    | error e => rw [hlookup] at hsame; cases hsame
    | ok node =>
      rw [hlookup] at hsame
      have hentry : node.entry = .file content := Except.ok.inj hsame
      cases node with
      | file content' => rw [Entry.file.inj hentry]
      | folder entries => cases hentry
  · rw [hread] at hmissing
    cases hmissing

end Host

end CommitStore
