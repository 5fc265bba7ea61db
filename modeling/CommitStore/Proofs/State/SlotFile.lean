import CommitStore.Proofs.Host.Absolute
import CommitStore.Proofs.Host.Written
import CommitStore.Proofs.State.ReadBack
import Mathlib.Data.List.Nodup
import Mathlib.Data.List.Perm.Subperm

/-!
# Putting a state into a file

A state is written to a temporary file, which is then moved over the state file.  When the way to
the state file can be made and a name for the temporary file is left, which is `StateFile.Writable`,
this succeeds, and nothing of it can be seen afterwards except the new directories and the state
file itself (`StateFile.put_ok`).  The state that was put is then the state in the slot.
-/

namespace CommitStore

namespace StateFile

/-! ## Temporary names -/

lemma temporaryName_injective : Function.Injective temporaryName := by
  intro m n h
  have hdigits : Text.zeroPadded 6 m = Text.zeroPadded 6 n := by
    simpa [temporaryName, ← String.toList_inj] using h
  rw [← Text.ofDecimal_zeroPadded 6 m, hdigits, Text.ofDecimal_zeroPadded]

lemma isEntryName_temporaryName (n : Nat) : Directory.IsEntryName (temporaryName n) := by
  have htext : (temporaryName n).toList = '.' :: 't' :: 'm' :: 'p' :: Text.zeroPadded 6 n := by
    simp [temporaryName]
  have hsep : '/' ∉ Text.zeroPadded 6 n := fun hmem => by
    simpa using Text.isDigit_of_mem_zeroPadded hmem
  refine ⟨?_, ?_, ?_, by simp [htext, hsep]⟩
  all_goals
    rw [Ne, ← String.toList_inj, htext]
    simp

/-- No more temporary names are taken than names are. -/
lemma le_length_of_taken {taken : List String} {n : Nat} (h : ∀ m < n, temporaryName m ∈ taken) :
    n ≤ taken.length := by
  have hall : (List.range n).map temporaryName ⊆ taken := by
    intro name hname
    obtain ⟨m, hm, rfl⟩ := List.mem_map.mp hname
    exact h m (List.mem_range.mp hm)
  have hnodup : ((List.range n).map temporaryName).Nodup :=
    List.Nodup.map temporaryName_injective List.nodup_range
  simpa using (List.subperm_of_subset hnodup hall).length_le

/-- A fresh name is the first temporary name that is not taken. -/
lemma exists_freshName (taken : List String) :
    ∃ n, freshName taken = temporaryName n ∧ temporaryName n ∉ taken ∧
      ∀ m < n, temporaryName m ∈ taken := by
  cases hfind : (List.range (taken.length + 1)).find? fun n =>
    !taken.contains (temporaryName n) with
  | some n =>
    obtain ⟨hfree, -, hbefore⟩ := List.find?_range_eq_some.mp hfind
    exact ⟨n, by rw [freshName, hfind]; rfl, by simpa using hfree,
      fun m hm => by simpa using hbefore m hm⟩
  | none =>
    -- There are more candidates than taken names.
    have hlength : taken.length + 1 ≤ taken.length :=
      le_length_of_taken fun n hn => by simpa using List.find?_range_eq_none.mp hfind n hn
    omega

/-! ## Places -/

variable {f : StateFile} {spare : Nat} {state : CommitState}

/-- The components of the path that lead to the directory of the file. -/
def front (f : StateFile) : List String := f.path.components.dropLast

/-- The places that the path leads through before it ends. -/
def way (f : StateFile) : List (List String) := route (f.host.start f.path) f.front

/-- The place of the directory of the file. -/
def folder (f : StateFile) : List String := settle (f.host.start f.path) f.front

/-- The place of the file. -/
def place (f : StateFile) : List String := f.host.goal f.path

/-- The path of a temporary file. -/
def temporary (f : StateFile) (n : Nat) : HostPath :=
  f.host.absolute (f.directory.push (temporaryName n))

/-- The path ends with a name within the limits of the host, without a separator behind it. -/
structure Named (f : StateFile) : Prop where
  fits : f.path.Fits
  last : ∃ name ∈ f.path.components.getLast?, Directory.IsEntryName name
  no_mark : f.path.asksDirectory = false

/-- A state can be put into the file: no file is on the way to it, no directory is in its place, and
one of the temporary names is left, so that the first one that is left is within the limits of the
host. -/
structure Writable (f : StateFile) (spare : Nat) : Prop where
  named : f.Named
  wellFormed : f.host.tree.WellFormed
  start : f.host.layout (f.host.start f.path) = some .folder
  no_file : f.host.NoFile f.way
  place_off_way : f.place ∉ f.way
  no_folder : f.host.layout f.place ≠ some .folder
  spare_off_way : f.folder ++ [temporaryName spare] ∉ f.way
  spare_ne_place : f.folder ++ [temporaryName spare] ≠ f.place
  spare_free : f.host.layout (f.folder ++ [temporaryName spare]) = none
  temporary_fits : ∀ n ≤ spare, (f.temporary n).Fits

lemma Named.concat (h : f.Named) : ∃ name, f.path.components = f.front ++ [name] ∧
    Directory.IsEntryName name ∧ f.place = f.folder ++ [name] := by
  obtain ⟨name, hlast, hname⟩ := h.last
  have hcomponents : f.path.components = f.front ++ [name] := by
    rw [front, List.dropLast_append_getLast?]
    exact hlast
  refine ⟨name, hcomponents, hname, ?_⟩
  rw [place, Host.goal, hcomponents, settle_append, folder]
  simp [turn_of_isEntryName hname]

/-! ## The directory of the file -/

/-- The directory of the file is written with segments that lead along the way. -/
lemma directory_cases (h : f.Named) :
    (f.front = [] ∧ f.path.isAbsolute = false ∧ f.path.ancestors = [⟨""⟩] ∧ f.directory = ⟨"."⟩) ∨
      ∃ first rest, f.directory = HostPath.ofSegments first rest ∧
        f.path.parent? = some f.directory ∧ f.front = HostPath.ofWords (first :: rest.reverse) ∧
        '/' ∉ first ∧ (∀ word ∈ rest, '/' ∉ word) ∧ f.path.isAbsolute = decide (first = []) := by
  obtain ⟨name, hcomponents, hname, -⟩ := h.concat
  rcases HostPath.ancestors_cases hcomponents hname.2.1 with
    ⟨hancestors, hfront, habsolute⟩ | ⟨first, rest, hancestors, hfront, hfirst, hrest, habsolute⟩
  · exact .inl ⟨hfront, habsolute, hancestors, by simp [directory, HostPath.parent?, hancestors]⟩
  · have hparent : f.path.parent? = some (HostPath.ofSegments first rest) := by
      simp [HostPath.parent?, hancestors]
    have hdirectory : f.directory = HostPath.ofSegments first rest := by
      simp [directory, hparent, Host.text_ofSegments_ne_empty]
    exact .inr ⟨first, rest, hdirectory, hdirectory ▸ hparent, hfront, hfirst, hrest, habsolute⟩

lemma components_dot : (⟨"."⟩ : HostPath).components = ["."] := by decide

lemma start_directory (h : f.Named) : f.host.start f.directory = f.host.start f.path := by
  refine Host.start_eq_of_isAbsolute ?_
  rcases directory_cases h with
    ⟨-, habsolute, -, hdirectory⟩ | ⟨first, rest, hdirectory, -, -, hfirst, -, habsolute⟩
  · rw [hdirectory, habsolute]
    decide
  · rw [hdirectory, habsolute, HostPath.isAbsolute_ofSegments hfirst]

/-- The path of the directory leads along the way. -/
lemma mem_route_directory (h : f.Named) {names : List String} :
    names ∈ route (f.host.start f.path) f.directory.components ↔ names ∈ f.way := by
  rw [way]
  rcases directory_cases h with
    ⟨hfront, -, -, hdirectory⟩ | ⟨first, rest, hdirectory, -, hfront, hfirst, hrest, -⟩
  · rw [hdirectory, hfront, components_dot]
    simp [route, turn]
  · rw [hdirectory, hfront, Host.mem_route_ofSegments hfirst hrest]

lemma settle_directory (h : f.Named) :
    settle (f.host.start f.path) f.directory.components = f.folder := by
  rw [folder]
  rcases directory_cases h with
    ⟨hfront, -, -, hdirectory⟩ | ⟨first, rest, hdirectory, -, hfront, hfirst, hrest, -⟩
  · rw [hdirectory, hfront, components_dot]
    simp [turn]
  · rw [hdirectory, hfront, HostPath.settle_components_ofSegments hfirst hrest]

lemma text_directory_ne_empty (h : f.Named) : f.directory.text ≠ "" := by
  rcases directory_cases h with ⟨-, -, -, hdirectory⟩ | ⟨first, rest, hdirectory, -⟩
  · simp [hdirectory]
  · rw [hdirectory]
    exact Host.text_ofSegments_ne_empty rest

lemma fits_directory (h : f.Named) : f.directory.Fits := by
  rcases directory_cases h with ⟨-, -, -, hdirectory⟩ | ⟨first, rest, -, hparent, -⟩
  · rw [hdirectory]
    decide
  · exact HostPath.fits_of_mem_ancestors h.fits (List.mem_of_mem_head? hparent)

/-- Making the directory of the file is making the directories above the path. -/
lemma makeDirectories_directory (h : f.Named)
    (hstart : f.host.layout (f.host.start f.path) = some .folder) :
    f.host.makeDirectories f.directory = f.host.makeParents f.path := by
  rcases directory_cases h with
    ⟨-, habsolute, hancestors, hdirectory⟩ | ⟨first, rest, -, hparent, -⟩
  · have hhere : f.host.start ⟨"."⟩ = f.host.start f.path :=
      Host.start_eq_of_isAbsolute (by rw [habsolute]; decide)
    have hfolder : f.host.isFolder ⟨"."⟩ = true := by
      refine Host.isFolder_of_allFolders (by decide) (by decide) fun place hplace => ?_
      rw [components_dot, hhere] at hplace
      obtain rfl : place = f.host.start f.path := by simpa [route, turn] using hplace
      exact hstart
    have hoccupied : f.host.makeDirectory ⟨"."⟩ = .error .occupied := by
      have hplace := Host.place_eq (h := f.host) (p := ⟨"."⟩) (by decide)
        (show (⟨"."⟩ : HostPath).components = [] ++ ["."] from components_dot)
      rw [Host.follow, hhere] at hplace
      simp [Host.makeDirectory, hplace, hstart, bind, Except.bind]
    rw [Host.makeParents_eq, hdirectory, if_neg (by simp [hancestors]), hancestors]
    simp [Host.makeDirectories, Host.makeChain, hoccupied, hfolder]
  · rw [Host.makeParents, hparent]
    rfl

/-- Once the way consists of directories, the names in the directory of the file are those of its
entries. -/
lemma mem_namesIn {mid : Host} (h : f.Named) (hcwd : mid.workingDirectory = f.host.workingDirectory)
    (hway : mid.AllFolders f.way) (name : String) :
    name ∈ namesIn mid f.directory ↔ mid.layout (f.folder ++ [name]) ≠ none := by
  have hstart : mid.start f.directory = f.host.start f.path := by
    rw [Host.start_of_workingDirectory hcwd, start_directory h]
  have hroute : mid.AllFolders (route (mid.start f.directory) f.directory.components) := by
    intro place hplace
    rw [hstart, mem_route_directory h] at hplace
    exact hway place hplace
  obtain ⟨entries, hlookup, hentries⟩ :=
    Host.lookup_of_allFolders (fits_directory h) (text_directory_ne_empty h) hroute
  have hchild : mid.layout (f.folder ++ [name]) = (entries.find? name).map Node.entry := by
    rw [Host.goal, hstart, settle_directory h] at hentries
    rw [Host.layout, Directory.layout_append hentries, Directory.layout_cons]
    cases entries.find? name <;> simp [Node.layout]
  rw [namesIn, hlookup, hchild, ← not_iff_not]
  simp [Directory.find?_eq_none_iff]

/-! ## The temporary file -/

lemma isEntryName_of_start (h : f.Writable spare) :
    ∀ name ∈ f.host.start f.path, Directory.IsEntryName name :=
  Host.isEntryName_of_start h.wellFormed h.start

lemma isComponent_temporaryName (n : Nat) : HostPath.IsComponent (temporaryName n) :=
  ⟨(isEntryName_temporaryName n).1, (isEntryName_temporaryName n).2.2.2⟩

/-- A temporary file is looked for from where the file is. -/
lemma start_push_temporaryName (h : f.Named) (n : Nat) :
    f.host.start (f.directory.push (temporaryName n)) = f.host.start f.path := by
  rw [← start_directory h]
  exact Host.start_eq_of_isAbsolute (HostPath.isAbsolute_push (isComponent_temporaryName n))

lemma components_temporary (h : f.Writable spare) (n : Nat) :
    (f.temporary n).components =
      (f.host.start f.path ++ f.directory.components) ++ [temporaryName n] := by
  have hstart := start_push_temporaryName h.named n
  have hnames := isEntryName_of_start h
  rw [← hstart] at hnames
  rw [temporary, Host.components_absolute hnames, hstart,
    HostPath.components_push (isComponent_temporaryName n), List.append_assoc]

lemma start_temporary (f : StateFile) (n : Nat) : f.host.start (f.temporary n) = [] :=
  Host.start_absolute _ _

/-- A temporary file stands beside the file. -/
lemma goal_temporary (h : f.Writable spare) (n : Nat) :
    f.host.goal (f.temporary n) = f.folder ++ [temporaryName n] := by
  have hstart := start_push_temporaryName h.named n
  have hnames := isEntryName_of_start h
  rw [← hstart] at hnames
  rw [temporary, Host.goal_absolute hnames, Host.goal, hstart,
    HostPath.components_push (isComponent_temporaryName n), settle_append, settle_directory h.named]
  simp [turn_of_isEntryName (isEntryName_temporaryName n)]

lemma asksDirectory_temporary (f : StateFile) (n : Nat) :
    (f.temporary n).asksDirectory = false := by
  have hname := isComponent_temporaryName n
  rw [temporary, Host.asksDirectory_absolute _ (HostPath.text_push_ne_empty hname),
    HostPath.asksDirectory_push hname]

/-! ## Putting a state -/

/-- With the way made, the first temporary name that is left can be written to. -/
lemma exists_temporary {mid : Host} (h : f.Writable spare) (hgrows : f.host.Grows mid f.way)
    (hway : mid.AllFolders f.way) :
    ∃ n, mid.absolute (f.directory.push (freshName (namesIn mid f.directory))) = f.temporary n ∧
      mid.layout (f.folder ++ [temporaryName n]) = none ∧ (f.temporary n).Fits := by
  obtain ⟨n, hfresh, hfree, hbefore⟩ := exists_freshName (namesIn mid f.directory)
  have hmem := mem_namesIn h.named hgrows.workingDirectory hway
  have hspare : mid.layout (f.folder ++ [temporaryName spare]) = none := by
    rw [hgrows.layout_elsewhere h.spare_off_way, h.spare_free]
  have hle : n ≤ spare := by
    by_contra hlater
    exact (hmem _).mp (hbefore spare (by omega)) hspare
  refine ⟨n, ?_, by simpa using (hmem _).not.mp hfree, h.temporary_fits n hle⟩
  rw [hfresh, temporary, Host.absolute, Host.absolute, hgrows.workingDirectory]

lemma resolves_temporary {mid : Host} {n : Nat} (h : f.Writable spare)
    (hcwd : mid.workingDirectory = f.host.workingDirectory) (hway : mid.AllFolders f.way)
    (hfits : (f.temporary n).Fits) : mid.Resolves (f.temporary n) := by
  have hstart := Host.start_of_workingDirectory hcwd
  refine Host.resolves_of_folders hfits (components_temporary h n) (isEntryName_temporaryName n)
    (asksDirectory_temporary f n) ?_
  have hnames : ∀ name ∈ mid.start f.path, Directory.IsEntryName name := by
    rw [hstart]
    exact isEntryName_of_start h
  rw [hstart, start_temporary, ← hstart f.path]
  refine Host.allFolders_absolute hnames fun place hplace => hway place ?_
  rwa [hstart, mem_route_directory h.named] at hplace

lemma resolves_path {mid : Host} (h : f.Named)
    (hcwd : mid.workingDirectory = f.host.workingDirectory) (hway : mid.AllFolders f.way) :
    mid.Resolves f.path := by
  obtain ⟨name, hcomponents, hname, -⟩ := h.concat
  have hstart := Host.start_of_workingDirectory hcwd f.path
  refine Host.resolves_of_folders h.fits hcomponents hname h.no_mark ?_
  rw [hstart]
  exact hway

/-- With the temporary file there the first three steps succeed, and what is left is to move it over
the file with the bytes of the state in it. -/
lemma takeSteps_steps {host created : Host} {temporary : HostPath} {content : ByteArray}
    (h : host.HasWritten created temporary content) (target : HostPath) (state : CommitState) :
    ∃ written, host.HasWritten written temporary (write state) ∧
      takeSteps temporary target state steps created =
        takeSteps temporary target state [.persist] written := by
  obtain ⟨written, hwrite, hwritten⟩ := h.writeFile (write state)
  exact ⟨written, hwritten, by simp [steps, takeSteps, Step.run, hwrite]⟩

/-- Writing a temporary file in a free place and moving it over the file changes the file only. -/
lemma replace_ok {mid : Host} {n : Nat} (h : f.Writable spare) (hgrows : f.host.Grows mid f.way)
    (hway : mid.AllFolders f.way) (hfree : mid.layout (f.folder ++ [temporaryName n]) = none)
    (hfits : (f.temporary n).Fits) (state : CommitState) :
    ∃ host, replace mid (f.temporary n) f.path state = (.ok (), host) ∧
      mid.Becomes host (mid.layout.plant f.place (.ofFile (write state))) := by
  have hgoal : mid.goal (f.temporary n) = f.folder ++ [temporaryName n] := by
    rw [hgrows.goal, goal_temporary h]
  have hplace : mid.goal f.path = f.place := hgrows.goal f.path
  obtain ⟨created, hcreate⟩ := Host.writeFile_of_resolves
    (resolves_temporary h hgrows.workingDirectory hway hfits) .empty (by simp [hgoal, hfree])
  obtain ⟨written, ⟨hresolves, hwritten⟩, hsteps⟩ :=
    takeSteps_steps (Host.hasWritten_of_writeFile hcreate) f.path state
  rw [hgoal] at hwritten
  have hwayWritten : written.AllFolders f.way := by
    intro place hmem
    have hsome : mid.layout place ≠ none := by simp [hway place hmem]
    rw [hwritten.layout, Layout.plant_elsewhere (Host.not_prefix_of_none hfree hsome),
      hway place hmem]
  have hcwd := hwritten.workingDirectory.trans hgrows.workingDirectory
  have hfile : written.layout (f.folder ++ [temporaryName n]) = some (.file (write state)) := by
    rw [hwritten.layout, Layout.plant_self, Layout.ofFile_nil]
  have htarget : written.layout f.place ≠ some .folder := by
    obtain ⟨name, -, -, hconcat⟩ := h.named.concat
    by_cases hsame : f.folder ++ [temporaryName n] = f.place
    · simp [← hsame, hfile]
    · have hnot : ¬ f.folder ++ [temporaryName n] <+: f.place := fun hbelow =>
        hsame (hbelow.eq_of_length (by simp [hconcat]))
      rw [hwritten.layout, Layout.plant_elsewhere hnot, hgrows.layout_elsewhere h.place_off_way]
      exact h.no_folder
  have hwf : written.tree.WellFormed := hwritten.wellFormed (hgrows.wellFormed h.wellFormed)
  obtain ⟨moved, hmove⟩ := Host.move_of_resolves hresolves
    (resolves_path h.named hcwd hwayWritten) (by rw [hwritten.goal, hgoal, hfile])
    (by rwa [hwritten.goal, hplace])
  refine ⟨moved, by simp [replace, hcreate, hsteps, takeSteps, Step.run, hmove], ?_⟩
  have hmoved := Host.move_ok hwf hmove
  rw [hwritten.goal, hwritten.goal, hgoal, hplace] at hmoved
  rcases hmoved with ⟨hsame, -, rfl⟩ | ⟨-, hmoved⟩
  · rwa [hsame] at hwritten
  · have hcleared := Host.clear_plant_of_none (.ofFile (write state)) hfree
    rw [Host.focus_of_file hfile, hwritten.layout, hcleared] at hmoved
    exact hwritten.trans hmoved

/-- Putting a state makes the directories on the way and changes nothing else but the file. -/
theorem put_ok (h : f.Writable spare) (state : CommitState) :
    ∃ mid host, f.put state = (.ok (), { f with host }) ∧ f.host.Grows mid f.way ∧
      mid.AllFolders f.way ∧
      mid.Becomes host (mid.layout.plant f.place (.ofFile (write state))) := by
  obtain ⟨name, hcomponents, hname, -⟩ := h.named.concat
  obtain ⟨mid, hmake, hway⟩ :=
    Host.makeParents_ok h.named.fits hcomponents hname.2.1 h.start h.no_file
  have hgrows := f.host.grows_makeParents_front hcomponents hname.2.1
  rw [hmake] at hgrows
  obtain ⟨n, htemporary, hfree, hfits⟩ := exists_temporary h hgrows hway
  obtain ⟨host, hreplace, hbecomes⟩ := replace_ok h hgrows hway hfree hfits state
  refine ⟨mid, host, ?_, hgrows, hway, hbecomes⟩
  rw [put, makeDirectories_directory h.named h.start, hmake]
  simp [htemporary, hreplace]

/-! ## Reading the slot -/

/-- A file that can be reached is read. -/
lemma get_of_allFolders {content : ByteArray} (h : f.Named) (hway : f.host.AllFolders f.way)
    (hfile : f.host.layout f.place = some (.file content)) : f.get = read content := by
  obtain ⟨name, hcomponents, hname, hplace⟩ := h.concat
  have hfollow : f.host.follow (f.host.start f.path) f.path.components = .ok f.place := by
    have hshort : ∀ c ∈ f.path.components, isLongName c = false := h.fits.2.2
    have hfront : f.host.follow (f.host.start f.path) f.front = .ok f.folder :=
      Host.follow_of_folders (fun c hc => hshort c (by simp [hcomponents, hc])) hway
    rw [hcomponents, Host.follow_append, hfront, hplace]
    exact Host.follow_names (by simpa using hname)
      (by simpa using hshort name (by simp [hcomponents])) (by simp [← hplace, hfile])
  have hlocate :=
    Host.locate_of_follow h.fits (HostPath.text_ne_empty_of_concat hcomponents) h.no_mark
    hfollow (Host.layout_eq_file_iff.mp hfile)
  simp [get, Host.fileContent, Host.lookup, hlocate, bind, Except.bind, Except.map]

/-- With no file on the way and no directory at its end, the slot is empty or holds what the file
says. -/
lemma get_cases (h : f.Writable spare) : f.get = .error .empty ∨
    ∃ content, f.host.layout f.place = some (.file content) ∧ f.get = read content := by
  obtain ⟨name, hcomponents, hname, hplace⟩ := h.named.concat
  have hshort : ∀ c ∈ f.front, isLongName c = false := fun c hc =>
    h.named.fits.2.2 c (by simp [hcomponents, hc])
  have hmissing : f.host.follow (f.host.start f.path) f.path.components = .error .missing →
      f.get = .error .empty := by
    intro hfollow
    have hcheck := HostPath.check_eq_ok h.named.fits (HostPath.text_ne_empty_of_concat hcomponents)
    simp [get, Host.fileContent, Host.lookup, Host.locate, hcheck, hfollow, bind, Except.bind,
      Except.map]
  cases hfollow : f.host.follow (f.host.start f.path) f.front with
  | error e =>
    obtain rfl := Host.follow_of_noFile hshort h.start h.no_file hfollow
    refine .inl (hmissing ?_)
    rw [hcomponents, Host.follow_append, hfollow]
    rfl
  | ok names =>
    obtain rfl := Host.follow_eq_settle hfollow
    have hhere : f.host.layout f.folder = some .folder :=
      h.no_file.folder (settle_mem_route _ _) (Host.follow_ne_none hfollow (by simp [h.start]))
    have hway : f.host.AllFolders f.way := Host.folders_of_follow hfollow hhere
    cases hentry : f.host.layout f.place with
    | none =>
      refine .inl (hmissing ?_)
      have hlong : isLongName name = false := h.named.fits.2.2 name (by simp [hcomponents])
      have hnone : f.host.layout (f.folder ++ [name]) = none := by rw [← hplace, hentry]
      rw [hcomponents, Host.follow_append, hfollow]
      simp only [Except.bind]
      rw [← folder, Host.follow_cons, if_pos hhere, if_neg hname.2.1, if_neg hname.2.2.1, hlong,
        if_neg (by simp), if_pos hnone]
    | some entry =>
      cases entry with
      | folder => exact absurd hentry h.no_folder
      | file content => exact .inr ⟨content, rfl, get_of_allFolders h.named hway hentry⟩

/-! ## The same file on another host -/

section OnHost

variable {host : Host}

lemma way_onHost (hcwd : host.workingDirectory = f.host.workingDirectory) :
    StateFile.way { f with host } = f.way := by
  simp [way, front, Host.start, hcwd]

lemma folder_onHost (hcwd : host.workingDirectory = f.host.workingDirectory) :
    StateFile.folder { f with host } = f.folder := by
  simp [folder, front, Host.start, hcwd]

lemma place_onHost (hcwd : host.workingDirectory = f.host.workingDirectory) :
    StateFile.place { f with host } = f.place := by
  simp [place, Host.goal, Host.start, hcwd]

lemma temporary_onHost (hcwd : host.workingDirectory = f.host.workingDirectory) (n : Nat) :
    StateFile.temporary { f with host } n = f.temporary n := by
  rw [temporary, temporary, Host.absolute, Host.absolute, hcwd]
  rfl

/-- A file stays writable as long as nothing but directories is new on the way, no directory is in
its place and the temporary name is left. -/
lemma Writable.of_keeps (h : f.Writable spare)
    (hcwd : host.workingDirectory = f.host.workingDirectory) (hwf : host.tree.WellFormed)
    (hway : ∀ names ∈ f.way, f.host.Keeps host names) (hplace : host.layout f.place ≠ some .folder)
    (hspare : host.layout (f.folder ++ [temporaryName spare]) = none) :
    StateFile.Writable { f with host } spare := by
  have hstart := Host.start_of_workingDirectory hcwd f.path
  constructor
  · exact ⟨h.named.fits, h.named.last, h.named.no_mark⟩
  · exact hwf
  · rw [hstart]
    exact (hway _ (self_mem_route _ _)).some h.start
  · intro names hnames content hfile
    rw [way_onHost hcwd] at hnames
    exact (hway names hnames).noFile (h.no_file names hnames) content hfile
  · rw [place_onHost hcwd, way_onHost hcwd]
    exact h.place_off_way
  · rw [place_onHost hcwd]
    exact hplace
  · rw [folder_onHost hcwd, way_onHost hcwd]
    exact h.spare_off_way
  · rw [folder_onHost hcwd, place_onHost hcwd]
    exact h.spare_ne_place
  · rw [folder_onHost hcwd]
    exact hspare
  · intro n hn
    rw [temporary_onHost hcwd]
    exact h.temporary_fits n hn

end OnHost

/-! ## After a state was put -/

/-- After a state was put, the file is writable still, and the state is in the slot. -/
lemma Writable.put (h : f.Writable spare) (state : CommitState) :
    (f.put state).2.Writable spare ∧ (f.put state).2.get = .ok state := by
  obtain ⟨mid, host, hput, hgrows, hway, hbecomes⟩ := put_ok h state
  rw [hput]
  have hcwd := hbecomes.workingDirectory.trans hgrows.workingDirectory
  have hplaceMid : mid.layout f.place ≠ some .folder := by
    rw [hgrows.layout_elsewhere h.place_off_way]
    exact h.no_folder
  have hfile : host.layout f.place = some (.file (write state)) := by
    rw [hbecomes.layout, Layout.plant_self, Layout.ofFile_nil]
  have hfolders : host.AllFolders f.way := fun names hnames => by
    rw [hbecomes.layout,
      Layout.plant_elsewhere (Host.not_prefix_of_folder hplaceMid (hway names hnames))]
    exact hway names hnames
  have hspare : ¬ f.place <+: f.folder ++ [temporaryName spare] := by
    obtain ⟨name, -, -, hconcat⟩ := h.named.concat
    exact fun hbelow => h.spare_ne_place (hbelow.eq_of_length (by simp [hconcat])).symm
  constructor
  · refine h.of_keeps hcwd (hbecomes.wellFormed (hgrows.wellFormed h.wellFormed))
      (fun names hnames => ?_) (by simp [hfile]) ?_
    · rcases hgrows.layout names with hsame | ⟨hnone, -, -⟩
      · exact .inl (by rw [← hsame, hway names hnames, hfolders names hnames])
      · exact .inr ⟨hnone, hfolders names hnames⟩
    · rw [hbecomes.layout, Layout.plant_elsewhere hspare, hgrows.layout_elsewhere h.spare_off_way,
        h.spare_free]
  · rw [← read_write state]
    refine get_of_allFolders ⟨h.named.fits, h.named.last, h.named.no_mark⟩ ?_ ?_
    · rw [way_onHost hcwd]
      exact hfolders
    · rw [place_onHost hcwd]
      exact hfile

theorem get_put (h : f.Writable spare) (state : CommitState) :
    (f.put state).1 = .ok () ∧ (f.put state).2.get = .ok state := by
  obtain ⟨mid, host, hput, -⟩ := put_ok h state
  exact ⟨by rw [hput], (h.put state).2⟩

end StateFile

end CommitStore
