import CommitStore.Proofs.Host.Grown
import CommitStore.Proofs.State.SlotFile

/-!
# A slot in a file is a slot

A slot in a file goes through many steps to do what a slot in memory does at once: it makes
directories, writes a temporary file, moves it over the state file, and reads bytes back.  From the
outside none of this can be told.  Whatever is asked of the slot in `StateSlot.run`, and however
often it is opened anew on its path, the answers are those of one slot in memory, and the host has
changed by nothing but the new directories and the state file.

The relation behind this is `StateFile.Records`, which one use of the slot keeps
(`StateFile.Records.use`).  It begins with a `StateFile.Fresh` path whose temporary files are within
the limits of the host; that the path itself is within them does not suffice
(`StateFile.long_path_takes_no_state`).
-/

namespace CommitStore

/-! ## Using a slot -/

/-- What is done with a slot. -/
inductive SlotUse
  | get
  | put (state : CommitState)
  /-- The slot is dropped and opened anew on its path. -/
  | reopen

/-- What a slot answers. -/
inductive SlotAnswer
  | state (result : Except StateError CommitState)
  | done (result : Except StateError Unit)
  deriving DecidableEq

namespace StateSlot

/-- Open a slot in a file anew on its path.  A slot in memory has no path: it is kept as it is. -/
def reopen : StateSlot → Except StateError StateSlot
  | .memory state => .ok (.memory state)
  | .file slot => openChecked (.file slot.path) slot.host

/-- The answer to one use of a slot, and the slot after it. -/
def use (slot : StateSlot) : SlotUse → SlotAnswer × StateSlot
  | .get => (.state slot.get, slot)
  | .put state => (.done (slot.put state).1, (slot.put state).2)
  | .reopen =>
    match slot.reopen with
    | .ok opened => (.done (.ok ()), opened)
    | .error e => (.done (.error e), slot)

/-- The answers to some uses of a slot, one after the other, and the slot after them. -/
def run (slot : StateSlot) : List SlotUse → List SlotAnswer × StateSlot
  | [] => ([], slot)
  | u :: uses => ((slot.use u).1 :: ((slot.use u).2.run uses).1, ((slot.use u).2.run uses).2)

end StateSlot

/-- The state that was put last, `before` if none was. -/
def lastPut (before : Option CommitState) : List SlotUse → Option CommitState
  | [] => before
  | .put state :: uses => lastPut (some state) uses
  | _ :: uses => lastPut before uses

lemma StateSlot.run_memory (before : Option CommitState) (uses : List SlotUse) :
    ((StateSlot.memory before).run uses).2 = .memory (lastPut before uses) := by
  induction uses generalizing before with
  | nil => rfl
  | cons u uses ih => cases u <;> exact ih _

/-! ## Fresh paths -/

lemma HostPath.components_ne_nil {p : HostPath} (htext : p.text ≠ "")
    (hmark : p.asksDirectory = false) : p.components ≠ [] := by
  obtain ⟨c, hc⟩ : ∃ c, p.text.toList.getLast? = some c := by
    rw [← Option.isSome_iff_exists, List.getLast?_isSome]
    simpa using htext
  have hsep : c ≠ '/' := by
    rintro rfl
    simp [asksDirectory, hc] at hmark
  obtain ⟨word, hword, hmem⟩ := Text.exists_mem_splitAt (List.mem_of_getLast? hc) hsep
  have hcomponent : String.ofList word ∈ p.components :=
    List.mem_map_of_mem (List.mem_filter.mpr ⟨hword, by simpa using List.ne_nil_of_mem hmem⟩)
  exact List.ne_nil_of_mem hcomponent

namespace StateFile

variable {f f' : StateFile} {spare : Nat} {state : CommitState} {recorded : Option CommitState}

/-- A path at which a state file can be: it ends with a name, does not go through `.` or `..`, is
within the limits of the host, and no file is on its way.  The file itself is missing. -/
structure Fresh (f : StateFile) : Prop where
  host : f.host.WellFormed
  text : f.path.text ≠ ""
  plain : ∀ c ∈ f.path.components, c ≠ "." ∧ c ≠ ".."
  no_mark : f.path.asksDirectory = false
  fits : f.path.Fits
  no_file : f.host.NoFile f.way
  missing : f.host.layout f.place = none

namespace Fresh

variable (h : f.Fresh)
include h

lemma isEntryName : ∀ c ∈ f.path.components, Directory.IsEntryName c := fun c hc =>
  have hcomponent := HostPath.isComponent_of_mem hc
  ⟨hcomponent.1, (h.plain c hc).1, (h.plain c hc).2, hcomponent.2⟩

lemma named : f.Named where
  fits := h.fits
  last := by
    obtain ⟨before, last, hlast⟩ :=
      (List.eq_nil_or_concat f.path.components).resolve_left
        (HostPath.components_ne_nil h.text h.no_mark)
    rw [List.concat_eq_append] at hlast
    exact ⟨last, by simp [hlast], h.isEntryName last (by simp [hlast])⟩
  no_mark := h.no_mark

lemma isEntryName_front : ∀ c ∈ f.front, Directory.IsEntryName c := fun c hc =>
  h.isEntryName c (List.dropLast_subset _ hc)

/-- The way leads down to the directory of the file, without a turn. -/
lemma prefix_of_mem_way {names : List String} (hnames : names ∈ f.way) : names <+: f.folder := by
  obtain ⟨first, ⟨rest, hrest⟩, rfl⟩ := mem_route_iff.mp hnames
  have hfirst : ∀ c ∈ first, Directory.IsEntryName c := fun c hc =>
    h.isEntryName_front c (hrest ▸ List.mem_append_left rest hc)
  rw [folder, settle_of_isEntryName h.isEntryName_front, settle_of_isEntryName hfirst, ← hrest,
    ← List.append_assoc]
  exact List.prefix_append _ _

lemma off_way (name : String) : f.folder ++ [name] ∉ f.way := fun hmem => by
  have hle := (h.prefix_of_mem_way hmem).length_le
  rw [List.length_append, List.length_singleton] at hle
  omega

/-- A way whose last directory is there is there as a whole. -/
lemma allFolders_way (hfolder : f.host.layout f.folder = some .folder) :
    f.host.AllFolders f.way := by
  intro names hnames
  obtain ⟨rest, hrest⟩ := h.prefix_of_mem_way hnames
  by_cases hnil : rest = []
  · rw [hnil, List.append_nil] at hrest
    rw [hrest, hfolder]
  · exact Host.layout_of_append hnil (by simp [hrest, hfolder])

/-- A temporary name is left, and not many come before it. -/
lemma exists_spare (name : String) : ∃ spare, spare ≤ (namesIn f.host f.directory).length + 1 ∧
    temporaryName spare ≠ name ∧ f.host.layout (f.folder ++ [temporaryName spare]) = none := by
  obtain ⟨spare, -, hfree, hbefore⟩ := exists_freshName (name :: namesIn f.host f.directory)
  rw [List.mem_cons, not_or] at hfree
  refine ⟨spare, le_length_of_taken hbefore, hfree.1, ?_⟩
  by_cases hfolder : f.host.layout f.folder = some .folder
  · simpa using (mem_namesIn h.named rfl (h.allFolders_way hfolder) _).not.mp hfree.2
  · exact Host.layout_below hfolder (List.cons_ne_nil _ _)

/-- A state can be put at a fresh path if the temporary files are within the limits of the host
too. -/
lemma writable (htemporary : ∀ n ≤ (namesIn f.host f.directory).length + 1, (f.temporary n).Fits) :
    ∃ spare, f.Writable spare := by
  obtain ⟨name, -, -, hplace⟩ := h.named.concat
  obtain ⟨spare, hspare, hne, hfree⟩ := h.exists_spare name
  refine ⟨spare, h.named, h.host.1, Host.layout_start h.host f.path, h.no_file, ?_,
    by simp [h.missing], h.off_way _, ?_, hfree,
    fun n hn => htemporary n (Nat.le_trans hn hspare)⟩
  · rw [hplace]
    exact h.off_way name
  · rw [hplace]
    exact fun hsame => hne (List.cons.inj (List.append_cancel_left hsame)).1

end Fresh

/-! ## What a slot has recorded -/

/-- The second file is the first one with a state recorded in it.  The host has changed by nothing
but new directories on the way and the file itself, so no temporary file is left. -/
structure Records (f f' : StateFile) (recorded : Option CommitState) : Prop where
  path : f'.path = f.path
  workingDirectory : f'.host.workingDirectory = f.host.workingDirectory
  file : f'.host.layout f.place = recorded.map fun state => .file (write state)
  elsewhere : ∀ names ≠ f.place, f'.host.layout names = f.host.layout names ∨
    (names ∈ f.way ∧ f.host.layout names = none ∧ f'.host.layout names = some .folder)
  get : f'.get = recorded.elim (.error .empty) .ok

lemma Records.onHost (h : f.Records f' recorded) : f' = { f with host := f'.host } := by
  obtain ⟨host, path⟩ := f'
  obtain rfl : path = f.path := h.path
  rfl

lemma Fresh.records (h : f.Fresh) (hwritable : f.Writable spare) : f.Records f none where
  path := rfl
  workingDirectory := rfl
  file := h.missing
  elsewhere _ _ := .inl rfl
  get := by
    rcases get_cases hwritable with hempty | ⟨content, hfile, -⟩
    · exact hempty
    · rw [h.missing] at hfile
      cases hfile

/-- Putting a state records it. -/
lemma Records.put (h : f.Records f' recorded) (hwritable : f'.Writable spare)
    (state : CommitState) :
    (f'.put state).1 = .ok () ∧ f.Records (f'.put state).2 (some state) := by
  have hway : f'.way = f.way := by rw [h.onHost, way_onHost h.workingDirectory]
  have hplace : f'.place = f.place := by rw [h.onHost, place_onHost h.workingDirectory]
  have hget := (hwritable.put state).2
  obtain ⟨mid, host, hput, hgrows, -, hbecomes⟩ := put_ok hwritable state
  rw [hput] at hget ⊢
  have hfree : mid.layout f'.place ≠ some .folder := by
    rw [hgrows.layout_elsewhere hwritable.place_off_way]
    exact hwritable.no_folder
  have hlayout : ∀ names, host.layout names =
      if names = f.place then some (.file (write state)) else mid.layout names := fun names => by
    rw [hbecomes.layout, Layout.plant_file fun rest hrest => Host.layout_below hfree hrest, hplace]
  refine ⟨rfl, h.path,
    (hbecomes.workingDirectory.trans hgrows.workingDirectory).trans h.workingDirectory,
    ?_, fun names hne => ?_, hget⟩
  · rw [hlayout, if_pos rfl]
    rfl
  · show host.layout names = _ ∨ _ ∧ _ ∧ host.layout names = _
    rw [hlayout, if_neg hne]
    rcases h.elsewhere names hne with hsame | ⟨hmem, hnone, hfolder⟩
    · rw [← hsame, ← hway]
      rcases hgrows.layout names with hsame' | ⟨hnone, hfolder, hmem⟩
      · exact .inl hsame'
      · exact .inr ⟨hmem, hnone, hfolder⟩
    · exact .inr ⟨hmem, hnone, hgrows.layout_of_some hfolder⟩

/-- A path at which no directory is can be opened. -/
lemma reopen_eq (h : f.Writable spare) : (StateSlot.file f).reopen = .ok (.file f) := by
  obtain ⟨name, hcomponents, -, -⟩ := h.named.concat
  have hfile : f.host.isFolder f.path = false := by
    unfold Host.isFolder
    split
    · rename_i entries hlookup
      exact absurd (Host.allFolders_of_lookup hlookup _ (settle_mem_route _ _)) h.no_folder
    · rfl
  rw [StateSlot.reopen, StateSlot.openChecked,
    if_neg (by simp [HostPath.text_ne_empty_of_concat hcomponents, hfile])]

/-- Whatever is done with the slot, it answers like one in memory that holds the recorded state. -/
lemma Records.use (h : f.Records f' recorded) (hwritable : f'.Writable spare) (u : SlotUse) :
    ((StateSlot.file f').use u).1 = ((StateSlot.memory recorded).use u).1 ∧
      ∃ g, ((StateSlot.file f').use u).2 = .file g ∧ g.Writable spare ∧
        f.Records g (lastPut recorded [u]) := by
  cases u with
  | get => exact ⟨congrArg SlotAnswer.state h.get, f', rfl, hwritable, h⟩
  | put state =>
    obtain ⟨hput, hrecords⟩ := h.put hwritable state
    exact ⟨congrArg SlotAnswer.done hput, _, rfl, (hwritable.put state).1, hrecords⟩
  | reopen =>
    have hopen := reopen_eq hwritable
    refine ⟨?_, f', ?_, hwritable, h⟩
    · simp only [StateSlot.use, hopen]
      rfl
    · simp only [StateSlot.use, hopen]

lemma Records.run (h : f.Records f' recorded) (hwritable : f'.Writable spare)
    (uses : List SlotUse) :
    ((StateSlot.file f').run uses).1 = ((StateSlot.memory recorded).run uses).1 ∧
      ∃ g, ((StateSlot.file f').run uses).2 = .file g ∧ f.Records g (lastPut recorded uses) := by
  induction uses generalizing f' recorded with
  | nil => exact ⟨rfl, f', rfl, h⟩
  | cons u uses ih =>
    obtain ⟨hanswer, g, hslot, hwritable', hrecords⟩ := h.use hwritable u
    have hmemory : ((StateSlot.memory recorded).use u).2 = .memory (lastPut recorded [u]) := by
      cases u <;> rfl
    have hlast : lastPut recorded (u :: uses) = lastPut (lastPut recorded [u]) uses := by
      cases u <;> rfl
    obtain ⟨hanswers, g', hslot', hrecords'⟩ := ih hrecords hwritable'
    refine ⟨?_, g', ?_, hlast ▸ hrecords'⟩
    · simp only [StateSlot.run, hanswer, hslot, hanswers, hmemory]
    · simp only [StateSlot.run, hslot, hslot']

/-- A slot in a file answers as one slot in memory, whatever is put, however often it is read or
opened anew.  It holds the state that was put last, and leaves nothing else behind than the
directories on its way. -/
theorem run_eq_memory (h : f.Fresh)
    (htemporary : ∀ n ≤ (namesIn f.host f.directory).length + 1, (f.temporary n).Fits)
    (uses : List SlotUse) :
    ((StateSlot.file f).run uses).1 = ((StateSlot.memory none).run uses).1 ∧
      ((StateSlot.memory none).run uses).2 = .memory (lastPut none uses) ∧
      ∃ f', ((StateSlot.file f).run uses).2 = .file f' ∧ f.Records f' (lastPut none uses) := by
  obtain ⟨spare, hwritable⟩ := h.writable htemporary
  obtain ⟨hanswers, hafter⟩ := (h.records hwritable).run hwritable uses
  exact ⟨hanswers, StateSlot.run_memory none uses, hafter⟩

/-- The state file `s/state.json`, with nothing on the host yet. -/
def emptyFile : StateFile := ⟨.bare ["w"], ⟨"s/state.json"⟩⟩

lemma fresh_emptyFile : emptyFile.Fresh where
  host := ⟨by decide, .empty, by decide⟩
  text := by decide
  plain := by decide +kernel
  no_mark := by decide +kernel
  fits := by decide +kernel
  no_file := by
    have hway : emptyFile.way = [["w"], ["w", "s"]] := by decide +kernel
    have hfolder : emptyFile.host.layout ["w"] = some .folder := by decide +kernel
    have hnone : emptyFile.host.layout ["w", "s"] = none := Host.layout_bare ["w"] "s" []
    rw [hway]
    simp [Host.NoFile, hfolder, hnone]
  missing := by decide +kernel

/-- The smallest version is put, and read from the slot that was opened anew. -/
theorem emptyFile_run_eq_memory :
    ((StateSlot.file emptyFile).run [.get, .put ⟨.minValue⟩, .reopen, .get]).1 =
        [.state (.error .empty), .done (.ok ()), .done (.ok ()), .state (.ok ⟨.minValue⟩)] ∧
      ∃ f', ((StateSlot.file emptyFile).run [.get, .put ⟨.minValue⟩, .reopen, .get]).2 = .file f' ∧
        emptyFile.Records f' (some ⟨.minValue⟩) := by
  obtain ⟨hanswers, -, hafter⟩ :=
    run_eq_memory fresh_emptyFile (by decide +kernel) [.get, .put ⟨.minValue⟩, .reopen, .get]
  exact ⟨hanswers, hafter⟩

/-! ## A path that is just short enough -/

/-- A name of 185 bytes. -/
@[irreducible]
def longName : String := String.ofList (List.replicate 185 'd')

/-- The directory in which the state file will be, 4093 bytes long. -/
def deepDirectory : HostPath := (List.replicate 22 longName).foldl HostPath.push ⟨"d"⟩

/-- The state file `s` in this directory, with nothing on the host yet. -/
def deepFile : StateFile := ⟨.bare ["w"], deepDirectory.push "s"⟩

lemma longName_facts :
    longName.utf8ByteSize = 185 ∧ Directory.IsEntryName longName ∧ IsStorable longName := by
  unfold longName
  exact ⟨utf8ByteSize_replicate 185 (by decide),
    isEntryName_replicate (by decide) (by decide) (by decide),
    isStorable_replicate (by decide) (by decide) (by decide)⟩

lemma isComponent_of_mem_longNames :
    ∀ name ∈ List.replicate 22 longName, HostPath.IsComponent name :=
  fun name hname => by
    rw [List.eq_of_mem_replicate hname]
    exact ⟨longName_facts.2.1.1, longName_facts.2.1.2.2.2⟩

lemma isComponent_s : HostPath.IsComponent "s" := ⟨by decide, by decide⟩

lemma deepDirectory_eq_push : ∃ p, deepDirectory = HostPath.push p longName := by
  have hsplit : ∀ n, (List.replicate (n + 1) longName).foldl HostPath.push ⟨"d"⟩ =
      ((List.replicate n longName).foldl HostPath.push ⟨"d"⟩).push longName := fun n => by
    rw [List.replicate_succ', List.foldl_concat]
  exact ⟨_, hsplit 21⟩

lemma components_deepFile :
    deepFile.path.components = "d" :: List.replicate 22 longName ++ ["s"] := by
  have hfirst : (⟨"d"⟩ : HostPath).components = ["d"] := by decide
  rw [deepFile, HostPath.components_push isComponent_s, deepDirectory,
    HostPath.components_foldl_push isComponent_of_mem_longNames, hfirst]
  rfl

lemma of_mem_components_deepFile :
    ∀ c ∈ deepFile.path.components, Directory.IsEntryName c ∧ IsStorable c := by
  rw [components_deepFile]
  intro c hc
  rw [List.mem_append, List.mem_cons, List.mem_replicate, List.mem_singleton] at hc
  rcases hc with (rfl | ⟨-, rfl⟩) | rfl
  · decide
  · exact longName_facts.2
  · decide

lemma utf8ByteSize_deepDirectory : deepDirectory.text.utf8ByteSize = 4093 := by
  rw [deepDirectory,
    HostPath.utf8ByteSize_foldl_push isComponent_of_mem_longNames (by decide) (by decide),
    HostPath.pushedBytes_replicate, longName_facts.1]
  decide

lemma utf8ByteSize_push_deepDirectory (name : String) :
    (deepDirectory.push name).text.utf8ByteSize = 4094 + name.utf8ByteSize := by
  obtain ⟨p, hp⟩ := deepDirectory_eq_push
  have hcomponent := isComponent_of_mem_longNames longName (by simp)
  have hempty : deepDirectory.text ≠ "" := hp ▸ HostPath.text_push_ne_empty hcomponent
  have hmark : deepDirectory.asksDirectory = false := hp ▸ HostPath.asksDirectory_push hcomponent
  have hslash : "/".utf8ByteSize = 1 := rfl
  rw [HostPath.push, if_neg (by simp [hempty, hmark]), String.utf8ByteSize_append,
    String.utf8ByteSize_append, utf8ByteSize_deepDirectory, hslash]

lemma directory_deepFile : deepFile.directory = deepDirectory := by
  obtain ⟨p, hp⟩ := deepDirectory_eq_push
  have hcomponent := isComponent_of_mem_longNames longName (by simp)
  have hparent : deepFile.path.parent? = some deepDirectory := by
    rw [deepFile, hp]
    exact HostPath.parent?_push_push hcomponent longName_facts.2.1.2.1 isComponent_s (by decide)
  have hempty : deepDirectory.text ≠ "" := hp ▸ HostPath.text_push_ne_empty hcomponent
  rw [directory, hparent]
  exact if_neg hempty

/-- Nothing is below the working directory. -/
lemma layout_deepFile (name : String) (names : List String) :
    deepFile.host.layout (["w"] ++ name :: names) = none :=
  Host.layout_bare ["w"] name names

lemma fresh_deepFile : deepFile.Fresh := by
  have hstart : deepFile.host.start deepFile.path = ["w"] := by
    have habsolute : deepFile.path.isAbsolute = false := by
      rw [deepFile, HostPath.isAbsolute_push isComponent_s, deepDirectory,
        HostPath.isAbsolute_foldl_push isComponent_of_mem_longNames]
      decide
    rw [Host.start, habsolute]
    rfl
  have hnames := fun c hc => (of_mem_components_deepFile c hc).1
  refine ⟨⟨by decide, .empty, by decide⟩, HostPath.text_push_ne_empty isComponent_s,
    fun c hc => ⟨(hnames c hc).2.1, (hnames c hc).2.2.1⟩, HostPath.asksDirectory_push isComponent_s,
    HostPath.fits_iff.mpr ⟨?_, fun c hc => (of_mem_components_deepFile c hc).2⟩, ?_, ?_⟩
  · have hsize := utf8ByteSize_push_deepDirectory "s"
    rw [show "s".utf8ByteSize = 1 from rfl] at hsize
    rw [HostPath.isLong, deepFile, hsize]
    decide
  · intro place hplace content hfile
    rw [way, hstart] at hplace
    obtain ⟨first, hfirst, rfl⟩ := mem_route_iff.mp hplace
    rw [settle_of_isEntryName fun c hc =>
      hnames c (List.dropLast_subset _ (hfirst.subset hc))] at hfile
    cases first with
    | nil =>
      have hfolder : deepFile.host.layout ["w"] = some .folder := by decide
      rw [List.append_nil, hfolder] at hfile
      cases hfile
    | cons c rest =>
      rw [layout_deepFile] at hfile
      cases hfile
  · rw [place, Host.goal, hstart, settle_of_isEntryName hnames, components_deepFile]
    exact layout_deepFile "d" _

lemma put_of_isLong (hlong : ∀ (host : Host) (taken : List String),
    (host.absolute (f.directory.push (freshName taken))).isLong = true) (state : CommitState) :
    (f.put state).1 = .error .unwritable := by
  rw [put]
  cases f.host.makeDirectories f.directory with
  | mk result host =>
    cases result with
    | error e => rfl
    | ok =>
      obtain ⟨e, hwrite⟩ :=
        host.writeFile_of_isLong (hlong host (namesIn host f.directory)) .empty
      simp only [replace, hwrite]

lemma isLong_temporary_deepFile (host : Host) (taken : List String) :
    (host.absolute (deepFile.directory.push (freshName taken))).isLong = true := by
  have habsolute := host.utf8ByteSize_le_absolute (deepDirectory.push (freshName taken))
  have hname : 4 ≤ (freshName taken).utf8ByteSize := by
    have htmp : ".tmp".utf8ByteSize = 4 := rfl
    rw [freshName, temporaryName, String.utf8ByteSize_append, htmp]
    omega
  rw [utf8ByteSize_push_deepDirectory] at habsolute
  rw [directory_deepFile, HostPath.isLong, HostPath.limit, decide_eq_true_eq]
  omega

lemma fst_run_put_file (f : StateFile) (state : CommitState) :
    ((StateSlot.file f).run [.put state]).1 = [.done (f.put state).1] := rfl

/-- The path of the file is short enough, and no state can be put there: the path of every temporary
file in its directory is too long. -/
theorem long_path_takes_no_state : ∃ f : StateFile, f.Fresh ∧
    ((StateSlot.file f).run [.put ⟨0⟩]).1 ≠ ((StateSlot.memory none).run [.put ⟨0⟩]).1 := by
  refine ⟨deepFile, fresh_deepFile, ?_⟩
  rw [fst_run_put_file, put_of_isLong isLong_temporary_deepFile]
  simp [StateSlot.run, StateSlot.use, StateSlot.put]

end StateFile

end CommitStore
