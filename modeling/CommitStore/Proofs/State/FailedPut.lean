import CommitStore.Proofs.Host.Written
import CommitStore.Proofs.State.SlotFile

/-!
# What a failed put of a state leaves behind

Each step of putting a state into a file may fail.  The directories are made first, and then the
temporary file is created; when one of the two fails, nothing is left behind but directories.  From
then on the temporary file is there: the state is encoded into it, what is buffered is flushed and
synced, and at last the file is moved over the target.  Behind each of these steps, should it fail,
stands the same clean-up, `StateFile.discard`.  It takes away a file whose name was free, and the
tree is then as it was before the file was created (`StateFile.takeSteps_error`).

So whatever fails, and whatever the path of the slot looks like, all files are as they were, and the
state that was in the slot is in it still: `StateFile.LosesNothing`.
-/

namespace CommitStore

namespace StateFile

variable {f : StateFile} {host : Host} {temporary target : HostPath} {state : CommitState}
  {e : StateError}

/-! ## The temporary file -/

lemma text_directory (f : StateFile) : f.directory.text ≠ "" := by
  unfold directory
  split
  · split
    · decide
    · assumption
  · decide

lemma goal_push_freshName (hwf : host.WellFormed) (p : HostPath) (taken : List String) :
    host.goal (host.absolute (p.push (freshName taken))) = host.goal p ++ [freshName taken] := by
  obtain ⟨n, hfresh, -, -⟩ := exists_freshName taken
  rw [hfresh, Host.goal_absolute (Host.isEntryName_of_start hwf.1 (Host.layout_start hwf _)),
    Host.goal, HostPath.components_push (isComponent_temporaryName n), settle_append,
    Host.start_eq_of_isAbsolute (HostPath.isAbsolute_push (isComponent_temporaryName n)),
    settle_cons, turn_of_isEntryName (isEntryName_temporaryName n)]
  rfl

/-- In a directory that was found nothing has the name of the temporary file. -/
lemma layout_freshName {p : HostPath} (hfolder : host.isFolder p = true) :
    host.layout (host.goal p ++ [freshName (namesIn host p)]) = none := by
  unfold Host.isFolder at hfolder
  split at hfolder
  · rename_i entries hlookup
    obtain ⟨⟨names, node⟩, hlocate, rfl⟩ := map_eq_ok hlookup
    obtain ⟨rfl, hnode⟩ := Host.locate_ok hlocate
    obtain ⟨n, hfresh, hfree, -⟩ := exists_freshName (namesIn host p)
    have hnames : namesIn host p = entries.names := by simp [namesIn, hlookup]
    rw [hnames] at hfresh hfree
    rw [hnames, hfresh, Host.layout, Directory.layout_append hnode, Directory.layout_cons,
      Directory.find?_eq_none_iff.mpr hfree]
    rfl
  · cases hfolder

/-- A step with others behind it leaves the temporary file where it is. -/
lemma Step.hasWritten {mid after : Host} {content : ByteArray} {step : Step}
    (h : host.HasWritten mid temporary content) (hstep : step ≠ .persist)
    (hrun : step.run temporary target state mid = .ok after) :
    ∃ content', host.HasWritten after temporary content' := by
  cases step with
  | encode =>
    obtain ⟨written, hwrite, hwritten⟩ := h.writeFile (write state)
    obtain rfl : written = after := Except.ok.inj (hwrite.symm.trans hrun)
    exact ⟨_, hwritten⟩
  | flush | sync =>
    obtain rfl : mid = after := Except.ok.inj hrun
    exact ⟨_, h⟩
  | persist => exact absurd rfl hstep

/-- The clean-up leaves nothing of a temporary file whose name was free. -/
lemma becomes_discard {mid : Host} {content : ByteArray} (h : host.HasWritten mid temporary content)
    (hwf : host.tree.WellFormed) (hfree : host.layout (host.goal temporary) = none) :
    host.Becomes (discard mid temporary) host.layout := by
  obtain ⟨removed, hremove, hbecomes⟩ := h.removeFile hwf hfree
  rwa [discard, hremove]

/-- Whichever step fails, the tree is as it was before the temporary file was created.  The
induction is on the steps that are left; as long as the temporary file is there, the clean-up behind
a failing step takes it away. -/
lemma takeSteps_error (hwf : host.tree.WellFormed)
    (hfree : host.layout (host.goal temporary) = none) {left : List Step}
    (hlast : .persist ∉ left.dropLast) {mid : Host} {content : ByteArray}
    (h : host.HasWritten mid temporary content)
    (herror : (takeSteps temporary target state left mid).1 = .error e) :
    e = .unwritable ∧ host.Becomes (takeSteps temporary target state left mid).2 host.layout := by
  induction left generalizing mid content with
  | nil => cases herror
  | cons step rest ih =>
    rw [takeSteps] at herror ⊢
    cases hrun : step.run temporary target state mid with
    | error failure =>
      rw [hrun] at herror
      exact ⟨(Except.error.inj herror).symm, becomes_discard h hwf hfree⟩
    | ok after =>
      rw [hrun] at herror
      cases rest with
      | nil => cases herror
      | cons next others =>
        rw [List.dropLast_cons_cons, List.mem_cons, not_or] at hlast
        obtain ⟨content', hafter⟩ := Step.hasWritten h (Ne.symm hlast.1) hrun
        exact ih hlast.2 hafter herror

/-- When the state cannot be put in the place of the target, the tree is as it was. -/
lemma replace_error (hwf : host.tree.WellFormed) (hfree : host.layout (host.goal temporary) = none)
    (herror : (replace host temporary target state).1 = .error e) :
    e = .unwritable ∧ host.Becomes (replace host temporary target state).2 host.layout := by
  rw [replace] at herror ⊢
  cases hcreate : host.writeFile temporary .empty with
  | error failure =>
    rw [hcreate] at herror
    exact ⟨(Except.error.inj herror).symm, .refl host⟩
  | ok created =>
    rw [hcreate] at herror
    exact takeSteps_error hwf hfree (by decide) (Host.hasWritten_of_writeFile hcreate) herror

/-! ## A put that fails -/

/-- What a put leaves behind that fails: the host has grown by directories on the way to that of the
slot. -/
lemma put_error (hwf : f.host.WellFormed) (herror : (f.put state).1 = .error e) :
    e = .unwritable ∧ ∃ host, (f.put state).2 = { f with host } ∧
      f.host.Grows host (route (f.host.start f.directory) f.directory.components) := by
  have hgrows := f.host.grows_makeDirectories f.directory
  have hfolder := Host.isFolder_of_makeDirectories (h := f.host) f.text_directory
  rw [put] at herror ⊢
  cases hmake : f.host.makeDirectories f.directory with
  | mk result mid =>
    rw [hmake] at herror hgrows hfolder
    cases result with
    | error failure => exact ⟨(Except.error.inj herror).symm, mid, rfl, hgrows⟩
    | ok =>
      have hmid := hgrows.host_wellFormed hwf
      have hfree := layout_freshName (hfolder rfl)
      rw [← goal_push_freshName hmid] at hfree
      simp only at herror ⊢
      generalize mid.absolute (f.directory.push (freshName (namesIn mid f.directory))) = temporary
        at hfree herror ⊢
      obtain ⟨hunwritable, hbecomes⟩ := replace_error hmid.1 hfree herror
      exact ⟨hunwritable, (replace mid temporary f.path state).2, rfl, hgrows.trans hbecomes.grows⟩

/-- The second file is the first one on a host on which nothing has changed but that there are new
directories on the way to the slot.  So there is no file that was not there before, in particular no
temporary one, every file has its bytes, and a state that was in the slot is there still. -/
structure LosesNothing (f f' : StateFile) : Prop where
  path : f'.path = f.path
  files : ∀ names content,
    f'.host.layout names = some (.file content) ↔ f.host.layout names = some (.file content)
  grows : f.host.Grows f'.host (route (f.host.start f.directory) f.directory.components)
  get : ∀ state, f.get = .ok state → f'.get = .ok state

lemma get_eq_ok_iff : f.get = .ok state ↔
    ∃ content, f.host.fileContent f.path = .ok content ∧ read content = .ok state := by
  unfold get
  split
  · rename_i content hread
    simp [hread]
  · rename_i hread
    simp [hread]
  · rename_i failure hread
    simp [hread]

/-- A put that fails says that the state could not be written, and loses nothing. -/
theorem failed_put_loses_nothing (hwf : f.host.WellFormed) (herror : (f.put state).1 = .error e) :
    e = .unwritable ∧ f.LosesNothing (f.put state).2 := by
  obtain ⟨hunwritable, host, hput, hgrows⟩ := put_error hwf herror
  rw [hput]
  refine ⟨hunwritable, rfl, fun names content => hgrows.file_iff, hgrows, fun before hget => ?_⟩
  obtain ⟨content, hread, hstate⟩ := get_eq_ok_iff.mp hget
  exact get_eq_ok_iff.mpr
    ⟨content, hgrows.fileContent (by simp [Host.layout_start hwf]) hread, hstate⟩

/-- A slot whose path leads back out of a directory, so that the last step of a put fails. -/
def blockedFile : StateFile := ⟨.bare ["w"], ⟨"d/.."⟩⟩

/-- The directory `d` is made, and the temporary file in it is written and removed. -/
theorem blockedFile_put_fails :
    (blockedFile.put ⟨.minValue⟩).1 = .error .unwritable ∧
      blockedFile.LosesNothing (blockedFile.put ⟨.minValue⟩).2 := by
  have herror : (blockedFile.put ⟨.minValue⟩).1 = .error .unwritable := by decide +kernel
  exact ⟨herror, (failed_put_loses_nothing ⟨by decide, .empty, by decide⟩ herror).2⟩

end StateFile

end CommitStore
