import CommitStore.Proofs.Host.Making

/-!
# What keeps a path from a directory

Looking a path up fails in two ways that mean that nothing is there: something on the way is
missing, or the way leads through a file, which is `Host.MeetsFile`.  Which of them it is depends on
what comes first.  The host says `notDirectory` exactly when a file is met
(`Host.lookup_eq_notDirectory_iff`).
-/

namespace CommitStore

namespace Host

variable {h : Host} {p : HostPath} {names place components : List String}
variable {before after : List (List String)} {content : ByteArray} {e : HostError}

/-- A path is looked up by following it and seeing what is at its end. -/
lemma lookup_of_check (hcheck : p.check = .ok ()) : h.lookup p =
    (h.follow (h.start p) p.components).bind fun result =>
      match h.get? result with
      | some (.folder entries) => .ok (.folder entries)
      | some (.file content) =>
        if p.asksDirectory then .error .notDirectory else .ok (.file content)
      | none => .error .missing := by
  cases hfollow : h.follow (h.start p) p.components with
  | error e => simp [lookup, locate, hcheck, hfollow, bind, Except.bind, Except.map]
  | ok result =>
    cases hnode : h.get? result with
    | none => simp [lookup, locate, hcheck, hfollow, hnode, bind, Except.bind, Except.map]
    | some node =>
      cases node with
      | folder entries =>
        simp [lookup, locate, hcheck, hfollow, hnode, bind, Except.bind, Except.map]
      | file content =>
        cases hasks : p.asksDirectory <;>
          simp [lookup, locate, hcheck, hfollow, hnode, hasks, bind, Except.bind, Except.map]

/-- Within the limits of the host nothing is found where there is nothing, and no other reason is
given. -/
lemma lookup_error (hfits : p.Fits) (hlookup : h.lookup p = .error e) : e.IsAbsence := by
  by_cases hempty : p.text = ""
  · left
    simpa [lookup, locate, HostPath.check, hfits.1, hempty, bind, Except.bind,
      Except.map] using hlookup.symm
  · apply locate_error hfits hempty (p := p) (h := h)
    cases hlocate : h.locate p with
    | error e' => simpa [lookup, hlocate, Except.map] using hlookup
    | ok found => simp [lookup, hlocate, Except.map] at hlookup

lemma layout_start (hwf : h.WellFormed) (p : HostPath) : h.layout (h.start p) = some .folder := by
  unfold start
  split
  · exact Directory.layout_nil h.tree
  · exact layout_eq_folder_iff.mpr hwf.2

/-! ## Ways through directories -/

/-- A path that finds a directory leads through directories. -/
lemma allFolders_of_lookup {entries : Directory} (hlookup : h.lookup p = .ok (.folder entries)) :
    h.AllFolders (route (h.start p) p.components) := by
  cases hcheck : p.check with
  | error e => simp [lookup, locate, hcheck, bind, Except.bind, Except.map] at hlookup
  | ok _ =>
    rw [lookup_of_check hcheck] at hlookup
    cases hfollow : h.follow (h.start p) p.components with
    | error e => simp [hfollow, Except.bind] at hlookup
    | ok result =>
      refine folders_of_follow hfollow (layout_eq_folder_iff.mpr ⟨entries, ?_⟩)
      simp only [hfollow, Except.bind] at hlookup
      split at hlookup
      · rename_i hnode
        simpa [hnode] using hlookup
      · split at hlookup <;> cases hlookup
      · cases hlookup

lemma follow_ne_missing (hway : h.AllFolders (route names components)) :
    h.follow names components ≠ .error .missing := by
  induction components generalizing names with
  | nil => simp [follow]
  | cons c rest ih =>
    have hrest : h.AllFolders (route (turn names c) rest) := fun place hplace =>
      hway place (List.mem_cons_of_mem _ hplace)
    rcases follow_cons_of_folder (hway names (self_mem_route _ _)) c rest with ⟨-, hlong⟩ | hnext
    · simp [hlong]
    · rw [hnext, hrest _ (self_mem_route _ _), if_neg (by simp)]
      exact ih hrest

/-- What a path that leads through directories ends at is not missing, nor is it a file. -/
lemma lookup_ne_missing (hne : p.text ≠ "") (hway : h.AllFolders (route (h.start p) p.components)) :
    h.lookup p ≠ .error .missing ∧ ∀ content, h.lookup p ≠ .ok (.file content) := by
  cases hcheck : p.check with
  | error e =>
    have hmissing : e ≠ .missing := by
      rintro rfl
      simp only [HostPath.check, if_neg hne] at hcheck
      split at hcheck
      · cases hcheck
      · split at hcheck <;> cases hcheck
    simpa [lookup, locate, hcheck, bind, Except.bind, Except.map] using hmissing
  | ok _ =>
    rw [lookup_of_check hcheck]
    cases hfollow : h.follow (h.start p) p.components with
    | error e =>
      have hmissing := follow_ne_missing hway
      rw [hfollow] at hmissing
      simpa [Except.bind] using hmissing
    | ok result =>
      have hresult := hway _ (settle_mem_route _ _)
      rw [← follow_eq_settle hfollow] at hresult
      obtain ⟨entries, hentries⟩ := layout_eq_folder_iff.mp hresult
      simp [Except.bind, hentries]

/-! ## Ways that meet a file -/

/-- The way leads through directories to a file, and it is to go on from there or the file is asked
to be a directory. -/
def MeetsFile (h : Host) (p : HostPath) : Prop :=
  ∃ before place after content, route (h.start p) p.components = before ++ place :: after ∧
    (after ≠ [] ∨ p.asksDirectory = true) ∧ h.AllFolders before ∧
    h.layout place = some (.file content)

lemma exists_route_eq_cons (names components : List String) :
    ∃ after, route names components = names :: after := by
  cases components <;> exact ⟨_, rfl⟩

/-- The first file on a way is the end of it. -/
lemma follow_of_file (hshort : ∀ c ∈ components, isLongName c = false)
    (hroute : route names components = before ++ place :: after) (hbefore : h.AllFolders before)
    (hplace : h.layout place = some (.file content)) :
    h.follow names components = if after = [] then .ok place else .error .notDirectory := by
  induction components generalizing names before with
  | nil =>
    cases before with
    | nil =>
      obtain ⟨rfl, rfl⟩ : names = place ∧ [] = after := List.cons.inj hroute
      rfl
    | cons first before => simp [route] at hroute
  | cons c rest ih =>
    rw [route] at hroute
    cases before with
    | nil =>
      obtain ⟨rfl, rfl⟩ := List.cons.inj hroute
      have hafter : route (turn names c) rest ≠ [] := List.ne_nil_of_mem (self_mem_route _ _)
      rw [follow_cons, hplace, if_neg (by simp), if_neg hafter]
    | cons first before =>
      rw [List.cons_append] at hroute
      obtain ⟨rfl, hmore⟩ := List.cons.inj hroute
      have hrest : h.AllFolders before :=
        fun place hplace => hbefore place (List.mem_cons_of_mem _ hplace)
      -- The next place is a directory or the file.
      have hthere : h.layout (turn names c) ≠ none := by
        obtain ⟨tail, htail⟩ := exists_route_eq_cons (turn names c) rest
        rw [htail] at hmore
        cases before with
        | nil =>
          rw [(List.cons.inj hmore).1, hplace]
          simp
        | cons second before =>
          rw [(List.cons.inj hmore).1, hrest second List.mem_cons_self]
          simp
      rcases follow_cons_of_folder (hbefore names List.mem_cons_self) c rest with ⟨hlong, -⟩ | hnext
      · rw [hshort c List.mem_cons_self] at hlong
        cases hlong
      · rw [hnext, if_neg hthere]
        exact ih (fun n hn => hshort n (List.mem_cons_of_mem _ hn)) hmore hrest

/-- What stops a way because it is no directory is a file. -/
lemma exists_file_of_follow_notDirectory (hhere : h.layout names ≠ none)
    (hf : h.follow names components = .error .notDirectory) :
    ∃ before place after content, route names components = before ++ place :: after ∧ after ≠ [] ∧
      h.AllFolders before ∧ h.layout place = some (.file content) := by
  induction components generalizing names with
  | nil => cases hf
  | cons c rest ih =>
    cases hentry : h.layout names with
    | none => exact absurd hentry hhere
    | some entry =>
      cases entry with
      | file content =>
        exact ⟨[], names, _, content, rfl, List.ne_nil_of_mem (self_mem_route _ _),
          by simp [AllFolders], hentry⟩
      | folder =>
        rcases follow_cons_of_folder hentry c rest with ⟨-, hlong⟩ | hnext
        · rw [hlong] at hf
          cases hf
        · rw [hnext] at hf
          split at hf
          · cases hf
          · rename_i hthere
            obtain ⟨before, place, after, content, hroute, hafter, hbefore, hfile⟩ := ih hthere hf
            refine ⟨names :: before, place, after, content, by rw [route, hroute]; rfl, hafter,
              ?_, hfile⟩
            exact List.forall_mem_cons.mpr ⟨hentry, hbefore⟩

lemma exists_route_of_follow_file {result : List String}
    (hf : h.follow names components = .ok result) (hfile : h.layout result = some (.file content)) :
    ∃ before, route names components = before ++ [result] ∧ h.AllFolders before := by
  induction components generalizing names with
  | nil =>
    obtain rfl : names = result := Except.ok.inj hf
    exact ⟨[], rfl, by simp [AllFolders]⟩
  | cons c rest ih =>
    obtain ⟨hhere, hnext, -⟩ := follow_cons_ok hf
    obtain ⟨before, hroute, hbefore⟩ := ih hnext
    exact ⟨names :: before, by rw [route, hroute]; rfl, List.forall_mem_cons.mpr ⟨hhere, hbefore⟩⟩

/-- The empty path leads nowhere, so its way meets nothing. -/
lemma not_meetsFile_of_empty (hempty : p.text = "") : ¬ h.MeetsFile p := by
  rintro ⟨before, place, after, content, hroute, hon, -⟩
  have hone : before.length + (after.length + 1) = 1 := by
    simpa [HostPath.components, hempty, Text.splitAt, route] using congrArg List.length hroute.symm
  rcases hon with hafter | hasks
  · exact hafter (List.length_eq_zero_iff.mp (by omega))
  · simp [HostPath.asksDirectory, hempty] at hasks

lemma meetsFile_of_lookup (hcheck : p.check = .ok ()) (hstart : h.layout (h.start p) ≠ none)
    (hlookup : h.lookup p = .error .notDirectory) : h.MeetsFile p := by
  rw [lookup_of_check hcheck] at hlookup
  cases hfollow : h.follow (h.start p) p.components with
  | error e =>
    rw [hfollow] at hlookup
    obtain rfl : e = .notDirectory := Except.error.inj hlookup
    obtain ⟨before, place, after, content, hroute, hafter, hbefore, hfile⟩ :=
      exists_file_of_follow_notDirectory hstart hfollow
    exact ⟨before, place, after, content, hroute, .inl hafter, hbefore, hfile⟩
  | ok result =>
    simp only [hfollow, Except.bind] at hlookup
    split at hlookup
    · cases hlookup
    · rename_i content hnode
      have hfile := layout_eq_file_iff.mpr hnode
      obtain ⟨before, hroute, hbefore⟩ := exists_route_of_follow_file hfollow hfile
      split at hlookup
      · rename_i hasks
        exact ⟨before, result, [], content, hroute, .inr hasks, hbefore, hfile⟩
      · cases hlookup
    · cases hlookup

lemma lookup_of_meetsFile (hfits : p.Fits) (hne : p.text ≠ "") (hmeets : h.MeetsFile p) :
    h.lookup p = .error .notDirectory := by
  obtain ⟨before, place, after, content, hroute, hon, hbefore, hfile⟩ := hmeets
  rw [lookup_of_check (HostPath.check_eq_ok hfits hne),
    follow_of_file hfits.2.2 hroute hbefore hfile]
  split
  · rename_i hafter
    have hasks : p.asksDirectory = true := hon.resolve_left fun h => h hafter
    simp [Except.bind, layout_eq_file_iff.mp hfile, hasks]
  · rfl

/-- Within the limits, the host says `notDirectory` exactly when the way meets a file. -/
lemma lookup_eq_notDirectory_iff (hfits : p.Fits) (hstart : h.layout (h.start p) ≠ none) :
    h.lookup p = .error .notDirectory ↔ h.MeetsFile p := by
  by_cases hempty : p.text = ""
  · have hmissing : h.lookup p = .error .missing := by
      simp [lookup, locate, HostPath.check, hfits.1, hempty, bind, Except.bind, Except.map]
    rw [hmissing]
    simpa using not_meetsFile_of_empty hempty
  · exact ⟨meetsFile_of_lookup (HostPath.check_eq_ok hfits hempty) hstart,
      lookup_of_meetsFile hfits hempty⟩

end Host

end CommitStore
