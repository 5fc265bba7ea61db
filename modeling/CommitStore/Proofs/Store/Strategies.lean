import CommitStore.Proofs.Store.Contents
import CommitStore.Proofs.Store.Verdict

/-!
# The two ways to claim

Linking and then removing the source, and looking first and then moving, have the same effect on
objects: the claim succeeds when an object is at the source and its target is a free place in a
directory that is there, and then the same tree is left (`DiskStore.claim_adopt_ok_iff`).

The host treats directories differently, though.  It links none, but it moves one to every free
place that is not below it, which is `DiskStore.MovesFolder`.  This is the only difference.
-/

namespace CommitStore

namespace DiskStore

variable {s : DiskStore} {source target : Location} {content : ByteArray} {strategy : ClaimStrategy}

/-- The store with another way to claim. -/
def adopt (s : DiskStore) (strategy : ClaimStrategy) : DiskStore := { s with strategy }

/-- Both ways to claim succeed or fail, and leave the same tree. -/
structure ClaimsAlike (s : DiskStore) (source target : Location) : Prop where
  succeeds_iff : (ObjectStore.claim (s.adopt .hardLink) source target).1 = .ok () ↔
    (ObjectStore.claim (s.adopt .checkThenRename) source target).1 = .ok ()
  layout : (ObjectStore.claim (s.adopt .hardLink) source target).2.host.layout =
    (ObjectStore.claim (s.adopt .checkThenRename) source target).2.host.layout
  workingDirectory : (ObjectStore.claim (s.adopt .hardLink) source target).2.host.workingDirectory =
    (ObjectStore.claim (s.adopt .checkThenRename) source target).2.host.workingDirectory

/-- A directory is at the source, and the target is a free place in a directory that is there, and
not below the source. -/
structure MovesFolder (s : DiskStore) (source target : Location) : Prop where
  folder : s.view source.names = some .folder
  free : s.view target.names = none
  room : s.view target.names.dropLast = some .folder
  not_below : ¬ source.names <+: target.names

lemma Admits.adopt {l : Location} (h : s.Admits l) (strategy : ClaimStrategy) :
    (s.adopt strategy).Admits l :=
  ⟨h.not_root, h.no_parent, h.fits⟩

lemma Claimable.adopt (h : s.Claimable source target content) (strategy : ClaimStrategy) :
    (s.adopt strategy).Claimable source target content :=
  ⟨h.wellFormed, h.isObject_source, h.isObject_target, h.admits_source.adopt strategy,
    h.admits_target.adopt strategy, h.file, h.free, h.room⟩

lemma host_of_claim_ne_ok (h : (s.claim source target).1 ≠ .ok ()) :
    (s.claim source target).2.host = s.host := by
  cases hclaim : (s.claim source target).1 with
  | ok _ => exact absurd hclaim h
  | error e => rw [claim_of_error hclaim]

/-- Two claims that fail leave the same tree. -/
lemma claimsAlike_of_fail (hlink : ((s.adopt .hardLink).claim source target).1 ≠ .ok ())
    (hcheck : ((s.adopt .checkThenRename).claim source target).1 ≠ .ok ()) :
    s.ClaimsAlike source target := by
  have hlinkHost : ((s.adopt .hardLink).claim source target).2.host = s.host :=
    host_of_claim_ne_ok hlink
  have hcheckHost : ((s.adopt .checkThenRename).claim source target).2.host = s.host :=
    host_of_claim_ne_ok hcheck
  refine ⟨⟨fun h => absurd h hlink, fun h => absurd h hcheck⟩, ?_, ?_⟩
  · show ((s.adopt .hardLink).claim source target).2.host.layout = _
    rw [hlinkHost, ← hcheckHost]
    rfl
  · show ((s.adopt .hardLink).claim source target).2.host.workingDirectory = _
    rw [hlinkHost, ← hcheckHost]
    rfl

/-! ## Claiming what is no directory -/

/-- Whichever way it is made, a claim of what is no directory succeeds when there is an object and
its target is free. -/
lemma claim_adopt_ok_iff (hwf : s.host.tree.WellFormed) (hobject : source.isObject = true)
    (hsource : s.Admits source) (htarget : s.Admits target)
    (hkind : s.view source.names ≠ some .folder) (strategy : ClaimStrategy) :
    ((s.adopt strategy).claim source target).1 = .ok () ↔
      ∃ content, s.Claimable source target content := by
  constructor
  · intro hok
    obtain ⟨content, h⟩ :=
      claimable_of_ok (s := s.adopt strategy) hwf hobject (hsource.adopt strategy)
      (htarget.adopt strategy) hkind hok
    exact ⟨content, h.adopt s.strategy⟩
  · rintro ⟨content, h⟩
    obtain ⟨host, hclaim, -⟩ := (h.adopt strategy).claim_ok
    rw [hclaim]

/-- Whichever way it is made, a claim of what is no directory leaves the same tree. -/
lemma claimsAlike_of_ne_folder (hwf : s.host.tree.WellFormed) (hobject : source.isObject = true)
    (hsource : s.Admits source) (htarget : s.Admits target)
    (hkind : s.view source.names ≠ some .folder) : s.ClaimsAlike source target := by
  have hok := claim_adopt_ok_iff hwf hobject hsource htarget hkind
  by_cases hclaimable : ∃ content, s.Claimable source target content
  · obtain ⟨content, h⟩ := hclaimable
    obtain ⟨linked, hlink, hlinked⟩ := (h.adopt .hardLink).claim_ok
    obtain ⟨moved, hmove, hmoved⟩ := (h.adopt .checkThenRename).claim_ok
    refine ⟨(hok .hardLink).trans (hok .checkThenRename).symm, ?_, ?_⟩
    · show ((s.adopt .hardLink).claim source target).2.host.layout =
        ((s.adopt .checkThenRename).claim source target).2.host.layout
      rw [hlink, hmove]
      exact hlinked.layout.trans hmoved.layout.symm
    · show ((s.adopt .hardLink).claim source target).2.host.workingDirectory =
        ((s.adopt .checkThenRename).claim source target).2.host.workingDirectory
      rw [hlink, hmove]
      exact hlinked.workingDirectory.trans hmoved.workingDirectory.symm
  · exact claimsAlike_of_fail (fun h => hclaimable ((hok .hardLink).mp h))
      (fun h => hclaimable ((hok .checkThenRename).mp h))

/-! ## Claiming a directory -/

/-- A directory is not linked. -/
lemma claimByLink_ne_ok (hwf : s.host.tree.WellFormed)
    (hfolder : s.view source.names = some .folder) : (s.claimByLink source target).1 ≠ .ok () := by
  intro hok
  rcases claimByLink_effect hwf source target with
    ⟨e, hclaim⟩ | ⟨host, linked, content, -, -, -, -, -, -, hfile, -⟩
  · rw [hclaim] at hok
    cases hok
  · rw [view_of_isOpen (isOpen_of_view_eq hfolder), hfile] at hfolder
    cases hfolder

/-- A claim that looks first succeeds with a directory only where that can be moved. -/
lemma movesFolder_of_claimByCheck (hwf : s.host.tree.WellFormed) (htarget : s.Admits target)
    (hfolder : s.view source.names = some .folder)
    (hok : (s.claimByCheck source target).1 = .ok ()) : s.MovesFolder source target := by
  rcases claimByCheck_effect (s := s) source target with ⟨e, hclaim⟩ | ⟨hclaim, -, l, hhead⟩
  · rw [hclaim] at hok
    cases hok
  have hfree : s.view target.names = none := by
    rw [head_eq htarget] at hhead
    cases hentry : s.view target.names with
    | none => rfl
    | some entry => cases entry <;> simp [hentry] at hhead
  rw [hclaim] at hok
  rcases rename_effect hwf source target with ⟨e, hrename⟩ | ⟨host, -, -, -, hmove, hmoves⟩
  · rw [hrename] at hok
    cases hok
  obtain ⟨-, -, names, last, -, -, hplace, -⟩ := Host.exists_of_move hmove
  refine ⟨hfolder, hfree, room_of_place htarget hplace, fun hbelow => ?_⟩
  rcases hmoves with ⟨hsame, -, -⟩ | ⟨hmovable, -⟩
  · rw [List.append_cancel_left hsame, hfree] at hfolder
    cases hfolder
  · exact hmovable.source_not_above ((List.prefix_append_right_inj s.base).mpr hbelow)

namespace MovesFolder

lemma adopt (h : s.MovesFolder source target) (strategy : ClaimStrategy) :
    (s.adopt strategy).MovesFolder source target :=
  ⟨h.folder, h.free, h.room, h.not_below⟩

lemma isOpen (h : s.MovesFolder source target) : s.IsOpen := isOpen_of_view_eq h.folder

lemma layout_goal_source (h : s.MovesFolder source target) (hsource : s.Admits source) :
    s.host.layout (s.host.goal (s.path source)) = some .folder := by
  rw [goal_path hsource.no_parent, ← view_of_isOpen h.isOpen, h.folder]

lemma layout_goal_target (h : s.MovesFolder source target) (htarget : s.Admits target) :
    s.host.layout (s.host.goal (s.path target)) = none := by
  rw [goal_path htarget.no_parent, ← view_of_isOpen h.isOpen, h.free]

/-- The host does not permit a directory to be linked to a free place. -/
lemma claimByLink_eq (h : s.MovesFolder source target) (hobject : source.isObject = true)
    (htargetObject : target.isObject = true) (hsource : s.Admits source)
    (htarget : s.Admits target) :
    s.claimByLink source target = (.error (.hostFailed source), s) := by
  obtain ⟨node, hlocate, hentry⟩ := locate_of_view hsource (by simp [h.folder])
  cases node with
  | file content =>
    rw [h.folder] at hentry
    cases hentry
  | folder entries =>
    have hlink :=
      Host.link_of_folder (resolves_path htarget h.room) hlocate (h.layout_goal_target htarget)
    rw [claimByLink, resolveObject_eq hobject hsource.no_parent,
      resolveObject_eq htargetObject htarget.no_parent]
    simp [hlink, change, claimError, Except.mapError, bind, Except.bind]

/-- The host moves a directory to a free place that is not below it. -/
lemma claimByCheck_eq (h : s.MovesFolder source target) (hwf : s.host.tree.WellFormed)
    (htargetObject : target.isObject = true) (hsource : s.Admits source)
    (htarget : s.Admits target) :
    ∃ host, s.claimByCheck source target = (.ok (), { s with host }) ∧
      s.host.Becomes host ((s.host.layout.clear (s.base ++ source.names)).plant
        (s.base ++ target.names) (s.host.layout.focus (s.base ++ source.names))) := by
  have hbelow : ¬ s.host.goal (s.path source) <+: s.host.goal (s.path target) := by
    rw [goal_path hsource.no_parent, goal_path htarget.no_parent, List.prefix_append_right_inj]
    exact h.not_below
  obtain ⟨moved, hmoved⟩ := Host.move_of_folder
    (resolves_path hsource (view_dropLast hsource (by simp [h.folder])))
      (resolves_path htarget h.room)
    (h.layout_goal_source hsource) (h.layout_goal_target htarget) hbelow
  have hmove := Host.move_ok hwf hmoved
  rw [goal_path hsource.no_parent, goal_path htarget.no_parent] at hmove hbelow
  rcases hmove with ⟨hsame, -, -⟩ | ⟨-, hbecomes⟩
  · exact absurd (hsame ▸ List.prefix_refl _) hbelow
  have hhead : s.head target = .error (.notFound target) := by rw [head_eq htarget, h.free]
  refine ⟨moved, ?_, hbecomes⟩
  simp only [claimByCheck, resolveObject_eq htargetObject htarget.no_parent, hhead]
  rw [rename, resolve_eq hsource.no_parent, resolve_eq htarget.no_parent]
  simp [hmoved, change, Except.mapError, bind, Except.bind]

/-- What was below a directory that a claim has moved is now below the target. -/
lemma view_claim (h : s.MovesFolder source target) (hwf : s.host.tree.WellFormed)
    (hstrategy : s.strategy = .checkThenRename) (htargetObject : target.isObject = true)
    (hsource : s.Admits source) (htarget : s.Admits target)
    (hoffSource : ∀ place ∈ s.rootRoute, ¬ s.base ++ source.names <+: place)
    (hoffTarget : ∀ place ∈ s.rootRoute, ¬ s.base ++ target.names <+: place) (rest : List String) :
    (s.claim source target).2.view (target.names ++ rest) = s.view (source.names ++ rest) := by
  obtain ⟨host, hclaim, hbecomes⟩ := h.claimByCheck_eq hwf htargetObject hsource htarget
  have hcheck : s.claim source target = s.claimByCheck source target := by rw [claim, hstrategy]
  have hcontinues : s.Continues { s with host } := .of_becomes hbecomes
  have hopen : IsOpen { s with host } := by
    refine hcontinues.isOpen h.isOpen fun place hplace hfolder => ?_
    rw [hbecomes.layout, Layout.plant_elsewhere (hoffTarget place hplace),
      Layout.clear_elsewhere (hoffSource place hplace), hfolder]
  rw [hcheck, hclaim, view_of_isOpen hopen, view_of_isOpen h.isOpen, hcontinues.base,
    ← List.append_assoc, ← List.append_assoc, hbecomes.layout, Layout.plant_below, Layout.focus]

end MovesFolder

/-- Two claims of a directory fail alike, unless it can be moved. -/
lemma claimsAlike_of_folder (hwf : s.host.tree.WellFormed) (htarget : s.Admits target)
    (hfolder : s.view source.names = some .folder) (hnot : ¬ s.MovesFolder source target) :
    s.ClaimsAlike source target := by
  refine claimsAlike_of_fail (claimByLink_ne_ok (s := s.adopt .hardLink) hwf hfolder)
    fun hok => hnot ?_
  have hmoves : (s.adopt .checkThenRename).MovesFolder source target :=
    movesFolder_of_claimByCheck hwf (htarget.adopt _) hfolder hok
  exact hmoves.adopt s.strategy

/-- The two ways to claim succeed or fail alike and leave the same tree, unless a directory can be
moved. -/
theorem claimsAlike_iff_not_movesFolder (hwf : s.host.tree.WellFormed)
    (hobject : source.isObject = true) (htargetObject : target.isObject = true)
    (hsource : s.Admits source) (htarget : s.Admits target) :
    (s.ClaimsAlike source target ↔ ¬ s.MovesFolder source target) ∧
      (s.MovesFolder source target →
        ObjectStore.claim (s.adopt .hardLink) source target =
            (.error (.hostFailed source), s.adopt .hardLink) ∧
          ∃ host, ObjectStore.claim (s.adopt .checkThenRename) source target =
              (.ok (), { s.adopt .checkThenRename with host }) ∧
            s.host.Becomes host ((s.host.layout.clear (s.base ++ source.names)).plant
              (s.base ++ target.names) (s.host.layout.focus (s.base ++ source.names)))) := by
  have hmoves : s.MovesFolder source target → _ := fun h =>
    And.intro
      ((h.adopt .hardLink).claimByLink_eq hobject htargetObject (hsource.adopt _)
        (htarget.adopt _))
      ((h.adopt .checkThenRename).claimByCheck_eq hwf htargetObject (hsource.adopt _)
        (htarget.adopt _))
  refine ⟨⟨fun halike h => ?_, fun hnot => ?_⟩, hmoves⟩
  · obtain ⟨-, host, hcheck, -⟩ := hmoves h
    refine claimByLink_ne_ok (s := s.adopt .hardLink) hwf h.folder (halike.succeeds_iff.mpr ?_)
    exact congrArg Prod.fst hcheck
  · by_cases hfolder : s.view source.names = some .folder
    · exact claimsAlike_of_folder hwf htarget hfolder hnot
    · exact claimsAlike_of_ne_folder hwf hobject hsource htarget hfolder

/-- A store in the directory `t` with the object `d/x`. -/
def sampleOfFolder : DiskStore :=
  (ObjectStore.put (⟨.bare ["w"], ⟨"t"⟩, .hardLink, .epoch⟩ : DiskStore) (.ofText "d/x")
    ⟨#[1]⟩ .epoch).2

/-- The object is claimed alike, and its directory is not. -/
theorem sampleOfFolder_claimsAlike :
    sampleOfFolder.ClaimsAlike (.ofText "d/x") (.ofText "e") ∧
      ¬ sampleOfFolder.ClaimsAlike (.ofText "d") (.ofText "e") := by
  have hwf : sampleOfFolder.host.tree.WellFormed := by decide +kernel
  have hmoves : sampleOfFolder.MovesFolder (.ofText "d") (.ofText "e") :=
    ⟨by decide +kernel, by decide +kernel, by decide +kernel, by decide⟩
  constructor
  · refine (claimsAlike_iff_not_movesFolder hwf (by decide) (by decide) (by decide +kernel)
      (by decide +kernel)).1.mpr fun h => ?_
    exact absurd h.folder (by decide +kernel)
  · refine fun halike =>
      (claimsAlike_iff_not_movesFolder hwf (by decide) (by decide) (by decide +kernel)
      (by decide +kernel)).1.mp halike hmoves

/-- One way to claim refuses the directory, and the other moves it. -/
theorem claims_of_folder_differ :
    (Location.ofText "d").isObject = true ∧ (Location.ofText "e").isObject = true ∧
      sampleOfFolder.Admits (.ofText "d") ∧ sampleOfFolder.Admits (.ofText "e") ∧
      (ObjectStore.claim (sampleOfFolder.adopt .hardLink) (.ofText "d") (.ofText "e")).1 =
        .error (.hostFailed (.ofText "d")) ∧
      (ObjectStore.claim (sampleOfFolder.adopt .checkThenRename) (.ofText "d") (.ofText "e")).1 =
      .ok () := by
  decide +kernel

end DiskStore

end CommitStore
