import CommitStore.Proofs.Host.Resolution

/-!
# What the operations of the host change

Every operation of the host that succeeds changes the layout at one place, or moves what is at one
place to another, and the place is where its path leads, whatever the tree holds: `Host.goal`.

Each operation is opened once, for what its success says, in `Host.exists_of_writeFile` and its
like.  After that it has two statements, one for what has to stand where for it to succeed, within
the limits that `HostPath.Fits` names, and one for the layout that it leaves behind, in the form
`Host.Becomes`.  No later proof opens the operations again.
-/

namespace CommitStore

/-- A chain of steps succeeds when its first step does and the rest does with its outcome. -/
lemma exists_of_bind_eq_ok {ε α β : Type} {x : Except ε α} {f : α → Except ε β} {b : β}
    (h : x >>= f = .ok b) : ∃ a, x = .ok a ∧ f a = .ok b := by
  cases x with
  | error e => cases h
  | ok a => exact ⟨a, rfl, h⟩

lemma map_eq_ok {ε α β : Type} {f : α → β} {x : Except ε α} {b : β} (h : x.map f = .ok b) :
    ∃ a, x = .ok a ∧ f a = b := by
  cases x with
  | error e => cases h
  | ok a => exact ⟨a, rfl, Except.ok.inj h⟩

namespace HostPath

/-- A path is within the limits of the host: no NUL character, not too long, and without a name that
is too long. -/
def Fits (p : HostPath) : Prop :=
  p.hasNul = false ∧ p.isLong = false ∧ ∀ c ∈ p.components, isLongName c = false

instance (p : HostPath) : Decidable p.Fits := by unfold Fits; infer_instance

lemma check_eq_ok {p : HostPath} (hp : p.Fits) (hne : p.text ≠ "") : p.check = .ok () := by
  simp [check, hp.1, hp.2.1, hne]

lemma isComponent_of_mem {p : HostPath} {c : String} (h : c ∈ p.components) : IsComponent c := by
  simp only [components, List.mem_map, List.mem_filter] at h
  obtain ⟨word, ⟨hword, hne⟩, rfl⟩ := h
  refine ⟨by simpa using hne, ?_⟩
  simpa using Text.not_mem_of_mem_splitAt hword

end HostPath

namespace Host

variable {h h' : Host} {p source target : HostPath}

/-- Where a path leads, whatever the tree holds. -/
def goal (h : Host) (p : HostPath) : List String := settle (h.start p) p.components

/-- `h'` has the layout `l` and is otherwise like `h`: it has the same working directory, and its
tree is well-formed if that of `h` is. -/
structure Becomes (h h' : Host) (l : Layout) : Prop where
  workingDirectory : h'.workingDirectory = h.workingDirectory
  layout : h'.layout = l
  wellFormed : h.tree.WellFormed → h'.tree.WellFormed

lemma Becomes.refl (h : Host) : h.Becomes h h.layout := ⟨rfl, rfl, id⟩

lemma Becomes.trans {h₁ h₂ h₃ : Host} {l₂ l₃ : Layout} (h₁₂ : h₁.Becomes h₂ l₂)
    (h₂₃ : h₂.Becomes h₃ l₃) : h₁.Becomes h₃ l₃ :=
  ⟨h₂₃.workingDirectory.trans h₁₂.workingDirectory, h₂₃.layout,
    fun hwf => h₂₃.wellFormed (h₁₂.wellFormed hwf)⟩

lemma Becomes.start {l : Layout} (hb : h.Becomes h' l) (p : HostPath) : h'.start p = h.start p :=
  start_of_workingDirectory hb.workingDirectory p

lemma Becomes.goal {l : Layout} (hb : h.Becomes h' l) (p : HostPath) : h'.goal p = h.goal p := by
  simp [Host.goal, hb.start]

/-! ## One entry of a directory -/

lemma becomes_insert {place : List String} {name : String} {node : Node}
    (hname : Directory.IsEntryName name) (hnode : h.tree.WellFormed → node.WellFormed)
    (hplace : h.layout place = some .folder) :
    h.Becomes (h.alter (.insert name node) place)
      (h.layout.plant (place ++ [name]) node.layout) where
  workingDirectory := rfl
  layout := Directory.layout_alter_insert name node hplace
  wellFormed hwf :=
    Directory.wellFormed_alter (fun _ hd => Directory.wellFormed_insert hd hname (hnode hwf)) hwf _

lemma becomes_erase {place : List String} (hwf : h.tree.WellFormed) (name : String)
    (hplace : h.layout place = some .folder) :
    h.Becomes (h.alter (.erase name) place) (h.layout.clear (place ++ [name])) where
  workingDirectory := rfl
  layout := Directory.layout_alter_erase hwf name hplace
  wellFormed _ :=
    Directory.wellFormed_alter (fun _ hd => Directory.wellFormed_erase hd name) hwf _

/-! ## Resolving -/

/-- A path with a last name resolves to the directory that holds it. -/
lemma place_ok {names : List String} {last : String} (hp : h.place p = .ok (names, some last)) :
    Directory.IsEntryName last ∧ names ++ [last] = h.goal p ∧ h.layout names = some .folder := by
  obtain ⟨-, -, hp⟩ := exists_of_bind_eq_ok hp
  split at hp
  · cases hp
  · rename_i last' hlast
    obtain ⟨front, hfront, hp⟩ := exists_of_bind_eq_ok hp
    split at hp
    · rename_i entries hentries
      split at hp
      · cases hp
      · rename_i hdots
        split at hp
        · cases hp
        · obtain ⟨rfl, rfl⟩ : front = names ∧ last' = last := by simpa using hp
          obtain ⟨before, hbefore⟩ := List.getLast?_eq_some_iff.mp hlast
          have hmem : last' ∈ p.components := by simp [hbefore]
          obtain ⟨hne, hsep⟩ := HostPath.isComponent_of_mem hmem
          have hname : Directory.IsEntryName last' :=
            ⟨hne, fun hd => hdots (.inl hd), fun hd => hdots (.inr hd), hsep⟩
          refine ⟨hname, ?_, layout_eq_folder_iff.mpr ⟨entries, hentries⟩⟩
          rw [follow_eq_settle hfront, goal, hbefore, settle_append]
          simp [turn_of_isEntryName hname]
    · cases hp

lemma locate_ok {names : List String} {node : Node} (hl : h.locate p = .ok (names, node)) :
    names = h.goal p ∧ h.get? names = some node := by
  obtain ⟨-, -, hl⟩ := exists_of_bind_eq_ok hl
  obtain ⟨names', hfollow, hl⟩ := exists_of_bind_eq_ok hl
  split at hl
  · rename_i entries hentries
    obtain ⟨rfl, rfl⟩ : names' = names ∧ Node.folder entries = node := by simpa using hl
    exact ⟨follow_eq_settle hfollow, hentries⟩
  · rename_i content hcontent
    split at hl
    · cases hl
    · obtain ⟨rfl, rfl⟩ : names' = names ∧ Node.file content = node := by simpa using hl
      exact ⟨follow_eq_settle hfollow, hcontent⟩
  · cases hl

/-- Within the limits, a path that can be followed to something resolves to it. -/
lemma locate_of_follow {names : List String} {node : Node} (hfits : p.Fits) (hne : p.text ≠ "")
    (hasks : p.asksDirectory = false) (hfollow : h.follow (h.start p) p.components = .ok names)
    (hnode : h.get? names = some node) : h.locate p = .ok (names, node) := by
  cases node with
  | file content =>
    simp [locate, HostPath.check_eq_ok hfits hne, hfollow, hnode, hasks, bind, Except.bind]
  | folder entries =>
    simp [locate, HostPath.check_eq_ok hfits hne, hfollow, hnode, bind, Except.bind]

/-- Within the limits, a path fails to resolve only for what the tree holds. -/
lemma locate_error {e : HostError} (hfits : p.Fits) (hne : p.text ≠ "")
    (hl : h.locate p = .error e) : e.IsAbsence := by
  simp only [locate, HostPath.check_eq_ok hfits hne, bind, Except.bind] at hl
  split at hl
  · rename_i e' hfollow
    obtain rfl : e' = e := by simpa using hl
    exact follow_error hfits.2.2 hfollow
  · split at hl
    · cases hl
    · split at hl
      · exact .inr (by simpa using hl.symm)
      · cases hl
    · exact .inl (by simpa using hl.symm)

lemma place_eq {front : List String} {last : String} (hfits : p.Fits)
    (hcomponents : p.components = front ++ [last]) :
    h.place p = (h.follow (h.start p) front).bind fun names =>
      if h.layout names = some .folder then
        if last = "." ∨ last = ".." then .ok (names, none) else .ok (names, some last)
      else .error .notDirectory := by
  have hne : p.text ≠ "" := by
    intro hempty
    simp [HostPath.components, hempty, Text.splitAt] at hcomponents
  have hlong : isLongName last = false := hfits.2.2 last (by simp [hcomponents])
  simp only [place, HostPath.check_eq_ok hfits hne, hcomponents, List.getLast?_concat,
    List.dropLast_concat, bind, Except.bind]
  cases h.follow (h.start p) front with
  | error e => rfl
  | ok names =>
    cases hnode : h.get? names with
    | none => simp [hnode, layout_eq_none_iff.mpr hnode]
    | some node =>
      cases node with
      | file content => simp [hnode, layout_eq_file_iff.mpr hnode]
      | folder entries => simp [hnode, layout_eq_folder_iff.mpr ⟨entries, hnode⟩, hlong]

lemma place_of_folders {front : List String} {last : String} (hfits : p.Fits)
    (hcomponents : p.components = front ++ [last]) (hlast : Directory.IsEntryName last)
    (hroute : ∀ place ∈ route (h.start p) front, h.layout place = some .folder) :
    h.place p = .ok (settle (h.start p) front, some last) := by
  have hshort : ∀ c ∈ front, isLongName c = false := fun c hc =>
    hfits.2.2 c (by simp [hcomponents, hc])
  rw [place_eq hfits hcomponents, follow_of_folders hshort hroute]
  simp [Except.bind, hroute _ (settle_mem_route _ _), hlast.2.1, hlast.2.2.1]

lemma place_error {front : List String} {last : String} (hfits : p.Fits)
    (hcomponents : p.components = front ++ [last])
    (hroute : ¬ ∀ place ∈ route (h.start p) front, h.layout place = some .folder) :
    ∃ e : HostError, e.IsAbsence ∧ h.place p = .error e := by
  have hshort : ∀ c ∈ front, isLongName c = false := fun c hc =>
    hfits.2.2 c (by simp [hcomponents, hc])
  rw [place_eq hfits hcomponents]
  cases hfollow : h.follow (h.start p) front with
  | error e => exact ⟨e, follow_error hshort hfollow, rfl⟩
  | ok names =>
    have hnot : h.layout names ≠ some .folder := fun hfolder =>
      hroute (folders_of_follow hfollow hfolder)
    exact ⟨.notDirectory, .inr rfl, by simp [Except.bind, hnot]⟩

/-! ## What a success says

Each operation is opened once, to say all that has to be so for it to succeed, and the host it
leaves. -/

lemma exists_of_writeFile {content : ByteArray} (hw : h.writeFile p content = .ok h') :
    ∃ names last, h.place p = .ok (names, some last) ∧ p.asksDirectory = false ∧
      h.layout (names ++ [last]) ≠ some .folder ∧
      h' = h.alter (.insert last (.file content)) names := by
  obtain ⟨⟨names, last?⟩, hplace, hw⟩ := exists_of_bind_eq_ok hw
  cases last? with
  | none => cases hw
  | some last =>
    refine ⟨names, last, hplace, ?_⟩
    simp only at hw
    split at hw
    · cases hw
    rename_i hmark
    split at hw
    · cases hw
    rename_i hnot
    refine ⟨by simpa using hmark, fun hfolder => ?_, by simpa using hw.symm⟩
    obtain ⟨entries, hentries⟩ := layout_eq_folder_iff.mp hfolder
    exact hnot entries hentries

lemma exists_of_removeFile (hr : h.removeFile p = .ok h') :
    ∃ names last content, h.place p = .ok (names, some last) ∧
      h.layout (names ++ [last]) = some (.file content) ∧ h' = h.alter (.erase last) names := by
  obtain ⟨⟨names, last?⟩, hplace, hr⟩ := exists_of_bind_eq_ok hr
  cases last? with
  | none => cases hr
  | some last =>
    simp only at hr
    split at hr
    · cases hr
    · cases hr
    rename_i content hcontent
    split at hr
    · cases hr
    exact ⟨names, last, content, hplace, layout_eq_file_iff.mpr hcontent, by simpa using hr.symm⟩

lemma exists_of_makeDirectory (hm : h.makeDirectory p = .ok h') :
    ∃ names last, h.place p = .ok (names, some last) ∧ h.layout (names ++ [last]) = none ∧
      h' = h.alter (.insert last (.folder .empty)) names := by
  obtain ⟨⟨names, last?⟩, hplace, hm⟩ := exists_of_bind_eq_ok hm
  cases last? with
  | none => cases hm
  | some last =>
    simp only at hm
    split at hm
    · cases hm
    rename_i hnone
    exact ⟨names, last, hplace, layout_eq_none_iff.mpr hnone, by simpa using hm.symm⟩

lemma exists_of_link (hl : h.link source target = .ok h') :
    ∃ found content names last, h.locate source = .ok (found, .file content) ∧
      h.place target = .ok (names, some last) ∧ h.layout (names ++ [last]) = none ∧
      h' = h.alter (.insert last (.file content)) names := by
  unfold link at hl
  split at hl
  · cases hl
  obtain ⟨⟨found, node⟩, hlocate, hl⟩ := exists_of_bind_eq_ok hl
  simp only at hl
  obtain ⟨⟨names, last?⟩, hplace, hl⟩ := exists_of_bind_eq_ok hl
  cases last? with
  | none => cases hl
  | some last =>
    simp only at hl
    split at hl
    · cases hl
    rename_i hfree
    split at hl
    · cases hl
    cases node with
    | folder entries => cases hl
    | file content =>
      refine ⟨found, content, names, last, hlocate, hplace, ?_, by simpa using hl.symm⟩
      rw [layout_eq_none_iff]
      simpa using hfree

lemma exists_of_move (hm : h.move source target = .ok h') :
    ∃ names s names' t node, h.place source = .ok (names, some s) ∧
      h.place target = .ok (names', some t) ∧
      h.get? (names ++ [s]) = some node ∧
      (names ++ [s] = names' ++ [t] ∧ h' = h ∨
        names ++ [s] ≠ names' ++ [t] ∧ ¬ names ++ [s] <+: names' ∧ ¬ names' ++ [t] <+: names ∧
          replaces node (h.get? (names' ++ [t])) = .ok () ∧
          h' = (h.alter (.erase s) names).alter (.insert t node) names') := by
  obtain ⟨⟨names, s?⟩, hsource, hm⟩ := exists_of_bind_eq_ok hm
  obtain ⟨⟨names', t?⟩, htarget, hm⟩ := exists_of_bind_eq_ok hm
  cases s? with
  | none => cases hm
  | some s =>
    cases t? with
    | none => cases hm
    | some t =>
      simp only at hm
      split at hm
      · cases hm
      rename_i node hnode
      refine ⟨names, s, names', t, node, hsource, htarget, hnode, ?_⟩
      split at hm
      · cases hm
      split at hm
      · cases hm
      rename_i hinto
      split at hm
      · cases hm
      rename_i hover
      split at hm
      · rename_i hsame
        exact .inl ⟨hsame, by simpa using hm.symm⟩
      rename_i hdifferent
      obtain ⟨⟨⟩, hreplaces, hm⟩ := exists_of_bind_eq_ok hm
      exact .inr ⟨hdifferent, by simpa using hinto, by simpa using hover, hreplaces,
        (Except.ok.inj hm).symm⟩

/-! ## One path -/

/-- A file is written where no directory stands. -/
lemma writeFile_ok {content : ByteArray} (hw : h.writeFile p content = .ok h') :
    h.layout (h.goal p) ≠ some .folder ∧
      h.Becomes h' (h.layout.plant (h.goal p) (.ofFile content)) := by
  obtain ⟨names, last, hplace, -, hfree, rfl⟩ := exists_of_writeFile hw
  obtain ⟨hlast, hgoal, hfolder⟩ := place_ok hplace
  rw [← hgoal, ← Node.layout_file]
  exact ⟨hfree, becomes_insert hlast (fun _ => trivial) hfolder⟩

/-- A file is removed where one stands. -/
lemma removeFile_ok (hwf : h.tree.WellFormed) (hr : h.removeFile p = .ok h') :
    (∃ content, h.layout (h.goal p) = some (.file content)) ∧
      h.Becomes h' (h.layout.clear (h.goal p)) := by
  obtain ⟨names, last, content, hplace, hfile, rfl⟩ := exists_of_removeFile hr
  obtain ⟨-, hgoal, hfolder⟩ := place_ok hplace
  rw [← hgoal]
  exact ⟨⟨content, hfile⟩, becomes_erase hwf last hfolder⟩

lemma layout_folder_empty : (Node.folder .empty).layout = .ofFolder := by
  funext names
  cases names with
  | nil => rfl
  | cons name names => simp [Node.layout, Layout.ofFolder, Directory.get?_cons, Directory.find?]

/-- A directory is made where nothing stands. -/
lemma makeDirectory_ok (hm : h.makeDirectory p = .ok h') :
    h.layout (h.goal p) = none ∧ h.Becomes h' (h.layout.plant (h.goal p) .ofFolder) := by
  obtain ⟨names, last, hplace, hfree, rfl⟩ := exists_of_makeDirectory hm
  obtain ⟨hlast, hgoal, hfolder⟩ := place_ok hplace
  rw [← hgoal, ← layout_folder_empty]
  exact ⟨hfree, becomes_insert hlast (fun _ => trivial) hfolder⟩

/-! ## Two paths -/

/-- A file is linked to a place where nothing stands. -/
lemma link_ok (hl : h.link source target = .ok h') :
    ∃ content, h.layout (h.goal source) = some (.file content) ∧
      h.layout (h.goal target) = none ∧
      h.Becomes h' (h.layout.plant (h.goal target) (.ofFile content)) := by
  obtain ⟨found, content, names, last, hlocate, hplace, hfree, rfl⟩ := exists_of_link hl
  obtain ⟨hlast, hgoal, hfolder⟩ := place_ok hplace
  obtain ⟨rfl, hnode⟩ := locate_ok hlocate
  rw [← hgoal]
  refine ⟨content, layout_eq_file_iff.mpr hnode, hfree, ?_⟩
  rw [← Node.layout_file]
  exact becomes_insert hlast (fun _ => trivial) hfolder

/-- What a move may find at its two ends: at the target a free place, a file for a file or an empty
directory for a directory, and neither end below the other. -/
structure Movable (l : Layout) (source target : List String) : Prop where
  exists_source : l source ≠ none
  target_kind : l target = none ∨
    (∃ old new, l source = some (.file old) ∧ l target = some (.file new)) ∨
    (l source = some .folder ∧ l target = some .folder ∧ ∀ name, l (target ++ [name]) = none)
  source_not_above : ¬ source <+: target
  target_not_above : ¬ target <+: source

lemma layout_of_get? {names : List String} {node : Node} (hnode : h.get? names = some node) :
    h.layout.focus names = node.layout := by
  funext rest
  simp [Layout.focus, layout, Directory.layout, Directory.get?_append, Node.layout,
    show h.tree.get? names = some node from hnode]

/-- Nothing lies below a file. -/
lemma focus_of_file {place : List String} {content : ByteArray}
    (hfile : h.layout place = some (.file content)) : h.layout.focus place = .ofFile content := by
  rw [layout_of_get? (layout_eq_file_iff.mp hfile), Node.layout_file]

/-- A file is not above a place where something else stands. -/
lemma not_prefix_of_file {place names : List String} {content : ByteArray}
    (hfile : h.layout place = some (.file content)) (hne : names ≠ place)
    (hsome : h.layout names ≠ none) : ¬ place <+: names := by
  rintro ⟨rest, rfl⟩
  have hrest : rest ≠ [] := by
    rintro rfl
    exact hne (List.append_nil place)
  rw [layout_of_append hrest hsome] at hfile
  cases hfile

/-- What is no directory is not above a directory. -/
lemma not_prefix_of_folder {place names : List String} (hplace : h.layout place ≠ some .folder)
    (hfolder : h.layout names = some .folder) : ¬ place <+: names := by
  rintro ⟨rest, rfl⟩
  by_cases hrest : rest = []
  · subst hrest
    exact hplace (by simpa using hfolder)
  · exact hplace (layout_of_append hrest (by simp [hfolder]))

/-- A free place is not above a place where something stands. -/
lemma not_prefix_of_none {place names : List String} (hfree : h.layout place = none)
    (hsome : h.layout names ≠ none) : ¬ place <+: names := by
  rintro ⟨rest, rfl⟩
  by_cases hrest : rest = []
  · subst hrest
    exact hsome (by simpa using hfree)
  · rw [layout_of_append hrest hsome] at hfree
    cases hfree

/-- Nothing is below what is no directory. -/
lemma layout_below {place rest : List String} (hplace : h.layout place ≠ some .folder)
    (hrest : rest ≠ []) : h.layout (place ++ rest) = none := by
  by_contra hsome
  exact hplace (layout_of_append hrest hsome)

/-- What was put into a free place can be cleared away again. -/
lemma clear_plant_of_none {place : List String} (sub : Layout) (hfree : h.layout place = none) :
    (h.layout.plant place sub).clear place = h.layout := by
  funext names
  by_cases hbelow : place <+: names
  · rw [Layout.clear_below hbelow]
    by_contra hsome
    exact not_prefix_of_none hfree (Ne.symm hsome) hbelow
  · rw [Layout.clear_elsewhere hbelow, Layout.plant_elsewhere hbelow]

/-- A node takes the place of nothing or of an entry of its kind. -/
lemma target_kind_of_replaces {place target : List String} {node : Node}
    (hnode : h.get? place = some node) (hr : replaces node (h.get? target) = .ok ()) :
    h.layout target = none ∨
      (∃ old new, h.layout place = some (.file old) ∧ h.layout target = some (.file new)) ∨
      (h.layout place = some .folder ∧ h.layout target = some .folder ∧
        ∀ name, h.layout (target ++ [name]) = none) := by
  cases htarget : h.get? target with
  | none => exact .inl (layout_eq_none_iff.mpr htarget)
  | some there =>
    rw [htarget] at hr
    cases node with
    | file old =>
      cases there with
      | file new =>
        exact .inr (.inl ⟨old, new, layout_eq_file_iff.mpr hnode, layout_eq_file_iff.mpr htarget⟩)
      | folder entries => simp [replaces] at hr
    | folder entries =>
      cases there with
      | file new => simp [replaces] at hr
      | folder inside =>
        cases inside with
        | file => simp [replaces] at hr
        | folder => simp [replaces] at hr
        | empty =>
          refine .inr (.inr ⟨layout_eq_folder_iff.mpr ⟨_, hnode⟩,
            layout_eq_folder_iff.mpr ⟨_, htarget⟩, fun name => ?_⟩)
          have := congrFun (layout_of_get? htarget) [name]
          simpa [Layout.focus, layout_folder_empty, Layout.ofFolder] using this

/-- Taking a node out of one directory and putting it into another moves it with all that it
holds. -/
lemma becomes_move {from_ to_ : List String} {s t : String} {node : Node}
    (hwf : h.tree.WellFormed) (ht : Directory.IsEntryName t)
    (hnode : h.get? (from_ ++ [s]) = some node) (hfrom : h.layout from_ = some .folder)
    (hto : h.layout to_ = some .folder) (hbelow : ¬ from_ ++ [s] <+: to_) :
    h.Becomes ((h.alter (.erase s) from_).alter (.insert t node) to_)
      ((h.layout.clear (from_ ++ [s])).plant (to_ ++ [t]) (h.layout.focus (from_ ++ [s]))) := by
  have herase := becomes_erase hwf s hfrom
  have hto' : (h.alter (.erase s) from_).layout to_ = some .folder := by
    rw [herase.layout, Layout.clear_elsewhere hbelow, hto]
  have hinsert := becomes_insert ht
    (fun _ => (Directory.wellFormed_of_get? hwf hnode : node.WellFormed)) hto'
  rw [herase.layout, ← layout_of_get? hnode] at hinsert
  exact herase.trans hinsert

/-- Something is moved to a place where it may stand, or already is there. -/
lemma move_ok (hwf : h.tree.WellFormed) (hm : h.move source target = .ok h') :
    (h.goal source = h.goal target ∧ h.layout (h.goal source) ≠ none ∧ h' = h) ∨
      (Movable h.layout (h.goal source) (h.goal target) ∧
        h.Becomes h' ((h.layout.clear (h.goal source)).plant (h.goal target)
          (h.layout.focus (h.goal source)))) := by
  obtain ⟨names, s, names', t, node, hsource, htarget, hnode, hcase⟩ := exists_of_move hm
  obtain ⟨-, hsourceGoal, hsourceFolder⟩ := place_ok hsource
  obtain ⟨htargetName, htargetGoal, htargetFolder⟩ := place_ok htarget
  have hexists : h.layout (names ++ [s]) ≠ none := by simp [layout_eq_none_iff, hnode]
  rw [← hsourceGoal, ← htargetGoal]
  rcases hcase with ⟨hsame, rfl⟩ | ⟨hdifferent, hinto, hover, hreplaces, rfl⟩
  · exact .inl ⟨hsame, hexists, rfl⟩
  refine .inr ⟨⟨hexists, target_kind_of_replaces hnode hreplaces, ?_, ?_⟩,
    becomes_move hwf htargetName hnode hsourceFolder htargetFolder hinto⟩
  · rw [List.prefix_concat_iff]
    exact not_or.mpr ⟨hdifferent, hinto⟩
  · rw [List.prefix_concat_iff]
    exact not_or.mpr ⟨Ne.symm hdifferent, hover⟩

/-! ## When the operations succeed -/

/-- A path ends with a name, not with a separator, and the directory that should hold it is
there. -/
structure Resolves (h : Host) (p : HostPath) : Prop where
  exists_place : ∃ names last, h.place p = .ok (names, some last)
  no_mark : p.asksDirectory = false
  no_nul : p.hasNul = false

lemma resolves_of_folders {front : List String} {last : String} (hfits : p.Fits)
    (hcomponents : p.components = front ++ [last]) (hlast : Directory.IsEntryName last)
    (hmark : p.asksDirectory = false)
    (hroute : ∀ place ∈ route (h.start p) front, h.layout place = some .folder) : h.Resolves p :=
  ⟨⟨_, _, place_of_folders hfits hcomponents hlast hroute⟩, hmark, hfits.1⟩

/-- A file can be written where no directory stands. -/
lemma writeFile_of_resolves (hp : h.Resolves p) (content : ByteArray)
    (hfree : h.layout (h.goal p) ≠ some .folder) :
    ∃ written, h.writeFile p content = .ok written := by
  obtain ⟨⟨names, last, hplace⟩, hmark, -⟩ := hp
  rw [← (place_ok hplace).2.1] at hfree
  refine ⟨h.alter (.insert last (.file content)) names, ?_⟩
  simp only [writeFile, hplace, hmark, bind, Except.bind, Bool.false_eq_true, if_false]
  split
  · rename_i entries hentries
    exact absurd (layout_eq_folder_iff.mpr ⟨entries, hentries⟩) hfree
  · rfl

/-- A file can be removed where one stands. -/
lemma removeFile_of_resolves {content : ByteArray} (hp : h.Resolves p)
    (hfile : h.layout (h.goal p) = some (.file content)) :
    ∃ removed, h.removeFile p = .ok removed := by
  obtain ⟨⟨names, last, hplace⟩, hmark, -⟩ := hp
  rw [← (place_ok hplace).2.1] at hfile
  refine ⟨h.alter (.erase last) names, ?_⟩
  simp [removeFile, hplace, hmark, layout_eq_file_iff.mp hfile, bind, Except.bind]

/-- A link from what is there is refused where something stands already. -/
lemma link_of_taken {names : List String} {node : Node} (hp : h.Resolves target)
    (hsource : h.locate source = .ok (names, node)) (htaken : h.layout (h.goal target) ≠ none) :
    h.link source target = .error .occupied := by
  obtain ⟨⟨place, last, hplace⟩, -, hnul⟩ := hp
  rw [← (place_ok hplace).2.1, Ne, layout_eq_none_iff] at htaken
  have hsome : (h.get? (place ++ [last])).isSome = true := by simpa [Option.isSome_iff_ne_none]
  simp [link, hplace, hnul, hsource, hsome, bind, Except.bind]

/-- A file can be linked to where nothing stands, and that is as good as writing its bytes there. -/
lemma link_of_free {names : List String} {content : ByteArray} (hp : h.Resolves target)
    (hsource : h.locate source = .ok (names, .file content))
    (hfree : h.layout (h.goal target) = none) :
    h.link source target = h.writeFile target content := by
  obtain ⟨⟨place, last, hplace⟩, hmark, hnul⟩ := hp
  rw [← (place_ok hplace).2.1, layout_eq_none_iff] at hfree
  simp [link, writeFile, hplace, hmark, hnul, hsource, hfree, bind, Except.bind]

/-- A directory cannot be linked to where nothing stands. -/
lemma link_of_folder {names : List String} {entries : Directory} (hp : h.Resolves target)
    (hsource : h.locate source = .ok (names, .folder entries))
    (hfree : h.layout (h.goal target) = none) : h.link source target = .error .notPermitted := by
  obtain ⟨⟨place, last, hplace⟩, hmark, hnul⟩ := hp
  rw [← (place_ok hplace).2.1, layout_eq_none_iff] at hfree
  simp [link, hplace, hmark, hnul, hsource, hfree, bind, Except.bind]

lemma replaces_file {content : ByteArray} {names : List String}
    (hfree : h.layout names ≠ some .folder) : replaces (.file content) (h.get? names) = .ok () := by
  cases hnode : h.get? names with
  | none => rfl
  | some node =>
    cases node with
    | file old => rfl
    | folder entries => exact absurd (layout_eq_folder_iff.mpr ⟨entries, hnode⟩) hfree

/-- A move goes through when neither place is in the other and the target may be replaced. -/
lemma move_of_node {node : Node} (hs : h.Resolves source) (ht : h.Resolves target)
    (hnode : h.get? (h.goal source) = some node)
    (hinto : ¬ h.goal source <+: (h.goal target).dropLast)
    (hover : ¬ h.goal target <+: (h.goal source).dropLast)
    (hreplaces : replaces node (h.get? (h.goal target)) = .ok ()) :
    ∃ moved, h.move source target = .ok moved := by
  obtain ⟨⟨sourceNames, s, hsource⟩, hsourceMark, -⟩ := hs
  obtain ⟨⟨targetNames, t, htarget⟩, htargetMark, -⟩ := ht
  rw [← (place_ok hsource).2.1, ← (place_ok htarget).2.1, List.dropLast_concat] at hinto hover
  rw [← (place_ok hsource).2.1] at hnode
  rw [← (place_ok htarget).2.1] at hreplaces
  rw [← List.isPrefixOf_iff_prefix] at hinto hover
  have hmarks : movesAs source target node = true := by
    cases node <;> simp [movesAs, hsourceMark, htargetMark]
  simp only [move, hsource, htarget, hnode, bind, Except.bind]
  rw [if_neg (not_not.mpr hmarks), if_neg hinto, if_neg hover]
  by_cases hsame : sourceNames ++ [s] = targetNames ++ [t]
  · exact ⟨h, if_pos hsame⟩
  · rw [if_neg hsame, hreplaces]
    exact ⟨_, rfl⟩

/-- The directory that holds a place is there if the place resolves. -/
lemma Resolves.layout_dropLast (hp : h.Resolves p) :
    h.layout (h.goal p).dropLast = some .folder := by
  obtain ⟨⟨names, last, hplace⟩, -, -⟩ := hp
  obtain ⟨-, hgoal, hfolder⟩ := place_ok hplace
  rw [← hgoal, List.dropLast_concat, hfolder]

lemma move_of_resolves {content : ByteArray} (hs : h.Resolves source) (ht : h.Resolves target)
    (hfile : h.layout (h.goal source) = some (.file content))
    (hfree : h.layout (h.goal target) ≠ some .folder) : ∃ moved, h.move source target = .ok moved :=
  -- The directory of the target is no file, and the target is no directory, so neither can contain
  -- the other.
  move_of_node hs ht (layout_eq_file_iff.mp hfile)
    (not_prefix_of_folder (by simp [hfile]) ht.layout_dropLast)
    (not_prefix_of_folder hfree hs.layout_dropLast) (replaces_file hfree)

/-- A directory can be moved to a free place that is not below it. -/
lemma move_of_folder (hs : h.Resolves source) (ht : h.Resolves target)
    (hfolder : h.layout (h.goal source) = some .folder) (hfree : h.layout (h.goal target) = none)
    (hbelow : ¬ h.goal source <+: h.goal target) : ∃ moved, h.move source target = .ok moved := by
  obtain ⟨entries, hentries⟩ := layout_eq_folder_iff.mp hfolder
  refine move_of_node hs ht hentries (fun habove => hbelow (habove.trans (List.dropLast_prefix _)))
    (not_prefix_of_folder (by simp [hfree]) hs.layout_dropLast) ?_
  rw [layout_eq_none_iff.mp hfree]
  rfl

end Host

end CommitStore
