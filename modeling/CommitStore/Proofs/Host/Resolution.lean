import CommitStore.Host.Operations
import CommitStore.Proofs.Host.Layout

/-!
# Where a path leads

A path is followed name by name, and every name but the last has to be a directory.  Where it leads,
if it leads anywhere, can be told from the path alone: `settle` turns `.` and `..` away.  What the
tree adds is whether each place on the way, the `route`, is a directory.

So a path to a directory can be followed exactly when all places on its route are directories
(`Host.follow_of_folders`, `Host.folders_of_follow`), and within the limits of the host it fails
only because something is missing or is no directory (`Host.follow_error`).
-/

namespace CommitStore

/-! ## Names pushed onto a path -/

namespace Text

lemma splitAt_of_not_mem {sep : Char} {word : List Char} (h : sep ∉ word) :
    splitAt sep word = [word] := by
  simpa [joinWith] using splitAt_joinWith (List.cons_ne_nil word []) (by simpa using h)

lemma splitAt_append_cons (sep : Char) (before after : List Char) :
    splitAt sep (before ++ sep :: after) = splitAt sep before ++ splitAt sep after := by
  induction before with
  | nil => simp [splitAt]
  | cons c before ih =>
    by_cases hc : c = sep
    · simp [splitAt, hc, ih]
    · simp only [List.cons_append, splitAt, hc, if_false, ih]
      cases hs : splitAt sep before with
      | nil => exact absurd hs (splitAt_ne_nil sep before)
      | cons word words => rfl

end Text

namespace HostPath

/-- A name that adds one component to a path. -/
def IsComponent (name : String) : Prop := name ≠ "" ∧ '/' ∉ name.toList

/-- The components of a path and of a text behind it follow one another. -/
lemma components_push_text (p : HostPath) (text : String) :
    (p.push text).components = p.components ++ (⟨text⟩ : HostPath).components := by
  by_cases hempty : p.text = ""
  · simp [push, hempty, components, Text.splitAt]
  by_cases hasks : p.asksDirectory
  · obtain ⟨before, hbefore⟩ : ∃ before, p.text.toList = before ++ ['/'] :=
      List.getLast?_eq_some_iff.mp (by simpa [asksDirectory] using hasks)
    simp only [push, hasks, or_true, if_true, components, String.toList_append, hbefore,
      List.append_assoc, List.singleton_append, Text.splitAt_append_cons, List.filter_append,
      List.map_append]
    simp [Text.splitAt]
  · simp only [push, hempty, hasks, components, String.toList_append, Bool.false_eq_true, or_self,
      if_false]
    have hslash : p.text.toList ++ "/".toList ++ text.toList =
        p.text.toList ++ '/' :: text.toList := by simp
    rw [hslash, Text.splitAt_append_cons, List.filter_append, List.map_append]

lemma components_push {p : HostPath} {name : String} (h : IsComponent name) :
    (p.push name).components = p.components ++ [name] := by
  obtain ⟨hne, hsep⟩ := h
  have hname : name.toList ≠ [] := by simpa using hne
  have hsingle : (⟨name⟩ : HostPath).components = [name] := by
    simp [components, Text.splitAt_of_not_mem hsep, hname]
  rw [components_push_text, hsingle]

lemma components_foldl_push {names : List String} (h : ∀ name ∈ names, IsComponent name)
    (p : HostPath) : (names.foldl push p).components = p.components ++ names := by
  induction names generalizing p with
  | nil => simp
  | cons name names ih =>
    rw [List.foldl_cons, ih fun n hn => h n (List.mem_cons_of_mem _ hn),
      components_push (h name List.mem_cons_self)]
    simp

lemma isAbsolute_push {p : HostPath} {name : String} (h : IsComponent name) :
    (p.push name).isAbsolute = p.isAbsolute := by
  obtain ⟨hne, hsep⟩ := h
  by_cases hempty : p.text = ""
  · cases hname : name.toList with
    | nil => exact absurd (String.toList_eq_nil_iff.mp hname) hne
    | cons c rest =>
      have hc : c ≠ '/' := by
        rintro rfl
        simp [hname] at hsep
      simp [isAbsolute, push, hempty, hname, hc]
  · have htext : p.text.toList ≠ [] := by simpa using hempty
    obtain ⟨c, rest, hc⟩ := List.exists_cons_of_ne_nil htext
    by_cases hasks : p.asksDirectory <;> simp [isAbsolute, push, hempty, hasks, hc]

lemma isAbsolute_foldl_push {names : List String} (h : ∀ name ∈ names, IsComponent name)
    (p : HostPath) : (names.foldl push p).isAbsolute = p.isAbsolute := by
  induction names generalizing p with
  | nil => rfl
  | cons name names ih =>
    rw [List.foldl_cons, ih fun n hn => h n (List.mem_cons_of_mem _ hn),
      isAbsolute_push (h name List.mem_cons_self)]

lemma asksDirectory_push {p : HostPath} {name : String} (h : IsComponent name) :
    (p.push name).asksDirectory = false := by
  obtain ⟨hne, hsep⟩ := h
  obtain ⟨before, hbefore⟩ : ∃ before, (p.push name).text.toList = before ++ name.toList := by
    unfold push
    split
    · exact ⟨p.text.toList, by simp⟩
    · exact ⟨p.text.toList ++ ['/'], by simp⟩
  have hlast : name.toList.getLast? ≠ some '/' := fun hl => hsep (List.mem_of_getLast? hl)
  cases hl : name.toList.getLast? with
  | none => exact absurd (List.getLast?_eq_none_iff.mp hl) (by simpa using hne)
  | some c => simp_all [asksDirectory]

lemma text_push_ne_empty {p : HostPath} {name : String} (h : IsComponent name) :
    (p.push name).text ≠ "" := by
  unfold push
  split <;> simp [h.1]

end HostPath

/-! ## Settling a path -/

/-- Where one component leads from the directory at `names`. -/
def turn (names : List String) (c : String) : List String :=
  if c = "." then names else if c = ".." then names.dropLast else names ++ [c]

/-- Where some components lead from the directory at `names`, whatever the tree holds. -/
def settle (names components : List String) : List String := components.foldl turn names

/-- The places that some components lead through from `names` on, both ends included. -/
def route (names : List String) : List String → List (List String)
  | [] => [names]
  | c :: rest => names :: route (turn names c) rest

@[simp] lemma settle_nil (names : List String) : settle names [] = names := rfl

@[simp] lemma settle_cons (names rest : List String) (c : String) :
    settle names (c :: rest) = settle (turn names c) rest := rfl

lemma settle_append (names first rest : List String) :
    settle names (first ++ rest) = settle (settle names first) rest :=
  List.foldl_append

lemma turn_of_isEntryName {names : List String} {c : String} (h : Directory.IsEntryName c) :
    turn names c = names ++ [c] := by
  simp [turn, h.2.1, h.2.2.1]

lemma settle_of_isEntryName {names rest : List String}
    (h : ∀ c ∈ rest, Directory.IsEntryName c) : settle names rest = names ++ rest := by
  induction rest generalizing names with
  | nil => simp
  | cons c rest ih =>
    rw [settle_cons, turn_of_isEntryName (h c List.mem_cons_self),
      ih fun n hn => h n (List.mem_cons_of_mem _ hn)]
    simp

lemma mem_route_iff {names components place : List String} :
    place ∈ route names components ↔
      ∃ first, first <+: components ∧ settle names first = place := by
  induction components generalizing names with
  | nil =>
    simp only [route, List.mem_singleton, List.prefix_nil]
    constructor
    · rintro rfl
      exact ⟨[], rfl, rfl⟩
    · rintro ⟨_, rfl, rfl⟩
      rfl
  | cons c rest ih =>
    simp only [route, List.mem_cons, ih]
    constructor
    · rintro (rfl | ⟨first, hfirst, rfl⟩)
      · exact ⟨[], List.nil_prefix, rfl⟩
      · exact ⟨c :: first, List.cons_prefix_cons.mpr ⟨rfl, hfirst⟩, rfl⟩
    · rintro ⟨first, hfirst, rfl⟩
      cases first with
      | nil => exact .inl rfl
      | cons c' first =>
        obtain ⟨rfl, hrest⟩ := List.cons_prefix_cons.mp hfirst
        exact .inr ⟨first, hrest, rfl⟩

lemma settle_mem_route (names components : List String) :
    settle names components ∈ route names components :=
  mem_route_iff.mpr ⟨components, List.prefix_refl _, rfl⟩

lemma self_mem_route (names components : List String) : names ∈ route names components :=
  mem_route_iff.mpr ⟨[], List.nil_prefix, rfl⟩

lemma mem_route_append {names first rest place : List String} :
    place ∈ route names (first ++ rest) ↔
      place ∈ route names first ∨ place ∈ route (settle names first) rest := by
  induction first generalizing names with
  | nil =>
    simp only [List.nil_append, route, List.mem_singleton, settle_nil]
    constructor
    · exact .inr
    · rintro (rfl | h)
      · exact self_mem_route _ _
      · exact h
  | cons c first ih => simp [route, ih, or_assoc]

/-! ## Following a path -/

namespace Host

variable {h : Host}

lemma start_of_workingDirectory {h' : Host} (hcwd : h'.workingDirectory = h.workingDirectory)
    (p : HostPath) : h'.start p = h.start p := by
  simp [start, hcwd]

/-- The layout of the tree of a host. -/
def layout (h : Host) : Layout := h.tree.layout

lemma layout_of_append {names rest : List String} (hrest : rest ≠ [])
    (hbelow : h.layout (names ++ rest) ≠ none) : h.layout names = some .folder :=
  Directory.layout_of_append hrest hbelow

lemma layout_eq_folder_iff {names : List String} :
    h.layout names = some .folder ↔ ∃ entries, h.get? names = some (.folder entries) :=
  Directory.layout_eq_folder_iff

lemma layout_eq_file_iff {names : List String} {content : ByteArray} :
    h.layout names = some (.file content) ↔ h.get? names = some (.file content) :=
  Directory.layout_eq_file_iff

lemma layout_eq_none_iff {names : List String} : h.layout names = none ↔ h.get? names = none := by
  simp [layout, Directory.layout, get?]

lemma layout_bare (here : List String) (name : String) (names : List String) :
    (Host.bare here).layout (here ++ name :: names) = none := by
  show (List.foldr (fun name below => Directory.folder name below .empty) .empty here).layout _ =
    none
  induction here with
  | nil => simp [Directory.layout_cons, Directory.find?]
  | cons first here ih =>
    rw [List.foldr_cons, List.cons_append, Directory.layout_cons, Directory.find?, if_pos rfl,
      Option.bind_some]
    simpa [Node.layout, Directory.layout] using ih

/-- One step along a path, in terms of what stands where. -/
lemma follow_cons (h : Host) (names rest : List String) (c : String) :
    h.follow names (c :: rest) =
      if h.layout names = some .folder then
        if c = "." then h.follow names rest
        else if c = ".." then h.follow names.dropLast rest
        else if isLongName c then .error .tooLong
        else if h.layout (names ++ [c]) = none then .error .missing
        else h.follow (names ++ [c]) rest
      else .error .notDirectory := by
  rw [follow]
  cases hnode : h.get? names with
  | none => simp [layout, Directory.layout, show h.tree.get? names = none from hnode]
  | some node =>
    cases node with
    | file content =>
      have := layout_eq_file_iff.mpr hnode
      simp [this]
    | folder entries =>
      have hfolder : h.layout names = some .folder := layout_eq_folder_iff.mpr ⟨_, hnode⟩
      have hchild : h.layout (names ++ [c]) = (entries.find? c).map Node.entry := by
        have := Directory.layout_append (show h.tree.get? names = _ from hnode) [c]
        rw [layout, this, Directory.layout_cons]
        cases entries.find? c <;> simp [Node.layout]
      simp only [hfolder, hchild, if_true]
      cases entries.find? c <;> simp

lemma layout_dropLast {names : List String} (hn : h.layout names ≠ none) :
    h.layout names.dropLast ≠ none := by
  rcases List.eq_nil_or_concat names with rfl | ⟨front, last, rfl⟩
  · exact hn
  · rw [List.concat_eq_append] at hn ⊢
    have := layout_of_append (List.cons_ne_nil last []) hn
    simp [this]

/-- A step from a directory goes on to where it turns, if that is there. -/
lemma follow_cons_of_folder {names : List String} (hhere : h.layout names = some .folder)
    (c : String) (rest : List String) :
    (isLongName c = true ∧ h.follow names (c :: rest) = .error .tooLong) ∨
      h.follow names (c :: rest) =
        if h.layout (turn names c) = none then .error .missing
        else h.follow (turn names c) rest := by
  have hsome : h.layout names ≠ none := by simp [hhere]
  rw [follow_cons, if_pos hhere]
  by_cases hdot : c = "."
  · simp [hdot, turn, hsome]
  by_cases hup : c = ".."
  · simp [hup, turn, layout_dropLast hsome]
  by_cases hlong : isLongName c = true <;> simp [hdot, hup, hlong, turn]

/-- A step that succeeds turns from one directory to something that exists. -/
lemma follow_cons_ok {names rest result : List String} {c : String}
    (hf : h.follow names (c :: rest) = .ok result) :
    h.layout names = some .folder ∧ h.follow (turn names c) rest = .ok result ∧
      (h.layout names ≠ none → h.layout (turn names c) ≠ none) := by
  by_cases hhere : h.layout names = some .folder
  · rcases follow_cons_of_folder hhere c rest with ⟨-, hlong⟩ | hnext
    · rw [hlong] at hf
      cases hf
    · rw [hnext] at hf
      split at hf
      · cases hf
      · rename_i hthere
        exact ⟨hhere, hf, fun _ => hthere⟩
  · rw [follow_cons, if_neg hhere] at hf
    cases hf

/-- Following a path ends where settling it says. -/
lemma follow_eq_settle {names components result : List String}
    (hf : h.follow names components = .ok result) : result = settle names components := by
  induction components generalizing names with
  | nil => simpa [follow] using hf.symm
  | cons c rest ih => exact ih (follow_cons_ok hf).2.1

lemma follow_append (h : Host) (names first rest : List String) :
    h.follow names (first ++ rest) =
      (h.follow names first).bind fun middle => h.follow middle rest := by
  induction first generalizing names with
  | nil => rfl
  | cons c first ih =>
    rw [List.cons_append, follow_cons, follow_cons]
    simp only [ih]
    split
    · split
      · rfl
      · split
        · rfl
        · split
          · rfl
          · split <;> rfl
    · rfl

/-- A path whose route consists of directories can be followed. -/
lemma follow_of_folders {names components : List String}
    (hshort : ∀ c ∈ components, isLongName c = false)
    (hroute : ∀ place ∈ route names components, h.layout place = some .folder) :
    h.follow names components = .ok (settle names components) := by
  induction components generalizing names with
  | nil => rfl
  | cons c rest ih =>
    have hrest : ∀ place ∈ route (turn names c) rest, h.layout place = some .folder :=
      fun place hplace => hroute place (List.mem_cons_of_mem _ hplace)
    rcases follow_cons_of_folder (hroute names (self_mem_route _ _)) c rest with ⟨hlong, -⟩ | hnext
    · rw [hshort c List.mem_cons_self] at hlong
      cases hlong
    · rw [hnext, hrest _ (self_mem_route _ _), if_neg (by simp), settle_cons]
      exact ih (fun n hn => hshort n (List.mem_cons_of_mem _ hn)) hrest

/-- The way to a directory leads through directories. -/
lemma folders_of_follow {names components result : List String}
    (hf : h.follow names components = .ok result) (hresult : h.layout result = some .folder) :
    ∀ place ∈ route names components, h.layout place = some .folder := by
  induction components generalizing names with
  | nil =>
    obtain rfl : names = result := by simpa [follow] using hf
    simpa [route] using hresult
  | cons c rest ih =>
    obtain ⟨hhere, hnext, -⟩ := follow_cons_ok hf
    intro place hplace
    rcases List.mem_cons.mp hplace with rfl | hplace
    · exact hhere
    · exact ih hnext place hplace

lemma follow_ne_none {names components result : List String}
    (hf : h.follow names components = .ok result) (hn : h.layout names ≠ none) :
    h.layout result ≠ none := by
  induction components generalizing names with
  | nil =>
    obtain rfl : names = result := by simpa [follow] using hf
    exact hn
  | cons c rest ih =>
    obtain ⟨-, hnext, hthere⟩ := follow_cons_ok hf
    exact ih hnext (hthere hn)

end Host

/-- Something is missing on the way, or is not the directory that it has to be. -/
def HostError.IsAbsence (e : HostError) : Prop := e = .missing ∨ e = .notDirectory

namespace Host

variable {h : Host}

/-- Following names that are not too long fails only for what the tree holds. -/
lemma follow_error {names components : List String} {e : HostError}
    (hshort : ∀ c ∈ components, isLongName c = false)
    (hf : h.follow names components = .error e) : e.IsAbsence := by
  induction components generalizing names with
  | nil => simp [follow] at hf
  | cons c rest ih =>
    have hrest : ∀ n ∈ rest, isLongName n = false := fun n hn =>
      hshort n (List.mem_cons_of_mem _ hn)
    by_cases hhere : h.layout names = some .folder
    · rcases follow_cons_of_folder hhere c rest with ⟨hlong, -⟩ | hnext
      · rw [hshort c List.mem_cons_self] at hlong
        cases hlong
      · rw [hnext] at hf
        split at hf
        · exact .inl (Except.error.inj hf).symm
        · exact ih hrest hf
    · rw [follow_cons, if_neg hhere] at hf
      exact .inr (Except.error.inj hf).symm

/-- Names that lead to something can be followed to it. -/
lemma follow_names {names rest : List String} (hnames : ∀ c ∈ rest, Directory.IsEntryName c)
    (hshort : ∀ c ∈ rest, isLongName c = false) (hthere : h.layout (names ++ rest) ≠ none) :
    h.follow names rest = .ok (names ++ rest) := by
  induction rest generalizing names with
  | nil => simp [follow]
  | cons c rest ih =>
    obtain ⟨-, hdot, hup, -⟩ := hnames c List.mem_cons_self
    have hhere : h.layout names = some .folder := layout_of_append (List.cons_ne_nil _ _) hthere
    have hthere' : h.layout ((names ++ [c]) ++ rest) ≠ none := by simpa using hthere
    have hnext : h.layout (names ++ [c]) ≠ none := by
      cases rest with
      | nil => simpa using hthere'
      | cons d rest =>
        have := layout_of_append (List.cons_ne_nil _ _) hthere'
        simp [this]
    rw [follow_cons, if_pos hhere, if_neg hdot, if_neg hup, hshort c List.mem_cons_self,
      if_neg (by simp), if_neg hnext,
      ih (fun n hn => hnames n (List.mem_cons_of_mem _ hn))
        (fun n hn => hshort n (List.mem_cons_of_mem _ hn)) hthere']
    simp

end Host

end CommitStore
