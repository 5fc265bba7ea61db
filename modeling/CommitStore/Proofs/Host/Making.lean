import CommitStore.Proofs.Host.Growth

/-!
# When directories can be made

Within the limits of the host only a file on the way stops the making of directories.  A path with a
missing directory on its way is reported missing, its parents are made first, and then it can be
made.  `Host.makeDirectory_cases` is one step of this, and `Host.makeParents_ok` the whole: if no
file is in the way, all parents are directories afterwards.  The parents are within the limits if
the path is (`HostPath.fits_of_mem_ancestors`).
-/

namespace CommitStore

namespace Text

lemma joinWith_append_cons (sep : Char) {before : List (List Char)} (hne : before ≠ [])
    (word : List Char) (after : List (List Char)) :
    joinWith sep (before ++ word :: after) =
      joinWith sep before ++ sep :: joinWith sep (word :: after) := by
  induction before with
  | nil => exact absurd rfl hne
  | cons first before ih =>
    cases before with
    | nil => simp [joinWith]
    | cons next before =>
      have hnext := ih (List.cons_ne_nil _ _)
      rw [List.cons_append, joinWith_cons_of_ne_nil _ _ (by simp), hnext,
        joinWith_cons_of_ne_nil sep first (List.cons_ne_nil next before)]
      simp

/-- The text of some segments begins with the text of the first ones. -/
lemma joinWith_prefix_append (sep : Char) {before : List (List Char)} (hne : before ≠ [])
    (after : List (List Char)) : joinWith sep before <+: joinWith sep (before ++ after) := by
  cases after with
  | nil => simp
  | cons word after =>
    rw [joinWith_append_cons sep hne]
    exact List.prefix_append _ _

end Text

/-! ## The limits of the directories above a path -/

namespace HostPath

/-- A path that another one begins with is not too long if that one is not. -/
lemma isLong_of_prefix {p q : HostPath} (hlong : p.isLong = false)
    (htext : q.text.toList <+: p.text.toList) : q.isLong = false := by
  obtain ⟨rest, hrest⟩ := htext
  have hsplit : p.text = q.text ++ String.ofList rest := by
    rw [← String.toList_inj]
    simp [hrest]
  have hsize : p.text.utf8ByteSize < limit := by simpa [isLong] using hlong
  rw [hsplit, String.utf8ByteSize_append] at hsize
  have : q.text.utf8ByteSize < limit := by omega
  simpa [isLong] using this

lemma Fits.of_prefix {p q : HostPath} (hp : p.Fits) (htext : q.text.toList <+: p.text.toList)
    (hcomponents : ∀ c ∈ q.components, c ∈ p.components) : q.Fits := by
  obtain ⟨hnul, hlong, hshort⟩ := hp
  refine ⟨?_, isLong_of_prefix hlong htext, fun c hc => hshort c (hcomponents c hc)⟩
  have hnot : '\x00' ∉ p.text.toList := by simpa [hasNul] using hnul
  have : '\x00' ∉ q.text.toList := fun hmem => hnot (htext.subset hmem)
  simpa [hasNul] using this

/-- The directories above a path are within the limits of the host if the path is. -/
lemma fits_of_mem_ancestors {p q : HostPath} (hp : p.Fits) (hq : q ∈ p.ancestors) : q.Fits := by
  obtain ⟨first, segments, htext, hcomponents, hancestors, hfirst, hsegments, -⟩ :=
    p.exists_segments
  rw [hancestors] at hq
  rcases mem_above hq with ⟨hempty, -⟩ | ⟨front, ⟨more, hmore⟩, rfl⟩
  · refine hp.of_prefix (by simp [hempty]) fun c hc => ?_
    simp [components, hempty, Text.splitAt] at hc
  obtain ⟨idle, hfrontSplit, -⟩ := exists_idle front
  have hsplit : segments = (front.dropWhile isIdle).reverse ++ (idle ++ more.reverse) := by
    rw [← List.append_assoc, ← hfrontSplit, ← List.reverse_append, hmore, List.reverse_reverse]
  have hfront : ∀ word ∈ front, '/' ∉ word := fun word hword =>
    hsegments word (List.mem_reverse.mp (hmore ▸ List.mem_append_right more hword))
  refine hp.of_prefix ?_ fun c hc => ?_
  · rw [htext]
    unfold ofSegments
    split
    · split
      · -- The path `/` lies above an absolute path only, and that begins with the separator.
        rename_i hempty
        have hne : segments ≠ [] := by
          rintro rfl
          simp [above, hempty] at hq
        rw [hempty, Text.joinWith_cons_of_ne_nil _ _ hne]
        simp
      · have := Text.joinWith_prefix_append '/' (List.cons_ne_nil first []) segments
        simpa [Text.joinWith] using this
    · have := Text.joinWith_prefix_append '/'
        (List.cons_ne_nil first (front.dropWhile isIdle).reverse)
        (idle ++ more.reverse)
      rw [String.toList_ofList]
      rwa [List.cons_append, ← hsplit] at this
  · rw [components_ofSegments hfirst hfront] at hc
    rw [hcomponents, hsplit, ← List.cons_append, ofWords_append]
    exact List.mem_append_left _ hc

/-! ## Idle segments -/

lemma mem_route_ofWords_idle {words : List (List Char)} (hidle : ∀ word ∈ words, isIdle word = true)
    {names place : List String} : place ∈ route names (ofWords words) ↔ place = names := by
  rw [mem_route_iff]
  constructor
  · rintro ⟨front, hfront, rfl⟩
    exact settle_dots (fun c hc => eq_dot_of_mem_ofWords hidle (hfront.subset hc)) names
  · rintro rfl
    exact ⟨[], List.nil_prefix, rfl⟩

lemma mem_route_append_idle {words idle : List (List Char)}
    (hidle : ∀ word ∈ idle, isIdle word = true) {names place : List String} :
    place ∈ route names (ofWords (words ++ idle)) ↔ place ∈ route names (ofWords words) := by
  rw [ofWords_append, mem_route_append, mem_route_ofWords_idle hidle]
  constructor
  · rintro (h | rfl)
    · exact h
    · exact settle_mem_route _ _
  · exact .inl

end HostPath

/-! ## Making one directory -/

namespace Host

variable {h : Host} {p : HostPath}

/-- No place is that of a file. -/
def NoFile (h : Host) (places : List (List String)) : Prop :=
  ∀ place ∈ places, ∀ content, h.layout place ≠ some (.file content)

/-- Every place is that of a directory. -/
def AllFolders (h : Host) (places : List (List String)) : Prop :=
  ∀ place ∈ places, h.layout place = some .folder

lemma Grows.noFile {h₁ h₂ : Host} {places grown : List (List String)} (hg : h₁.Grows h₂ grown)
    (hn : h₁.NoFile places) : h₂.NoFile places := fun place hplace content hfile =>
  hn place hplace content (hg.file_iff.mp hfile)

lemma NoFile.mono {places places' : List (List String)} (hn : h.NoFile places)
    (hsub : ∀ place ∈ places', place ∈ places) : h.NoFile places' := fun place hplace =>
  hn place (hsub place hplace)

lemma AllFolders.noFile {places : List (List String)} (hf : h.AllFolders places) :
    h.NoFile places := by
  intro place hplace content hfile
  rw [hf place hplace] at hfile
  cases hfile

lemma NoFile.folder {places : List (List String)} (hn : h.NoFile places) {place : List String}
    (hplace : place ∈ places) (hsome : h.layout place ≠ none) : h.layout place = some .folder := by
  cases hentry : h.layout place with
  | none => exact absurd hentry hsome
  | some entry =>
    cases entry with
    | file content => exact absurd hentry (hn place hplace content)
    | folder => rfl

/-- If no file is on the way, following names that are not too long fails only for a missing one. -/
lemma follow_of_noFile {names components : List String} {e : HostError}
    (hshort : ∀ c ∈ components, isLongName c = false) (hstart : h.layout names = some .folder)
    (hfree : h.NoFile (route names components)) (hf : h.follow names components = .error e) :
    e = .missing := by
  induction components generalizing names with
  | nil => simp [follow] at hf
  | cons c rest ih =>
    have hshort' : ∀ n ∈ rest, isLongName n = false := fun n hn =>
      hshort n (List.mem_cons_of_mem _ hn)
    have hfree' : h.NoFile (route (turn names c) rest) :=
      hfree.mono fun place hplace => List.mem_cons_of_mem _ hplace
    rcases follow_cons_of_folder hstart c rest with ⟨hlong, -⟩ | hnext
    · rw [hshort c List.mem_cons_self] at hlong
      cases hlong
    · rw [hnext] at hf
      split at hf
      · exact (Except.error.inj hf).symm
      · rename_i hthere
        exact ih hshort' (hfree'.folder (self_mem_route _ _) hthere) hfree' hf

/-- A path that leads through directories to a directory finds it. -/
lemma lookup_of_allFolders (hfits : p.Fits) (hne : p.text ≠ "")
    (hroute : h.AllFolders (route (h.start p) p.components)) :
    ∃ entries, h.lookup p = .ok (.folder entries) ∧ h.get? (h.goal p) = some (.folder entries) := by
  obtain ⟨entries, hentries⟩ := layout_eq_folder_iff.mp (hroute _ (settle_mem_route _ _))
  have hfollow := follow_of_folders hfits.2.2 hroute
  refine ⟨entries, ?_, hentries⟩
  simp [lookup, locate, HostPath.check_eq_ok hfits hne, hfollow, hentries, bind, Except.bind,
    Except.map]

lemma isFolder_of_allFolders (hfits : p.Fits) (hne : p.text ≠ "")
    (hroute : h.AllFolders (route (h.start p) p.components)) : h.isFolder p = true := by
  obtain ⟨entries, hlookup, -⟩ := lookup_of_allFolders hfits hne hroute
  simp [isFolder, hlookup]

lemma allFolders_concat {names front : List String} {last : String}
    (hfront : h.AllFolders (route names front))
    (hlast : h.layout (turn (settle names front) last) = some .folder) :
    h.AllFolders (route names (front ++ [last])) := by
  intro place hplace
  rcases mem_route_append.mp hplace with hplace | hplace
  · exact hfront place hplace
  · rcases List.mem_cons.mp hplace with rfl | hplace
    · exact hfront _ (settle_mem_route _ _)
    · obtain rfl : place = turn (settle names front) last := by simpa [route] using hplace
      exact hlast

/-- `.` and `..` lead from what exists to what exists. -/
lemma layout_turn_dots {names : List String} {c : String} (hc : c = "." ∨ c = "..")
    (hsome : h.layout names ≠ none) : h.layout (turn names c) ≠ none := by
  rcases hc with rfl | rfl
  · simpa [turn] using hsome
  · simpa [turn] using layout_dropLast hsome

/-- Within the limits, a directory under a name is made if its place is free. -/
lemma makeDirectory_eq {names : List String} {last : String}
    (hplace : h.place p = .ok (names, some last)) :
    h.makeDirectory p =
      if h.layout (names ++ [last]) = none then
        .ok (h.alter (.insert last (.folder .empty)) names)
      else .error .occupied := by
  simp only [makeDirectory, hplace, bind, Except.bind]
  cases hnode : h.get? (names ++ [last]) with
  | none => simp [layout_eq_none_iff.mpr hnode]
  | some node => simp [layout_eq_none_iff, hnode]

/-- When the directories above it are there and no file is in its place, a directory is made or is
there already. -/
lemma makeDirectory_of_allFolders {front : List String} {last : String} (hfits : p.Fits)
    (hcomponents : p.components = front ++ [last]) (hroute : h.AllFolders (route (h.start p) front))
    (hend : h.layout (h.goal p) ≠ none → h.layout (h.goal p) = some .folder) :
    (∃ made, h.makeDirectory p = .ok made ∧ made.AllFolders (route (h.start p) (front ++ [last]))) ∨
      (h.makeDirectory p = .error .occupied ∧
        h.AllFolders (route (h.start p) (front ++ [last]))) := by
  have hgoal : h.goal p = turn (settle (h.start p) front) last := by
    rw [goal, hcomponents, settle_append, settle_cons, settle_nil]
  have hshort : ∀ c ∈ front, isLongName c = false := by
    intro c hc
    apply hfits.2.2 c
    simp [hcomponents, hc]
  have hhere : h.layout (settle (h.start p) front) = some .folder :=
    hroute _ (settle_mem_route _ _)
  have hplace := place_eq (h := h) hfits hcomponents
  simp only [follow_of_folders hshort hroute, Except.bind, hhere, if_true] at hplace
  by_cases hdots : last = "." ∨ last = ".."
  · have hthere : h.layout (turn (settle (h.start p) front) last) ≠ none :=
      layout_turn_dots hdots (by simp [hhere])
    refine .inr ⟨?_, allFolders_concat hroute (hgoal ▸ hend (hgoal ▸ hthere))⟩
    simp [makeDirectory, hplace, hdots, bind, Except.bind]
  · rw [if_neg hdots] at hplace
    have hturn : turn (settle (h.start p) front) last = settle (h.start p) front ++ [last] := by
      simp only [not_or] at hdots
      simp [turn, hdots]
    have hmake := makeDirectory_eq hplace
    rw [← hturn, ← hgoal] at hmake
    by_cases hthere : h.layout (h.goal p) = none
    · rw [if_pos hthere] at hmake
      refine .inl ⟨_, hmake, allFolders_concat (fun place hmem => ?_) ?_⟩
      · exact (grows_makeDirectory hmake).layout_of_some (hroute place hmem)
      · rw [← hgoal, (makeDirectory_ok hmake).2.layout]
        simp
    · rw [if_neg hthere] at hmake
      exact .inr ⟨hmake, allFolders_concat hroute (hgoal ▸ hend hthere)⟩

/-- Without a file on the way, a directory is made, or is there already, or a directory on the way
to it is missing. -/
lemma makeDirectory_cases (hfits : p.Fits) (hne : p.text ≠ "")
    (hstart : h.layout (h.start p) = some .folder)
    (hfree : h.NoFile (route (h.start p) p.components)) :
    (∃ made, h.makeDirectory p = .ok made ∧
        made.AllFolders (route (h.start p) p.components)) ∨
      (h.makeDirectory p = .error .occupied ∧
        h.AllFolders (route (h.start p) p.components)) ∨
      (h.makeDirectory p = .error .missing ∧
        ¬ h.AllFolders (route (h.start p) p.components.dropLast)) := by
  rcases List.eq_nil_or_concat p.components with hnil | ⟨front, last, hcomponents⟩
  · refine .inr (.inl ⟨?_, ?_⟩)
    · simp [makeDirectory, place, HostPath.check_eq_ok hfits hne, hnil, bind, Except.bind]
    · rw [hnil]
      intro place hplace
      obtain rfl : place = h.start p := by simpa [route] using hplace
      exact hstart
  rw [List.concat_eq_append] at hcomponents
  have hend : h.layout (h.goal p) ≠ none → h.layout (h.goal p) = some .folder :=
    hfree.folder (settle_mem_route _ _)
  rw [hcomponents, List.dropLast_concat]
  by_cases hroute : h.AllFolders (route (h.start p) front)
  · rcases makeDirectory_of_allFolders hfits hcomponents hroute hend with hmade | hoccupied
    · exact .inl hmade
    · exact .inr (.inl hoccupied)
  have hshort : ∀ c ∈ front, isLongName c = false := by
    intro c hc
    apply hfits.2.2 c
    simp [hcomponents, hc]
  have hfront : h.NoFile (route (h.start p) front) := by
    apply hfree.mono
    intro place hplace
    rw [hcomponents, mem_route_append]
    exact .inl hplace
  refine .inr (.inr ⟨?_, hroute⟩)
  cases hfollow : h.follow (h.start p) front with
  | error e =>
    obtain rfl : e = .missing := follow_of_noFile hshort hstart hfront hfollow
    simp [makeDirectory, place_eq hfits hcomponents, hfollow, bind, Except.bind]
  | ok names =>
    obtain rfl := follow_eq_settle hfollow
    have hhere := hfront.folder (settle_mem_route _ _)
      (follow_ne_none hfollow (by simp [hstart]))
    exact absurd (folders_of_follow hfollow hhere) hroute

/-! ## Making a chain of directories -/

/-- Without a file on the way, a directory can be made if the directories above it can. -/
lemma makeChain_cons_ok {parents : List HostPath} (hfits : p.Fits) (hne : p.text ≠ "")
    (hstart : h.layout (h.start p) = some .folder)
    (hfree : h.NoFile (route (h.start p) p.components))
    (hparents : ¬ h.AllFolders (route (h.start p) p.components.dropLast) →
      ∃ between, h.makeChain parents = (.ok (), between) ∧
        between.AllFolders (route (h.start p) p.components.dropLast)) :
    ∃ made, h.makeChain (p :: parents) = (.ok (), made) ∧
      made.AllFolders (route (h.start p) p.components) := by
  rcases makeDirectory_cases hfits hne hstart hfree with
    ⟨made, hmade, hall⟩ | ⟨hoccupied, hall⟩ | ⟨hmissing, hnot⟩
  · exact ⟨made, by rw [makeChain, if_neg hne, hmade], hall⟩
  · refine ⟨h, ?_, hall⟩
    rw [makeChain, if_neg hne, hoccupied]
    simp [isFolder_of_allFolders hfits hne hall]
  obtain ⟨between, hchain, habove⟩ := hparents hnot
  have hgrows := grows_makeChain h parents
  rw [hchain] at hgrows
  have hstart' : between.layout (between.start p) = some .folder := by
    rw [hgrows.start]
    exact hgrows.layout_of_some hstart
  have hfree' : between.NoFile (route (between.start p) p.components) := by
    rw [hgrows.start]
    exact hgrows.noFile hfree
  -- The second try cannot miss a directory any more.
  have hagain := makeDirectory_cases hfits hne hstart' hfree'
  rw [hgrows.start] at hagain
  rcases hagain with ⟨made, hmade, hall⟩ | ⟨hoccupied, hall⟩ | ⟨-, hnot'⟩
  · exact ⟨made, by simp [makeChain, hne, hmissing, hchain, hmade], hall⟩
  · have hfolder : between.isFolder p = true :=
      isFolder_of_allFolders hfits hne (by rwa [hgrows.start])
    exact ⟨between, by simp [makeChain, hne, hmissing, hchain, hoccupied, hfolder], hall⟩
  · exact absurd habove hnot'

section Segments

open HostPath

variable {first : List Char}

lemma start_ofSegments (hfirst : '/' ∉ first) (a b : List (List Char)) :
    h.start (ofSegments first a) = h.start (ofSegments first b) := by
  simp [start, isAbsolute_ofSegments hfirst]

lemma text_ofSegments_ne_empty (segments : List (List Char)) :
    (ofSegments first segments).text ≠ "" := by
  unfold ofSegments
  split
  · split
    · simp
    · rename_i hne
      simpa using hne
  · rename_i hcons
    have hne : (segments.dropWhile isIdle).reverse ≠ [] := by simpa using hcons
    rw [Text.joinWith_cons_of_ne_nil _ _ hne]
    simp

lemma mem_route_ofSegments (hfirst : '/' ∉ first) {segments : List (List Char)}
    (hsegments : ∀ word ∈ segments, '/' ∉ word) {names place : List String} :
    place ∈ route names (ofSegments first segments).components ↔
      place ∈ route names (ofWords (first :: segments.reverse)) := by
  obtain ⟨idle, hsplit, hidle⟩ := exists_idle segments
  rw [components_ofSegments hfirst hsegments, hsplit, ← List.cons_append,
    mem_route_append_idle hidle]

/-- A segment that is not idle adds its name. -/
lemma ofWords_reverse_cons {word : List Char} (hidle : ¬ isIdle word = true)
    (segments : List (List Char)) :
    ofWords (first :: (word :: segments).reverse) =
      ofWords (first :: segments.reverse) ++ [String.ofList word] := by
  have hne : word ≠ [] := by
    intro hempty
    rw [hempty] at hidle
    simp [isIdle] at hidle
  rw [List.reverse_cons, ← List.cons_append, ofWords_append]
  simp [ofWords, hne]

/-- Without a file on the way, the directory that some segments lead to can be made together with
all the directories above it. -/
lemma makeChain_ok (hfirst : '/' ∉ first) {segments : List (List Char)}
    (hsegments : ∀ word ∈ segments, '/' ∉ word)
    (hfits : ∀ q ∈ ofSegments first segments :: above first segments, q.Fits)
    (hstart : h.layout (h.start (ofSegments first segments)) = some .folder)
    (hfree : h.NoFile (route (h.start (ofSegments first segments))
      (ofSegments first segments).components)) :
    ∃ made, h.makeChain (ofSegments first segments :: above first segments) = (.ok (), made) ∧
      made.AllFolders
        (route (h.start (ofSegments first segments)) (ofSegments first segments).components) := by
  induction segments with
  | nil =>
    have hsingle : (ofSegments first []).components.dropLast = [] := by
      rw [components_ofSegments hfirst hsegments]
      by_cases hempty : first = [] <;> simp [ofWords, hempty]
    refine makeChain_cons_ok (hfits _ List.mem_cons_self) (text_ofSegments_ne_empty _) hstart hfree
      fun hnot => absurd (fun place hplace => ?_) hnot
    obtain rfl : place = h.start (ofSegments first []) := by simpa [hsingle, route] using hplace
    exact hstart
  | cons word segments ih =>
    have hsegments' : ∀ w ∈ segments, '/' ∉ w := fun w hw => hsegments w (List.mem_cons_of_mem _ hw)
    by_cases hidle : isIdle word
    · have hsame : ofSegments first (word :: segments) = ofSegments first segments := by
        simp [ofSegments, hidle]
      rw [hsame] at hstart hfree ⊢
      rw [hsame, above, if_pos hidle] at hfits
      rw [above, if_pos hidle]
      exact ih hsegments' hfits hstart hfree
    · have hcomponents : (ofSegments first (word :: segments)).components =
          ofWords (first :: segments.reverse) ++ [String.ofList word] := by
        rw [components_ofSegments hfirst hsegments, List.dropWhile_cons_of_neg hidle,
          ofWords_reverse_cons hidle]
      rw [above, if_neg hidle] at hfits ⊢
      refine makeChain_cons_ok (hfits _ List.mem_cons_self) (text_ofSegments_ne_empty _)
        hstart hfree fun _ => ?_
      -- The directory above is the one that the other segments lead to.
      rw [hcomponents, List.dropLast_concat]
      rw [hcomponents] at hfree
      rw [start_ofSegments hfirst (word :: segments) segments] at hstart hfree ⊢
      obtain ⟨between, hbetween, hall⟩ := ih hsegments'
        (fun q hq => hfits q (List.mem_cons_of_mem _ hq)) hstart (hfree.mono fun place hplace =>
          mem_route_append.mpr (.inl ((mem_route_ofSegments hfirst hsegments').mp hplace)))
      exact ⟨between, hbetween, fun place hplace =>
        hall place ((mem_route_ofSegments hfirst hsegments').mpr hplace)⟩

end Segments

end Host

/-! ## Making the parents -/

namespace HostPath

variable {p : HostPath} {front : List String} {last : String}

/-- Trailing idle segments of a path that ends with a name are empty. -/
lemma ofWords_idle_eq_nil {words : List (List Char)} (hidle : ∀ word ∈ words, isIdle word = true)
    {before : List String} (hlast : last ≠ ".")
    (heq : before ++ ofWords words = front ++ [last]) : ofWords words = [] := by
  by_contra hne
  obtain ⟨rest, dot, hdot⟩ := (List.eq_nil_or_concat _).resolve_left hne
  rw [List.concat_eq_append] at hdot
  have hmem : dot ∈ ofWords words := by simp [hdot]
  rw [hdot, ← List.append_assoc] at heq
  obtain ⟨-, hsame⟩ := List.append_inj' heq rfl
  exact hlast ((List.cons.inj hsame).1.symm.trans (eq_dot_of_mem_ofWords hidle hmem))

lemma text_ne_empty_of_concat (hcomponents : p.components = front ++ [last]) : p.text ≠ "" := by
  intro hempty
  simp [components, hempty, Text.splitAt] at hcomponents

/-- The nearest directory above a path that ends with a name is the working directory, or the
segments before the name lead to it. -/
lemma ancestors_cases (hcomponents : p.components = front ++ [last]) (hlast : last ≠ ".") :
    (p.ancestors = [⟨""⟩] ∧ front = [] ∧ p.isAbsolute = false) ∨
      ∃ first rest, p.ancestors = ofSegments first rest :: above first rest ∧
        front = ofWords (first :: rest.reverse) ∧ '/' ∉ first ∧ (∀ word ∈ rest, '/' ∉ word) ∧
        p.isAbsolute = decide (first = []) := by
  obtain ⟨first, segments, -, hwords, hancestors, hfirst, hsegments, habsolute⟩ := p.exists_segments
  have habsolute := habsolute (text_ne_empty_of_concat hcomponents)
  obtain ⟨idle, hsplit, hidle⟩ := exists_idle segments.reverse
  rw [List.reverse_reverse] at hsplit
  rw [hsplit, ← List.cons_append, ofWords_append] at hwords
  have hnil := ofWords_idle_eq_nil hidle hlast (hwords.symm.trans hcomponents)
  rw [hnil, List.append_nil, hcomponents] at hwords
  rw [← above_dropWhile] at hancestors
  cases hrest : segments.reverse.dropWhile isIdle with
  | nil =>
    rw [hrest] at hancestors hwords
    by_cases hempty : first = []
    · simp [hempty, ofWords] at hwords
    · have hsingle : front ++ [last] = [] ++ [String.ofList first] := by
        simpa [ofWords, hempty] using hwords
      refine .inl ⟨by simp [hancestors, above, hempty], (List.append_inj' hsingle rfl).1, ?_⟩
      simp [habsolute, hempty]
  | cons word rest =>
    have hactive : ¬ isIdle word = true := by
      have := List.head?_dropWhile_not isIdle segments.reverse
      simp only [hrest, List.head?_cons] at this
      simpa using this
    have hrest' : ∀ w ∈ rest, '/' ∉ w := by
      intro w hw
      have hmem : w ∈ segments.reverse.dropWhile isIdle := by simp [hrest, hw]
      exact hsegments w (List.mem_reverse.mp ((List.dropWhile_sublist _).subset hmem))
    rw [hrest, above, if_neg hactive] at hancestors
    refine .inr ⟨first, rest, hancestors, ?_, hfirst, hrest', habsolute⟩
    have hword : word ≠ [] := by
      rintro rfl
      simp [isIdle] at hactive
    have hsingle : ofWords [word] = [String.ofList word] := by simp [ofWords, hword]
    rw [hrest, List.reverse_cons, ← List.cons_append, ofWords_append, hsingle] at hwords
    exact (List.append_inj' hwords rfl).1

end HostPath

namespace Host

variable {h : Host} {p : HostPath} {front : List String} {last : String}

lemma start_eq_of_isAbsolute {q : HostPath} (habsolute : q.isAbsolute = p.isAbsolute) :
    h.start q = h.start p := by
  simp [start, habsolute]

/-- Without a file on the way to the last name of a path, all directories on that way can be
made. -/
lemma makeParents_ok (hfits : p.Fits) (hcomponents : p.components = front ++ [last])
    (hlast : last ≠ ".") (hstart : h.layout (h.start p) = some .folder)
    (hfree : h.NoFile (route (h.start p) front)) :
    ∃ made, h.makeParents p = (.ok (), made) ∧ made.AllFolders (route (h.start p) front) := by
  rw [makeParents_eq]
  rcases HostPath.ancestors_cases hcomponents hlast with
    ⟨hancestors, rfl, -⟩ | ⟨first, rest, hancestors, rfl, hfirst, hrest, habsolute⟩
  · refine ⟨h, by simp [hancestors, makeChain], fun place hplace => ?_⟩
    obtain rfl : place = h.start p := by simpa [route] using hplace
    exact hstart
  · rw [if_neg (by simp [hancestors]), hancestors]
    have hstartEq : h.start (HostPath.ofSegments first rest) = h.start p :=
      start_eq_of_isAbsolute ((HostPath.isAbsolute_ofSegments hfirst).trans habsolute.symm)
    rw [← hstartEq] at hstart hfree ⊢
    obtain ⟨made, hmade, hall⟩ := makeChain_ok hfirst hrest
      (fun q hq => HostPath.fits_of_mem_ancestors hfits (hancestors ▸ hq)) hstart
      (hfree.mono fun place => (mem_route_ofSegments hfirst hrest).mp)
    exact ⟨made, hmade,
      fun place hplace => hall place ((mem_route_ofSegments hfirst hrest).mpr hplace)⟩

/-- Making the parents of a path that ends with a name makes nothing at the place of that name. -/
lemma grows_makeParents_front (hcomponents : p.components = front ++ [last]) (hlast : last ≠ ".") :
    h.Grows (h.makeParents p).2 (route (h.start p) front) := by
  rw [makeParents_eq]
  rcases HostPath.ancestors_cases hcomponents hlast with
    ⟨hancestors, rfl, -⟩ | ⟨first, rest, hancestors, rfl, hfirst, hrest, habsolute⟩
  · simpa [hancestors, makeChain] using Grows.refl h _
  · rw [if_neg (by simp [hancestors]), hancestors]
    have hstartEq : h.start (HostPath.ofSegments first rest) = h.start p :=
      start_eq_of_isAbsolute ((HostPath.isAbsolute_ofSegments hfirst).trans habsolute.symm)
    refine (grows_makeChain h _).mono fun place hplace => ?_
    obtain ⟨q, hq, rfl⟩ := List.mem_map.mp hplace
    obtain ⟨hq, hne⟩ := List.mem_filter.mp hq
    rw [← hstartEq]
    exact h.goal_mem_route_ofWords hfirst hrest hq (by simpa using hne)

end Host

end CommitStore
