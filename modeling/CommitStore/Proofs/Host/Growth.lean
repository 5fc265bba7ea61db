import CommitStore.Proofs.Host.Effect

/-!
# Making directories

Making a directory with its missing parents may stop half-way, but whatever happens the tree only
grows: what stood somewhere stands there still, and what is new is a directory at a place that the
path leads through.  `Host.Grows` says so for a set of places, and `Host.grows_makeParents` for the
route of a path.
-/

namespace CommitStore

namespace Host

variable {h h₁ h₂ h₃ : Host} {p : HostPath}

/-- What stands at a place stands there still, and if nothing stood there, at most a directory is
new. -/
def Keeps (h h' : Host) (names : List String) : Prop :=
  h'.layout names = h.layout names ∨ (h.layout names = none ∧ h'.layout names = some .folder)

namespace Keeps

variable {names : List String}

lemma of_layout {h h' : Host} {grown : Prop}
    (hl : h'.layout names = h.layout names ∨
      (h.layout names = none ∧ h'.layout names = some .folder ∧ grown)) : h.Keeps h' names :=
  hl.imp_right fun ⟨hnone, hfolder, _⟩ => ⟨hnone, hfolder⟩

lemma some {h h' : Host} {entry : Entry} (hk : h.Keeps h' names)
    (hentry : h.layout names = .some entry) : h'.layout names = .some entry := by
  rcases hk with hsame | ⟨hnone, -⟩
  · rw [hsame, hentry]
  · rw [hentry] at hnone
    cases hnone

lemma noFile {h h' : Host} (hk : h.Keeps h' names)
    (hfree : ∀ content, h.layout names ≠ .some (.file content)) (content : ByteArray) :
    h'.layout names ≠ .some (.file content) := by
  rcases hk with hsame | ⟨-, hfolder⟩
  · rw [hsame]
    exact hfree content
  · simp [hfolder]

end Keeps

/-- Nothing that stood anywhere has changed, and what is new are directories at some of the
places. -/
structure Grows (h h' : Host) (places : List (List String)) : Prop where
  workingDirectory : h'.workingDirectory = h.workingDirectory
  wellFormed : h.tree.WellFormed → h'.tree.WellFormed
  layout : ∀ names, h'.layout names = h.layout names ∨
    (h.layout names = none ∧ h'.layout names = some .folder ∧ names ∈ places)

namespace Grows

variable {places : List (List String)}

lemma refl (h : Host) (places : List (List String)) : h.Grows h places :=
  ⟨rfl, id, fun _ => .inl rfl⟩

lemma trans (h₁₂ : h₁.Grows h₂ places) (h₂₃ : h₂.Grows h₃ places) : h₁.Grows h₃ places where
  workingDirectory := h₂₃.workingDirectory.trans h₁₂.workingDirectory
  wellFormed hwf := h₂₃.wellFormed (h₁₂.wellFormed hwf)
  layout names := by
    rcases h₁₂.layout names with h₂ | ⟨hnone, hfolder, hmem⟩
    · rcases h₂₃.layout names with h₃ | ⟨hnone, hfolder, hmem⟩
      · exact .inl (h₃.trans h₂)
      · exact .inr ⟨h₂ ▸ hnone, hfolder, hmem⟩
    · rcases h₂₃.layout names with h₃ | ⟨hnone', -, -⟩
      · exact .inr ⟨hnone, h₃.trans hfolder, hmem⟩
      · rw [hfolder] at hnone'
        cases hnone'

lemma mono {places' : List (List String)} (hg : h₁.Grows h₂ places)
    (hsub : ∀ place ∈ places, place ∈ places') : h₁.Grows h₂ places' where
  workingDirectory := hg.workingDirectory
  wellFormed := hg.wellFormed
  layout names := (hg.layout names).imp_right fun ⟨hnone, hfolder, hmem⟩ =>
    ⟨hnone, hfolder, hsub names hmem⟩

lemma start (hg : h₁.Grows h₂ places) (p : HostPath) : h₂.start p = h₁.start p :=
  start_of_workingDirectory hg.workingDirectory p

lemma goal (hg : h₁.Grows h₂ places) (p : HostPath) : h₂.goal p = h₁.goal p := by
  simp [Host.goal, hg.start]

lemma layout_of_some (hg : h₁.Grows h₂ places) {names : List String} {entry : Entry}
    (hentry : h₁.layout names = some entry) : h₂.layout names = some entry := by
  rcases hg.layout names with hsame | ⟨hnone, -, -⟩
  · rw [hsame, hentry]
  · rw [hentry] at hnone
    cases hnone

/-- No file is new. -/
lemma file_iff (hg : h₁.Grows h₂ places) {names : List String} {content : ByteArray} :
    h₂.layout names = some (.file content) ↔ h₁.layout names = some (.file content) := by
  refine ⟨fun hfile => ?_, hg.layout_of_some⟩
  rcases hg.layout names with hsame | ⟨-, hfolder, -⟩
  · rw [← hsame, hfile]
  · rw [hfile] at hfolder
    cases hfolder

/-- Away from the given places nothing has changed. -/
lemma layout_elsewhere (hg : h₁.Grows h₂ places) {names : List String} (hnot : names ∉ places) :
    h₂.layout names = h₁.layout names := by
  rcases hg.layout names with hsame | ⟨-, -, hmem⟩
  · exact hsame
  · exact absurd hmem hnot

end Grows

/-- Making a directory grows the tree at the place that the path leads to. -/
lemma grows_makeDirectory {h' : Host} (hm : h.makeDirectory p = .ok h') :
    h.Grows h' [h.goal p] := by
  obtain ⟨hnone, hbecomes⟩ := makeDirectory_ok hm
  refine ⟨hbecomes.workingDirectory, hbecomes.wellFormed, fun names => ?_⟩
  rw [hbecomes.layout]
  by_cases hprefix : h.goal p <+: names
  · obtain ⟨rest, rfl⟩ := hprefix
    rw [Layout.plant_below]
    cases rest with
    | nil => exact .inr (by simpa using hnone)
    | cons name rest =>
      left
      by_contra hchange
      have hbelow : h.layout (h.goal p ++ name :: rest) ≠ none := by
        simpa [Layout.ofFolder, eq_comm] using hchange
      rw [layout_of_append (List.cons_ne_nil _ _) hbelow] at hnone
      cases hnone
  · exact .inl (Layout.plant_elsewhere hprefix)

/-- What is kept whenever one of some directories is made is kept when a chain of them is made,
however far that comes. -/
lemma makeChain_keeps (P : Host → Prop) {chain : List HostPath}
    (hstep : ∀ q ∈ chain, q.text ≠ "" → ∀ k k', P k → k.makeDirectory q = .ok k' → P k')
    (hstart : P h) : P (h.makeChain chain).2 := by
  induction chain generalizing h with
  | nil => exact hstart
  | cons p parents ih =>
    have hbetween := ih (fun q hq => hstep q (List.mem_cons_of_mem _ hq)) hstart
    rw [makeChain]
    split
    · exact hstart
    rename_i hne
    have hlast := hstep p List.mem_cons_self hne
    split
    · rename_i made hmade
      exact hlast _ _ hstart hmade
    · split
      · rename_i e between hchain
        rwa [hchain] at hbetween
      · rename_i between hchain
        rw [hchain] at hbetween
        split
        · rename_i made hmade
          exact hlast _ _ hbetween hmade
        · split <;> exact hbetween
    · split <;> exact hstart

/-- Making a chain of directories grows the tree at the places of the chain. -/
lemma grows_makeChain (h : Host) (chain : List HostPath) :
    h.Grows (h.makeChain chain).2 ((chain.filter fun q => q.text ≠ "").map h.goal) := by
  refine makeChain_keeps (h.Grows · _) (fun q hq hne k k' hk hmade => hk.trans ?_) (.refl h _)
  have hlast := grows_makeDirectory hmade
  rw [hk.goal] at hlast
  refine hlast.mono fun place hplace => ?_
  obtain rfl := List.mem_singleton.mp hplace
  exact List.mem_map_of_mem (List.mem_filter.mpr ⟨hq, by simpa using hne⟩)

end Host

/-! ## The directories above a path -/

namespace HostPath

/-- The components that some segments of a path make up. -/
def ofWords (words : List (List Char)) : List String :=
  (words.filter (· ≠ [])).map String.ofList

lemma components_eq (p : HostPath) : p.components = ofWords (Text.splitAt '/' p.text.toList) := rfl

lemma ofWords_append (a b : List (List Char)) : ofWords (a ++ b) = ofWords a ++ ofWords b := by
  simp [ofWords]

lemma isIdle_iff {word : List Char} : isIdle word = true ↔ word = [] ∨ word = ['.'] := by
  simp [isIdle]

lemma eq_dot_of_mem_ofWords {words : List (List Char)} (hidle : ∀ word ∈ words, isIdle word = true)
    {c : String} (hc : c ∈ ofWords words) : c = "." := by
  simp only [ofWords, List.mem_map, List.mem_filter] at hc
  obtain ⟨word, ⟨hword, hne⟩, rfl⟩ := hc
  rcases isIdle_iff.mp (hidle word hword) with rfl | rfl
  · simp at hne
  · rfl

lemma settle_dots {components : List String} (hdots : ∀ c ∈ components, c = ".")
    (names : List String) : settle names components = names := by
  induction components with
  | nil => rfl
  | cons c components ih =>
    have hc : c = "." := hdots c List.mem_cons_self
    rw [settle_cons, hc]
    simpa [turn] using ih fun d hd => hdots d (List.mem_cons_of_mem _ hd)

lemma settle_ofWords_idle {words : List (List Char)} (hidle : ∀ word ∈ words, isIdle word = true)
    (names : List String) : settle names (ofWords words) = names :=
  settle_dots (fun _ => eq_dot_of_mem_ofWords hidle) names

lemma exists_idle (segments : List (List Char)) : ∃ idle,
    segments.reverse = (segments.dropWhile isIdle).reverse ++ idle ∧
      ∀ word ∈ idle, isIdle word = true := by
  refine ⟨(segments.takeWhile isIdle).reverse, ?_, fun word hword => ?_⟩
  · rw [← List.reverse_append, List.takeWhile_append_dropWhile]
  · exact List.all_eq_true.mp List.all_takeWhile word (List.mem_reverse.mp hword)

section Segments

variable {first : List Char} {segments : List (List Char)}

lemma splitAt_ofSegments (hfirst : '/' ∉ first) (hsegments : ∀ word ∈ segments, '/' ∉ word)
    (hsome : first ≠ [] ∨ segments.dropWhile isIdle ≠ []) :
    Text.splitAt '/' (ofSegments first segments).text.toList =
      first :: (segments.dropWhile isIdle).reverse := by
  unfold ofSegments
  split
  · rename_i hnil
    have hne : first ≠ [] := by simpa [hnil] using hsome
    simp [hne, Text.splitAt_of_not_mem hfirst, hnil]
  · rename_i hcons
    have hsep : ∀ word ∈ first :: (segments.dropWhile isIdle).reverse, '/' ∉ word := by
      intro word hword
      rcases List.mem_cons.mp hword with rfl | hword
      · exact hfirst
      · exact hsegments word ((List.dropWhile_sublist _).subset (List.mem_reverse.mp hword))
    simpa using Text.splitAt_joinWith (List.cons_ne_nil _ _) hsep

lemma components_ofSegments (hfirst : '/' ∉ first) (hsegments : ∀ word ∈ segments, '/' ∉ word) :
    (ofSegments first segments).components =
      ofWords (first :: (segments.dropWhile isIdle).reverse) := by
  rw [components_eq]
  by_cases hsome : first ≠ [] ∨ segments.dropWhile isIdle ≠ []
  · rw [splitAt_ofSegments hfirst hsegments hsome]
  · obtain ⟨rfl, hnil⟩ : first = [] ∧ segments.dropWhile isIdle = [] := by simpa using hsome
    simp [ofSegments, hnil, ofWords, Text.splitAt]

/-- A path that is put together from segments leads where the segments lead. -/
lemma settle_components_ofSegments (hfirst : '/' ∉ first)
    (hsegments : ∀ word ∈ segments, '/' ∉ word) (names : List String) :
    settle names (ofSegments first segments).components =
      settle names (ofWords (first :: segments.reverse)) := by
  obtain ⟨idle, hsplit, hidle⟩ := exists_idle segments
  rw [components_ofSegments hfirst hsegments, hsplit, ← List.cons_append, ofWords_append,
    settle_append, settle_ofWords_idle hidle]

lemma isAbsolute_ofSegments (hfirst : '/' ∉ first) :
    (ofSegments first segments).isAbsolute = decide (first = []) := by
  cases first with
  | nil =>
    unfold ofSegments
    split
    · simp [isAbsolute]
    · rename_i hcons
      have hne : (segments.dropWhile isIdle).reverse ≠ [] := by simpa using hcons
      rw [isAbsolute, Text.joinWith_cons_of_ne_nil _ _ hne]
      simp
  | cons c rest =>
    have hc : c ≠ '/' := fun h => hfirst (by simp [h])
    unfold ofSegments
    split
    · simp [isAbsolute, hc]
    · rename_i hcons
      have hne : (segments.dropWhile isIdle).reverse ≠ [] := by simpa using hcons
      rw [isAbsolute, Text.joinWith_cons_of_ne_nil _ _ hne]
      simp [hc]

lemma above_dropWhile (start : List Char) (words : List (List Char)) :
    above start (words.dropWhile isIdle) = above start words := by
  induction words with
  | nil => rfl
  | cons word words ih =>
    by_cases hidle : isIdle word
    · simp [hidle, above, ih]
    · simp [hidle]

/-- The directories above a path that is put together from segments. -/
lemma ancestors_ofSegments (hfirst : '/' ∉ first) (hsegments : ∀ word ∈ segments, '/' ∉ word) :
    (ofSegments first segments).ancestors = above first segments := by
  by_cases hsome : first ≠ [] ∨ segments.dropWhile isIdle ≠ []
  · rw [ancestors, splitAt_ofSegments hfirst hsegments hsome]
    simpa using above_dropWhile first segments
  · obtain ⟨rfl, hnil⟩ : first = [] ∧ segments.dropWhile isIdle = [] := by simpa using hsome
    rw [← above_dropWhile [] segments, hnil]
    simp [ofSegments, hnil, ancestors, Text.splitAt, above, isIdle]

/-- Every path above is the empty path or is put together from some of the segments. -/
lemma mem_above {q : HostPath} (hq : q ∈ above first segments) :
    (q.text = "" ∧ first ≠ []) ∨ ∃ front, front <:+ segments ∧ q = ofSegments first front := by
  induction segments with
  | nil =>
    by_cases hempty : first = []
    · simp [above, hempty] at hq
    · obtain rfl : q = ⟨""⟩ := by simpa [above, hempty] using hq
      exact .inl ⟨rfl, hempty⟩
  | cons word segments ih =>
    have hmore : q ∈ above first segments →
        (q.text = "" ∧ first ≠ []) ∨ ∃ front, front <:+ word :: segments ∧
        q = ofSegments first front :=
      fun h => (ih h).imp_right fun ⟨front, hfront, hq⟩ =>
        ⟨front, hfront.trans (List.suffix_cons word segments), hq⟩
    rw [above] at hq
    split at hq
    · exact hmore hq
    · rcases List.mem_cons.mp hq with rfl | hq
      · exact .inr ⟨segments, List.suffix_cons word segments, rfl⟩
      · exact hmore hq

/-- The directories above the nearest one above a path are the next ones above the path. -/
lemma ancestors_of_above (hfirst : '/' ∉ first) (hsegments : ∀ word ∈ segments, '/' ∉ word)
    {q : HostPath} {qs : List HostPath} (h : above first segments = q :: qs) :
    q.ancestors = qs := by
  induction segments with
  | nil =>
    by_cases hempty : first = []
    · simp [above, hempty] at h
    · obtain ⟨rfl, rfl⟩ : (⟨""⟩ : HostPath) = q ∧ [] = qs := by simpa [above, hempty] using h
      rfl
  | cons word segments ih =>
    have hrest : ∀ w ∈ segments, '/' ∉ w := fun w hw => hsegments w (List.mem_cons_of_mem _ hw)
    rw [above] at h
    split at h
    · exact ih hrest h
    · obtain ⟨rfl, rfl⟩ := List.cons.inj h
      exact ancestors_ofSegments hfirst hrest

end Segments

/-- The segments of a path, none of which holds a separator.  The path is absolute if the first one
is empty and there are more. -/
lemma exists_segments (p : HostPath) : ∃ first segments,
    p.text.toList = Text.joinWith '/' (first :: segments) ∧
      p.components = ofWords (first :: segments) ∧
      p.ancestors = above first segments.reverse ∧
      '/' ∉ first ∧ (∀ word ∈ segments, '/' ∉ word) ∧
      (p.text ≠ "" → p.isAbsolute = decide (first = [])) := by
  have hjoin := Text.joinWith_splitAt '/' p.text.toList
  cases hs : Text.splitAt '/' p.text.toList with
  | nil => exact absurd hs (Text.splitAt_ne_nil _ _)
  | cons first segments =>
    rw [hs] at hjoin
    have hsep : ∀ word ∈ first :: segments, '/' ∉ word := fun word hword =>
      Text.not_mem_of_mem_splitAt (hs ▸ hword)
    refine ⟨first, segments, hjoin.symm, by rw [components_eq, hs], by rw [ancestors, hs],
      hsep first List.mem_cons_self, fun word hword => hsep word (List.mem_cons_of_mem _ hword), ?_⟩
    intro hne
    rw [isAbsolute, ← hjoin]
    cases segments with
    | nil =>
      cases first with
      | nil =>
        exact absurd (String.toList_eq_nil_iff.mp (by simpa [Text.joinWith] using hjoin.symm)) hne
      | cons c rest =>
        have hc : c ≠ '/' := fun h => hsep (c :: rest) List.mem_cons_self (by simp [h])
        simp [Text.joinWith, hc]
    | cons word segments =>
      cases first with
      | nil => simp [Text.joinWith]
      | cons c rest =>
        have hc : c ≠ '/' := fun h => hsep (c :: rest) List.mem_cons_self (by simp [h])
        simp [Text.joinWith, hc]

end HostPath

namespace Host

/-- Make the directories above a path as far as they are missing. -/
def makeParents (h : Host) (p : HostPath) : Except HostError Unit × Host :=
  p.parent?.elim (.ok (), h) h.makeDirectories

lemma makeParents_eq (h : Host) (p : HostPath) :
    h.makeParents p = if p.ancestors = [] then (.ok (), h) else h.makeChain p.ancestors := by
  obtain ⟨first, segments, -, -, hancestors, hfirst, hsegments, -⟩ := p.exists_segments
  rw [makeParents, HostPath.parent?]
  cases hcase : p.ancestors with
  | nil => rfl
  | cons q qs =>
    have hq : q.ancestors = qs :=
      HostPath.ancestors_of_above hfirst (by simpa using hsegments) (hancestors ▸ hcase)
    simp [makeDirectories, hq]

/-- The directory that some segments lead to and those above it are at places that the segments lead
through. -/
lemma goal_mem_route_ofWords (h : Host) {first : List Char} {segments : List (List Char)}
    {q : HostPath} (hfirst : '/' ∉ first) (hsegments : ∀ word ∈ segments, '/' ∉ word)
    (hq : q ∈ HostPath.ofSegments first segments :: HostPath.above first segments)
    (hne : q.text ≠ "") :
    h.goal q ∈ route (h.start (HostPath.ofSegments first segments))
      (HostPath.ofWords (first :: segments.reverse)) := by
  obtain ⟨front, ⟨more, hmore⟩, rfl⟩ : ∃ front, front <:+ segments ∧
      q = HostPath.ofSegments first front := by
    rcases List.mem_cons.mp hq with rfl | hq
    · exact ⟨segments, List.suffix_refl _, rfl⟩
    · exact (HostPath.mem_above hq).resolve_left fun hempty => hne hempty.1
  have hfront : ∀ word ∈ front, '/' ∉ word := fun word hword =>
    hsegments word (hmore ▸ List.mem_append_right more hword)
  have hstart : h.start (HostPath.ofSegments first front) =
      h.start (HostPath.ofSegments first segments) := by
    simp [start, HostPath.isAbsolute_ofSegments hfirst]
  rw [goal, hstart, HostPath.settle_components_ofSegments hfirst hfront]
  refine mem_route_iff.mpr ⟨_, ?_, rfl⟩
  rw [← hmore, List.reverse_append, ← List.cons_append, HostPath.ofWords_append]
  exact List.prefix_append _ _

lemma goal_mem_route (h : Host) {p q : HostPath} (hq : q ∈ p.ancestors) (hne : q.text ≠ "") :
    h.goal q ∈ route (h.start p) p.components := by
  obtain ⟨first, segments, -, hcomponents, hancestors, hfirst, hsegments, habsolute⟩ :=
    p.exists_segments
  have hp : p.text ≠ "" := by
    rintro hempty
    rw [HostPath.ancestors, hempty] at hq
    simp [Text.splitAt, HostPath.above] at hq
  have hstart : h.start (HostPath.ofSegments first segments.reverse) = h.start p := by
    simp [start, HostPath.isAbsolute_ofSegments hfirst, habsolute hp]
  have hreverse : ∀ word ∈ segments.reverse, '/' ∉ word := by simpa using hsegments
  have hroute := h.goal_mem_route_ofWords hfirst hreverse
    (List.mem_cons_of_mem _ (hancestors ▸ hq)) hne
  rwa [hstart, List.reverse_reverse, ← hcomponents] at hroute

/-- Making the parents of a path grows the tree along the route of the path. -/
lemma grows_makeParents (h : Host) (p : HostPath) :
    h.Grows (h.makeParents p).2 (route (h.start p) p.components) := by
  rw [makeParents_eq]
  split
  · exact .refl h _
  · refine (grows_makeChain h p.ancestors).mono fun place hplace => ?_
    obtain ⟨q, hq, rfl⟩ := List.mem_map.mp hplace
    obtain ⟨hq, hne⟩ := List.mem_filter.mp hq
    exact h.goal_mem_route hq (by simpa using hne)

end Host

end CommitStore
