import CommitStore.Proofs.Host.Limits
import CommitStore.Proofs.Host.Ways

/-!
# Reading a tree that has grown

In a tree that has grown by directories every path is followed as before, up to the first place
where something was missing.  So only a path that was reported missing can be answered differently,
which is `Host.Grows.lookup_cases`.  A tree can only grow on the way to a path that is not too long
itself, or whose nearest parent is not (`Host.isLong_of_makeParents`).
-/

namespace CommitStore

namespace Host

variable {h h₁ h₂ : Host} {p : HostPath} {places : List (List String)}
  {names components : List String}

/-! ## Following and looking up -/

/-- What a path finds is told by following it and by what stands at its end. -/
lemma map_entry_lookup (hcheck : p.check = .ok ()) : (h.lookup p).map Node.entry =
    (h.follow (h.start p) p.components).bind fun result =>
      (h.layout result).elim (.error .missing) fun entry =>
        if entry ≠ .folder ∧ p.asksDirectory = true then .error .notDirectory else .ok entry := by
  rw [lookup_of_check hcheck]
  cases h.follow (h.start p) p.components with
  | error e => rfl
  | ok result =>
    simp only [Except.bind]
    cases hnode : h.get? result with
    | none => simp [layout_eq_none_iff.mpr hnode, Except.map]
    | some node =>
      cases node with
      | folder entries => simp [layout_eq_folder_iff.mpr ⟨entries, hnode⟩, Except.map, Node.entry]
      | file content =>
        cases hasks : p.asksDirectory <;>
          simp [layout_eq_file_iff.mpr hnode, Except.map, Node.entry]

lemma eq_error_of_map_entry {e : HostError} {found found' : Except HostError Node}
    (hsame : found'.map Node.entry = found.map Node.entry) (hfound : found = .error e) :
    found' = .error e := by
  subst hfound
  cases found' with
  | error e' => exact congrArg Except.error (Except.error.inj hsame)
  | ok node => cases hsame

lemma exists_folder_of_map_entry {inside : Directory} {found found' : Except HostError Node}
    (hsame : found'.map Node.entry = found.map Node.entry) (hfound : found = .ok (.folder inside)) :
    ∃ inside', found' = .ok (.folder inside') := by
  subst hfound
  cases found' with
  | error e => cases hsame
  | ok node =>
    cases node with
    | file content => cases hsame
    | folder inside' => exact ⟨inside', rfl⟩

/-- A path that fails before anything is looked up finds nothing on any host. -/
lemma lookup_of_check_error {e : HostError} (hcheck : p.check = .error e) :
    h.lookup p = .error e := by
  simp [lookup, locate, hcheck, bind, Except.bind, Except.map]

/-- The end of a path is told by what stands at the places that it leads through. -/
lemma follow_congr (hroute : ∀ place ∈ route names components, h₂.layout place = h₁.layout place) :
    h₂.follow names components = h₁.follow names components := by
  induction components generalizing names with
  | nil => rfl
  | cons c rest ih =>
    have hrest := ih fun place hplace => hroute place (List.mem_cons_of_mem names hplace)
    have hnext : h₂.layout (turn names c) = h₁.layout (turn names c) :=
      hroute _ (List.mem_cons_of_mem names (self_mem_route _ _))
    rw [follow_cons, follow_cons, hroute names List.mem_cons_self]
    by_cases hdot : c = "."
    · rw [turn, if_pos hdot] at hrest
      rw [if_pos hdot, if_pos hdot, hrest]
    by_cases hup : c = ".."
    · rw [turn, if_neg hdot, if_pos hup] at hrest
      simp only [if_neg hdot, if_pos hup, hrest]
    rw [turn, if_neg hdot, if_neg hup] at hrest hnext
    simp only [if_neg hdot, if_neg hup, hnext, hrest]

/-- Only the places that a path leads through decide what it finds. -/
lemma lookup_congr (hstart : h₂.start p = h₁.start p)
    (hroute : ∀ place ∈ route (h₁.start p) p.components, h₂.layout place = h₁.layout place) :
    (h₂.lookup p).map Node.entry = (h₁.lookup p).map Node.entry := by
  cases hcheck : p.check with
  | error e => rw [lookup_of_check_error hcheck, lookup_of_check_error hcheck]
  | ok _ =>
    rw [map_entry_lookup hcheck, map_entry_lookup hcheck, hstart, follow_congr hroute]
    cases hfollow : h₁.follow (h₁.start p) p.components with
    | error e => rfl
    | ok result =>
      have hresult : result ∈ route (h₁.start p) p.components :=
        follow_eq_settle hfollow ▸ settle_mem_route _ _
      simp only [Except.bind, hroute result hresult]

namespace Grows

variable (hg : h₁.Grows h₂ places)
include hg

/-- What stood somewhere stands there still, and nothing else does. -/
lemma layout_of_ne_none (hsome : h₁.layout names ≠ none) : h₂.layout names = h₁.layout names :=
  (hg.layout names).resolve_right fun hnew => hsome hnew.1

/-- A path ends where it ended, or something was missing on it. -/
lemma follow_cases (hhere : h₁.layout names ≠ none) :
    h₂.follow names components = h₁.follow names components ∨
      h₁.follow names components = .error .missing := by
  induction components generalizing names with
  | nil => exact .inl rfl
  | cons c rest ih =>
    rw [follow_cons, follow_cons, hg.layout_of_ne_none hhere]
    by_cases hfile : h₁.layout names ≠ some .folder
    · exact .inl (by rw [if_neg hfile, if_neg hfile])
    rw [if_pos (not_not.mp hfile), if_pos (not_not.mp hfile)]
    by_cases hdot : c = "."
    · rw [if_pos hdot, if_pos hdot]
      exact ih hhere
    by_cases hup : c = ".."
    · simp only [if_neg hdot, if_pos hup]
      exact ih (layout_dropLast hhere)
    simp only [if_neg hdot, if_neg hup]
    cases isLongName c with
    | true => exact .inl rfl
    | false =>
      by_cases hnext : h₁.layout (names ++ [c]) = none
      · exact .inr (by simp [hnext])
      · simp only [hg.layout_of_ne_none hnext, hnext, if_false, Bool.false_eq_true]
        exact ih hnext

lemma lookup_cases (hstart : h₁.layout (h₁.start p) ≠ none) :
    (h₂.lookup p).map Node.entry = (h₁.lookup p).map Node.entry ∨
      h₁.lookup p = .error .missing := by
  cases hcheck : p.check with
  | error e => exact .inl (by rw [lookup_of_check_error hcheck, lookup_of_check_error hcheck])
  | ok _ =>
    have hfollow : h₂.follow (h₁.start p) p.components = h₁.follow (h₁.start p) p.components ∨
        h₁.follow (h₁.start p) p.components = .error .missing := hg.follow_cases hstart
    rcases hfollow with hsame | hmissing
    · left
      rw [map_entry_lookup hcheck, map_entry_lookup hcheck, hg.start, hsame]
      cases hfollow : h₁.follow (h₁.start p) p.components with
      | error e => rfl
      | ok result => simp only [Except.bind, hg.layout_of_ne_none (follow_ne_none hfollow hstart)]
    · right
      rw [lookup_of_check hcheck, hmissing]
      rfl

end Grows

/-! ## Directories that were made -/

/-- Where no directory is new, the host is the one it was. -/
lemma makeChain_cases (h : Host) (chain : List HostPath) : (h.makeChain chain).2 = h ∨
    ∃ place, h.layout place = none ∧ (h.makeChain chain).2.layout place = some .folder := by
  refine makeChain_keeps (fun k => k = h ∨ ∃ place, h.layout place = none ∧
    k.layout place = some .folder) (fun q _ _ k k' hk hmade => .inr ?_) (.inl rfl)
  rcases hk with rfl | ⟨place, hnone, hfolder⟩
  · obtain ⟨hfree, hbecomes⟩ := makeDirectory_ok hmade
    exact ⟨_, hfree, by rw [hbecomes.layout, Layout.plant_self, Layout.ofFolder_nil]⟩
  · exact ⟨place, hnone, (grows_makeDirectory hmade).layout_of_some hfolder⟩

/-- Where no parent is new, the host is the one it was. -/
lemma makeParents_cases (h : Host) (p : HostPath) : (h.makeParents p).2 = h ∨
    ∃ place, h.layout place = none ∧ (h.makeParents p).2.layout place = some .folder := by
  rw [makeParents_eq]
  split
  · exact .inl rfl
  · exact h.makeChain_cases p.ancestors

/-- A path that is too long stops the making of directories at once. -/
lemma makeChain_of_isLong (hlong : p.isLong = true) (parents : List HostPath) :
    (h.makeChain (p :: parents)).2 = h := by
  rw [makeChain]
  split
  · rfl
  obtain ⟨e, he, hcheck⟩ := HostPath.check_of_isLong hlong
  have hmake : h.makeDirectory p = .error e := by
    simp [makeDirectory, place, hcheck, bind, Except.bind]
  rw [hmake]
  split
  · rename_i heq
    cases heq
  · rename_i heq
    exact absurd (Except.error.inj heq) he
  · split <;> rfl

end Host

/-! ## The nearest directory above a path -/

namespace HostPath

lemma exists_splitAt_push {name : String} (hname : IsComponent name) (p : HostPath) :
    ∃ before, Text.splitAt '/' (p.push name).text.toList = before ++ [name.toList] := by
  have hsingle := Text.splitAt_of_not_mem hname.2
  unfold push
  by_cases hempty : p.text = ""
  · exact ⟨[], by simp [hempty, hsingle]⟩
  by_cases hasks : p.asksDirectory = true
  · obtain ⟨front, hfront⟩ : ∃ front, p.text.toList = front ++ ['/'] :=
      List.getLast?_eq_some_iff.mp (by simpa [asksDirectory] using hasks)
    refine ⟨Text.splitAt '/' front, ?_⟩
    rw [if_pos (.inr hasks), String.toList_append, hfront, List.append_assoc, List.singleton_append,
      Text.splitAt_append_cons, hsingle]
  · refine ⟨Text.splitAt '/' p.text.toList, ?_⟩
    rw [if_neg (by simp [hempty, hasks]), String.toList_append, String.toList_append,
      List.append_assoc]
    show Text.splitAt '/' (p.text.toList ++ '/' :: name.toList) = _
    rw [Text.splitAt_append_cons, hsingle]

lemma parent?_push_push {p : HostPath} {a b : String} (ha : IsComponent a) (hdot : a ≠ ".")
    (hb : IsComponent b) (hdot' : b ≠ ".") : ((p.push a).push b).parent? = some (p.push a) := by
  obtain ⟨before, hbefore⟩ := exists_splitAt_push ha p
  have hsplit : Text.splitAt '/' ((p.push a).push b).text.toList =
      Text.splitAt '/' (p.push a).text.toList ++ [b.toList] := by
    rw [push, if_neg (by simp [text_push_ne_empty ha, asksDirectory_push ha]), String.toList_append,
      String.toList_append, List.append_assoc]
    show Text.splitAt '/' (_ ++ '/' :: b.toList) = _
    rw [Text.splitAt_append_cons, Text.splitAt_of_not_mem hb.2]
  have hactive : ∀ {name : String}, IsComponent name → name ≠ "." → isIdle name.toList = false := by
    intro name hname hne
    have hdots : name.toList ≠ ['.'] := fun heq => hne (String.toList_inj.mp (by simpa using heq))
    simp [isIdle, hname.1, hdots]
  have hjoin := Text.joinWith_splitAt '/' (p.push a).text.toList
  rw [parent?, ancestors, hsplit, hbefore]
  rw [hbefore] at hjoin
  cases before with
  | nil =>
    have htext : p.push a = ⟨a⟩ := by
      rw [List.nil_append, Text.joinWith] at hjoin
      exact congrArg HostPath.mk (String.toList_inj.mp hjoin.symm)
    simp [above, hactive hb hdot', ofSegments, htext, ha.1]
  | cons first before =>
    have htext : ofSegments first (a.toList :: before.reverse) = p.push a := by
      have hreverse : ((a.toList :: before.reverse).dropWhile isIdle).reverse =
          before ++ [a.toList] := by
        simp [hactive ha hdot]
      unfold ofSegments
      split
      · rename_i hnil
        simp [hactive ha hdot] at hnil
      · rw [hreverse, ← List.cons_append, hjoin, String.ofList_toList]
    simp [above, hactive hb hdot', htext]

end HostPath

namespace Host

/-- When parents of a path have been made, the nearest one is not too long. -/
lemma isLong_of_makeParents {h : Host} {p q : HostPath} (hparent : p.parent? = some q)
    (hmade : (h.makeParents p).2 ≠ h) : q.isLong = false := by
  rw [Bool.eq_false_iff]
  intro hlong
  refine hmade ?_
  rw [makeParents, hparent]
  exact makeChain_of_isLong hlong q.ancestors

end Host

end CommitStore
