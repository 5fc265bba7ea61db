import CommitStore.Proofs.Host.Making
import CommitStore.Proofs.Host.Walk

/-!
# Names that the host can store

A path that resolves is within the limits of the host, and so is every name on it.  The operations
of the host therefore bring no name into the tree that is too long or holds a NUL character.  A tree
without such names, one with `Host.Sound`, stays without them.
-/

namespace CommitStore

namespace Text

/-- A segment holds no character that the text does not hold. -/
lemma mem_of_mem_splitAt {sep c : Char} {text word : List Char} (hword : word ∈ splitAt sep text)
    (hc : c ∈ word) : c ∈ text := by
  induction text generalizing word with
  | nil =>
    obtain rfl : word = [] := by simpa [splitAt] using hword
    exact hc
  | cons first rest ih =>
    by_cases hfirst : first = sep
    · rw [splitAt, if_pos hfirst] at hword
      rcases List.mem_cons.mp hword with rfl | hword
      · cases hc
      · exact List.mem_cons_of_mem _ (ih hword hc)
    · cases hs : splitAt sep rest with
      | nil => exact absurd hs (splitAt_ne_nil sep rest)
      | cons next words =>
        simp only [splitAt, hfirst, if_false, hs, List.mem_cons] at hword
        rcases hword with rfl | hword
        · rcases List.mem_cons.mp hc with rfl | hc
          · exact List.mem_cons_self
          · exact List.mem_cons_of_mem _ (ih (hs ▸ List.mem_cons_self) hc)
        · exact List.mem_cons_of_mem _ (ih (hs ▸ List.mem_cons_of_mem _ hword) hc)

/-- Every character of a text but the separator stands in a segment. -/
lemma exists_mem_splitAt {sep c : Char} {text : List Char} (hc : c ∈ text) (hsep : c ≠ sep) :
    ∃ word ∈ splitAt sep text, c ∈ word := by
  induction text with
  | nil => cases hc
  | cons first rest ih =>
    have hrest : c ≠ first → ∃ word ∈ splitAt sep rest, c ∈ word := fun hne =>
      ih ((List.mem_cons.mp hc).resolve_left hne)
    by_cases hfirst : first = sep
    · obtain ⟨word, hword, hmem⟩ := hrest (by rwa [hfirst])
      exact ⟨word, by simp [splitAt, hfirst, hword], hmem⟩
    · cases hs : splitAt sep rest with
      | nil => exact absurd hs (splitAt_ne_nil sep rest)
      | cons next words =>
        have hsplit : splitAt sep (first :: rest) = (first :: next) :: words := by
          simp only [splitAt, hfirst, if_false, hs]
        rw [hsplit]
        by_cases hhere : c = first
        · exact ⟨first :: next, List.mem_cons_self, by simp [hhere]⟩
        · obtain ⟨word, hword, hmem⟩ := hrest hhere
          rcases List.mem_cons.mp (hs ▸ hword) with rfl | hword
          · exact ⟨first :: word, List.mem_cons_self, List.mem_cons_of_mem _ hmem⟩
          · exact ⟨word, List.mem_cons_of_mem _ hword, hmem⟩

end Text

/-- A name within the limits of the host: not too long, and without a NUL character. -/
def IsStorable (name : String) : Prop := isLongName name = false ∧ '\x00' ∉ name.toList

instance (name : String) : Decidable (IsStorable name) := by unfold IsStorable; infer_instance

section Replicate

variable {n : Nat} {c : Char}

lemma utf8ByteSize_replicate (n : Nat) (hc : (String.ofList [c]).utf8ByteSize = 1) :
    (String.ofList (List.replicate n c)).utf8ByteSize = n := by
  induction n with
  | zero => rfl
  | succ n ih =>
    rw [List.replicate_succ, ← List.singleton_append, String.ofList_append,
      String.utf8ByteSize_append, ih, hc, Nat.add_comm]

lemma isEntryName_replicate (hn : n ≠ 0) (hdot : c ≠ '.') (hsep : c ≠ '/') :
    Directory.IsEntryName (String.ofList (List.replicate n c)) := by
  have hmem : ∀ d, d ∈ (String.ofList (List.replicate n c)).toList → d = c := fun d hd => by
    rw [String.toList_ofList] at hd
    exact List.eq_of_mem_replicate hd
  have hother : ∀ text : String, '.' ∈ text.toList → String.ofList (List.replicate n c) ≠ text := by
    rintro text hdots rfl
    exact hdot (hmem '.' hdots).symm
  refine ⟨by simpa using hn, hother "." (by decide), hother ".." (by decide),
    fun h => hsep (hmem _ h).symm⟩

lemma isStorable_replicate (hn : n ≤ HostPath.nameLimit) (hc : (String.ofList [c]).utf8ByteSize = 1)
    (hnul : c ≠ '\x00') : IsStorable (String.ofList (List.replicate n c)) := by
  refine ⟨?_, fun h => hnul ?_⟩
  · rw [isLongName, utf8ByteSize_replicate n hc]
    simpa using hn
  · rw [String.toList_ofList] at h
    exact (List.eq_of_mem_replicate h).symm

end Replicate

/-! ## The limits of a path -/

namespace HostPath

variable {p : HostPath}

lemma of_check (h : p.check = .ok ()) : p.hasNul = false ∧ p.text ≠ "" ∧ p.isLong = false := by
  unfold check at h
  split at h
  · cases h
  · rename_i hnul
    split at h
    · cases h
    · rename_i hempty
      split at h
      · cases h
      · rename_i hlong
        exact ⟨by simpa using hnul, hempty, by simpa using hlong⟩

lemma check_of_isLong (hlong : p.isLong = true) :
    ∃ e : HostError, e ≠ .missing ∧ p.check = .error e := by
  have hne : p.text ≠ "" := by
    intro hempty
    simp [isLong, hempty, limit] at hlong
  cases hnul : p.hasNul with
  | true => exact ⟨.badCharacter, by simp, by simp [check, hnul]⟩
  | false => exact ⟨.tooLong, by simp, by simp [check, hnul, hne, hlong]⟩

/-- The names on a path within the limits are within the limits. -/
lemma Fits.isStorable (hfits : p.Fits) {c : String} (hc : c ∈ p.components) : IsStorable c := by
  refine ⟨hfits.2.2 c hc, fun hmem => ?_⟩
  have hnot : '\x00' ∉ p.text.toList := by simpa [hasNul] using hfits.1
  simp only [components, List.mem_map, List.mem_filter] at hc
  obtain ⟨word, ⟨hword, -⟩, rfl⟩ := hc
  exact hnot (Text.mem_of_mem_splitAt hword (by simpa using hmem))

lemma fits_iff : p.Fits ↔ p.isLong = false ∧ ∀ c ∈ p.components, IsStorable c := by
  refine ⟨fun hfits => ⟨hfits.2.1, fun c hc => hfits.isStorable hc⟩, fun ⟨hlong, hstorable⟩ => ?_⟩
  refine ⟨?_, hlong, fun c hc => (hstorable c hc).1⟩
  by_contra hnul
  obtain ⟨word, hword, hmem⟩ :=
    Text.exists_mem_splitAt (by simpa [hasNul] using hnul : '\x00' ∈ p.text.toList)
      (by decide : '\x00' ≠ '/')
  have hcomponent : String.ofList word ∈ p.components :=
    List.mem_map_of_mem (List.mem_filter.mpr ⟨hword, by simpa using List.ne_nil_of_mem hmem⟩)
  exact (hstorable _ hcomponent).2 (by simpa using hmem)

/-- The number of bytes that some names, each after a separator, add to a path. -/
def pushedBytes (names : List String) : Nat :=
  names.foldr (fun name bytes => 1 + name.utf8ByteSize + bytes) 0

@[simp] lemma pushedBytes_nil : pushedBytes [] = 0 := rfl

@[simp] lemma pushedBytes_cons (name : String) (names : List String) :
    pushedBytes (name :: names) = 1 + name.utf8ByteSize + pushedBytes names := rfl

@[simp] lemma pushedBytes_append (names more : List String) :
    pushedBytes (names ++ more) = pushedBytes names + pushedBytes more := by
  induction names with
  | nil => simp
  | cons name names ih => simp [ih, Nat.add_assoc]

@[simp] lemma pushedBytes_replicate (n : Nat) (name : String) :
    pushedBytes (List.replicate n name) = n * (1 + name.utf8ByteSize) := by
  induction n with
  | zero => simp
  | succ n ih =>
    rw [List.replicate_succ, pushedBytes_cons, ih, Nat.succ_mul]
    omega

/-- How long a path is when names have been pushed onto it. -/
lemma utf8ByteSize_foldl_push {names : List String} (hnames : ∀ name ∈ names, IsComponent name)
    (hempty : p.text ≠ "") (hasks : p.asksDirectory = false) :
    (names.foldl push p).text.utf8ByteSize = p.text.utf8ByteSize + pushedBytes names := by
  induction names generalizing p with
  | nil => rfl
  | cons name names ih =>
    have hname := hnames name List.mem_cons_self
    have hpush : (p.push name).text.utf8ByteSize =
        p.text.utf8ByteSize + (1 + name.utf8ByteSize) := by
      have hslash : "/".utf8ByteSize = 1 := rfl
      simp only [push, hempty, hasks, or_self, if_false, Bool.false_eq_true,
        String.utf8ByteSize_append, hslash]
      omega
    rw [List.foldl_cons,
      ih (fun n hn => hnames n (List.mem_cons_of_mem _ hn)) (text_push_ne_empty hname)
      (asksDirectory_push hname), hpush, pushedBytes_cons, Nat.add_assoc]

end HostPath

namespace Host

variable {h h' : Host} {p source target : HostPath} {names components : List String} {last : String}

/-- No name that is followed is too long. -/
lemma short_of_follow {result : List String} (hf : h.follow names components = .ok result) :
    ∀ c ∈ components, isLongName c = false := by
  induction components generalizing names with
  | nil => simp
  | cons c rest ih =>
    refine List.forall_mem_cons.mpr ⟨?_, ih (follow_cons_ok hf).2.1⟩
    have hhere := (follow_cons_ok hf).1
    rw [follow_cons, if_pos hhere] at hf
    by_cases hdot : c = "."
    · subst hdot
      decide
    by_cases hup : c = ".."
    · subst hup
      decide
    rw [if_neg hdot, if_neg hup] at hf
    split at hf
    · cases hf
    · rename_i hlong
      simpa using hlong

lemma fits_of_locate {found : List String × Node} (hl : h.locate p = .ok found) : p.Fits := by
  obtain ⟨⟨⟩, hcheck, hl⟩ := exists_of_bind_eq_ok hl
  obtain ⟨result, hfollow, -⟩ := exists_of_bind_eq_ok hl
  obtain ⟨hnul, -, hlong⟩ := HostPath.of_check hcheck
  exact ⟨hnul, hlong, short_of_follow hfollow⟩

lemma fits_of_lookup {node : Node} (hl : h.lookup p = .ok node) : p.Fits := by
  obtain ⟨found, hlocate, -⟩ := map_eq_ok hl
  exact fits_of_locate hlocate

lemma fits_of_place (hp : h.place p = .ok (names, some last)) : p.Fits ∧ last ∈ p.components := by
  obtain ⟨⟨⟩, hcheck, hp⟩ := exists_of_bind_eq_ok hp
  obtain ⟨hnul, -, hlong⟩ := HostPath.of_check hcheck
  split at hp
  · cases hp
  rename_i last' hlast
  obtain ⟨front, hfollow, hp⟩ := exists_of_bind_eq_ok hp
  split at hp
  · split at hp
    · cases hp
    split at hp
    · cases hp
    rename_i hshort
    obtain ⟨-, rfl⟩ : front = names ∧ last' = last := by simpa using hp
    obtain ⟨before, hbefore⟩ := List.getLast?_eq_some_iff.mp hlast
    refine ⟨⟨hnul, hlong, ?_⟩, by simp [hbefore]⟩
    rw [hbefore]
    intro c hc
    rcases List.mem_append.mp hc with hc | hc
    · exact short_of_follow hfollow c (by simpa [hbefore] using hc)
    · obtain rfl : c = last' := by simpa using hc
      simpa using hshort
  · cases hp

/-- Nothing can be written to a path that is too long. -/
lemma writeFile_of_isLong (h : Host) (hlong : p.isLong = true) (content : ByteArray) :
    ∃ e, h.writeFile p content = .error e := by
  obtain ⟨e, -, hcheck⟩ := HostPath.check_of_isLong hlong
  exact ⟨e, by simp [writeFile, place, hcheck, bind, Except.bind]⟩

/-- A path is not shorter when it is written from the top. -/
lemma utf8ByteSize_le_absolute (h : Host) (p : HostPath) :
    p.text.utf8ByteSize ≤ (h.absolute p).text.utf8ByteSize := by
  unfold absolute
  split
  · exact Nat.le_refl _
  · unfold HostPath.push
    split <;> simp only [String.utf8ByteSize_append] <;> omega

/-! ## Sound hosts -/

/-- A tree that a host can really have: no two entries have the same place, and the host can store
every name. -/
structure Sound (h : Host) : Prop where
  wellFormed : h.tree.WellFormed
  storable : ∀ names, h.layout names ≠ none → ∀ name ∈ names, IsStorable name

/-- It is enough to walk through the tree. -/
lemma sound_of_walk (hwf : h.tree.WellFormed)
    (hwalk : ∀ entry ∈ h.tree.walk [], ∀ name ∈ entry.1, IsStorable name) : h.Sound where
  wellFormed := hwf
  storable names hsome := by
    by_cases hnil : names = []
    · simp [hnil]
    · obtain ⟨node, hnode⟩ := Option.ne_none_iff_exists'.mp fun hnone =>
        hsome (layout_eq_none_iff.mpr hnone)
      exact hwalk (names, node) ((Directory.mem_walk hwf [] hnil).mpr hnode)

section Storable

variable {l l' : Layout} {place : List String}
  (hl : ∀ names, l names ≠ none → ∀ name ∈ names, IsStorable name)
include hl

/-- Where something is planted, no names come in but its own and those of the place. -/
lemma storable_plant (hplace : ∀ name ∈ place, IsStorable name)
    (hl' : ∀ rest, l' rest ≠ none → ∀ name ∈ rest, IsStorable name) :
    ∀ names, l.plant place l' names ≠ none → ∀ name ∈ names, IsStorable name := by
  intro names hsome
  by_cases hbelow : place <+: names
  · obtain ⟨rest, rfl⟩ := hbelow
    rw [Layout.plant_below] at hsome
    exact List.forall_mem_append.mpr ⟨hplace, hl' rest hsome⟩
  · rw [Layout.plant_elsewhere hbelow] at hsome
    exact hl names hsome

/-- Where something is removed, no names come in. -/
lemma storable_clear : ∀ names, l.clear place names ≠ none → ∀ name ∈ names, IsStorable name := by
  intro names hsome
  by_cases hbelow : place <+: names
  · exact absurd (Layout.clear_below hbelow) hsome
  · rw [Layout.clear_elsewhere hbelow] at hsome
    exact hl names hsome

end Storable

namespace Sound

/-- The host can store the names that a path leads along when the directory at its end was found. -/
lemma storable_goal (hs : h.Sound) (hplace : h.place p = .ok (names, some last)) :
    ∀ name ∈ h.goal p, IsStorable name := by
  obtain ⟨-, hgoal, hfolder⟩ := place_ok hplace
  obtain ⟨hfits, hmem⟩ := fits_of_place hplace
  rw [← hgoal]
  intro name hname
  rcases List.mem_append.mp hname with hname | hname
  · exact hs.storable names (by simp [hfolder]) name hname
  · obtain rfl : name = last := by simpa using hname
    exact hfits.isStorable hmem

lemma insert {node : Node} (hs : h.Sound) (hplace : h.place p = .ok (names, some last))
    (hnode : node.WellFormed)
    (hnames : ∀ rest, node.layout rest ≠ none → ∀ name ∈ rest, IsStorable name) :
    (h.alter (.insert last node) names).Sound := by
  have hplaced := hs.storable_goal hplace
  obtain ⟨hlast, hgoal, hfolder⟩ := place_ok hplace
  have hbecomes := becomes_insert hlast (fun _ => hnode) hfolder
  refine ⟨hbecomes.wellFormed hs.wellFormed, ?_⟩
  rw [hbecomes.layout, hgoal]
  exact storable_plant hs.storable hplaced hnames

/-- Names that are removed leave no others behind. -/
lemma erase (hs : h.Sound) (hfolder : h.layout names = some .folder) (name : String) :
    (h.alter (.erase name) names).Sound := by
  have hbecomes := becomes_erase hs.wellFormed name hfolder
  refine ⟨hbecomes.wellFormed hs.wellFormed, ?_⟩
  rw [hbecomes.layout]
  exact storable_clear hs.storable

/-- A file and an empty directory bring no names along. -/
lemma insert_leaf {node : Node} (hs : h.Sound) (hplace : h.place p = .ok (names, some last))
    (hnode : node.WellFormed) (hleaf : ∀ rest ≠ [], node.layout rest = none) :
    (h.alter (.insert last node) names).Sound := by
  refine hs.insert hplace hnode fun rest hsome => ?_
  by_cases hrest : rest = []
  · simp [hrest]
  · exact absurd (hleaf rest hrest) hsome

lemma insert_file (hs : h.Sound) (hplace : h.place p = .ok (names, some last))
    (content : ByteArray) : (h.alter (.insert last (.file content)) names).Sound :=
  hs.insert_leaf hplace trivial fun rest hrest => by simp [Node.layout_file, Layout.ofFile, hrest]

/-! ## One path -/

lemma writeFile (hs : h.Sound) {content : ByteArray} (hw : h.writeFile p content = .ok h') :
    h'.Sound := by
  obtain ⟨names, last, hplace, -, -, rfl⟩ := exists_of_writeFile hw
  exact hs.insert_file hplace content

lemma removeFile (hs : h.Sound) (hr : h.removeFile p = .ok h') : h'.Sound := by
  obtain ⟨names, last, content, hplace, -, rfl⟩ := exists_of_removeFile hr
  exact hs.erase (place_ok hplace).2.2 last

lemma makeDirectory (hs : h.Sound) (hm : h.makeDirectory p = .ok h') : h'.Sound := by
  obtain ⟨names, last, hplace, -, rfl⟩ := exists_of_makeDirectory hm
  exact hs.insert_leaf hplace trivial fun rest hrest => by
    simp [layout_folder_empty, Layout.ofFolder, hrest]

/-- Directories that were made stay when the last one cannot be made. -/
lemma makeChain (hs : h.Sound) (chain : List HostPath) : (h.makeChain chain).2.Sound :=
  makeChain_keeps Sound (fun _ _ _ _ _ hk hmade => hk.makeDirectory hmade) hs

lemma makeParents (hs : h.Sound) (p : HostPath) : (h.makeParents p).2.Sound := by
  rw [makeParents_eq]
  split
  · exact hs
  · exact hs.makeChain p.ancestors

/-! ## Two paths -/

lemma link (hs : h.Sound) (hl : h.link source target = .ok h') : h'.Sound := by
  obtain ⟨found, content, names, last, -, hplace, -, rfl⟩ := exists_of_link hl
  exact hs.insert_file hplace content

lemma move (hs : h.Sound) (hm : h.move source target = .ok h') : h'.Sound := by
  obtain ⟨-, -, names, last, -, -, hplace, -⟩ := exists_of_move hm
  have hplaced := hs.storable_goal hplace
  rcases move_ok hs.wellFormed hm with ⟨-, -, rfl⟩ | ⟨-, hbecomes⟩
  · exact hs
  refine ⟨hbecomes.wellFormed hs.wellFormed, ?_⟩
  rw [hbecomes.layout]
  exact storable_plant (storable_clear hs.storable) hplaced fun rest hsome name hname =>
    hs.storable (h.goal source ++ rest) hsome name (List.mem_append_right _ hname)

end Sound

end Host

end CommitStore
