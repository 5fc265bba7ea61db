import CommitStore.Location.Basic
import CommitStore.Proofs.Host.Making

/-!
# Locations and their texts

The names of a location can be read off its canonical text (`Location.ofText_text`).  So locations
with the same text have the same names, and what is below a directory by its text is below it by its
names.
-/

namespace CommitStore

namespace Location

lemma ofWords_map_toList {names : List String} (h : ∀ name ∈ names, IsName name) :
    HostPath.ofWords (names.map String.toList) = names := by
  induction names with
  | nil => rfl
  | cons name names ih =>
    have hname : name.toList ≠ [] := by simpa using (h name List.mem_cons_self).1
    have hrest := ih fun n hn => h n (List.mem_cons_of_mem _ hn)
    simpa [HostPath.ofWords, hname] using hrest

lemma ofWords_splitAt_joinWith {names : List String} (h : ∀ name ∈ names, IsName name) :
    HostPath.ofWords (Text.splitAt '/' (Text.joinWith '/' (names.map String.toList))) = names := by
  cases names with
  | nil => simp [Text.joinWith, Text.splitAt, HostPath.ofWords]
  | cons name names =>
    rw [Text.splitAt_joinWith (by simp), ofWords_map_toList h]
    intro word hword
    obtain ⟨n, hn, rfl⟩ := List.mem_map.mp hword
    exact (h n hn).2.2

lemma ofWords_text (l : Location) :
    HostPath.ofWords (Text.splitAt '/' l.text.toList) = l.names := by
  rw [text, String.toList_ofList]
  cases l.directory with
  | false => simpa using ofWords_splitAt_joinWith l.isName_of_mem
  | true =>
    simp only [if_true]
    rw [Text.splitAt_append_cons, HostPath.ofWords_append, ofWords_splitAt_joinWith l.isName_of_mem]
    simp [Text.splitAt, HostPath.ofWords]

lemma names_eq_of_text_eq {a b : Location} (h : a.text = b.text) : a.names = b.names := by
  rw [← ofWords_text a, ← ofWords_text b, h]

/-- Every text begins with that of the root, which is empty. -/
lemma root_text_prefix (text : String) : root.text.toList <+: text.toList := List.nil_prefix

lemma isObject_iff {l : Location} : l.isObject = true ↔ l.names ≠ [] ∧ l.directory = false := by
  simp [isObject, isRoot]

lemma eq_of_names_eq {a b : Location} (ha : a.isObject = true) (hb : b.isObject = true)
    (h : a.names = b.names) : a = b :=
  Location.ext h (by rw [(isObject_iff.mp ha).2, (isObject_iff.mp hb).2])

lemma text_eq_iff {a b : Location} (ha : a.isObject = true) (hb : b.isObject = true) :
    a.text = b.text ↔ a.names = b.names :=
  ⟨names_eq_of_text_eq, fun h => by rw [eq_of_names_eq ha hb h]⟩

lemma text_asDirectory {l : Location} (hne : l.names ≠ []) :
    l.asDirectory.text.toList = Text.joinWith '/' (l.names.map String.toList) ++ ['/'] := by
  simp [text, asDirectory, hne]

/-- What is below a directory by its text is below it by its names. -/
lemma prefix_names_of_prefix_text {l k : Location} (hne : l.names ≠ [])
    (h : l.asDirectory.text.toList <+: k.text.toList) : l.names <+: k.names := by
  obtain ⟨rest, hrest⟩ := h
  rw [text_asDirectory hne, List.append_assoc, List.singleton_append] at hrest
  rw [← ofWords_text k, ← hrest, Text.splitAt_append_cons, HostPath.ofWords_append,
    ofWords_splitAt_joinWith l.isName_of_mem]
  exact List.prefix_append _ _

lemma text_asDirectory_root {l : Location} (hroot : l.names = []) :
    l.asDirectory.text.toList = [] := by
  simp [text, asDirectory, hroot, Text.joinWith]

lemma text_of_directory {l : Location} (h : l.directory = true) :
    l.text.toList = l.asObject.text.toList ++ ['/'] := by
  simp [text, asObject, h]

/-- The text of a location below another one begins with that one's text as a directory. -/
lemma text_of_append {l k : Location} {rest : List String} (hk : k.directory = false)
    (hrest : rest ≠ []) (hnames : k.names = l.names ++ rest) :
    k.text.toList = l.asDirectory.text.toList ++ Text.joinWith '/' (rest.map String.toList) := by
  by_cases hroot : l.names = []
  · rw [text_asDirectory_root hroot, text, hk, hnames, hroot]
    simp
  · obtain ⟨name, more, rfl⟩ := List.exists_cons_of_ne_nil hrest
    rw [text_asDirectory hroot, text, hk, hnames, List.map_append, List.map_cons,
      Text.joinWith_append_cons _ (by simpa using hroot)]
    simp

lemma prefix_text_iff {l k : Location} (hk : k.isObject = true) :
    l.asDirectory.text.toList <+: k.text.toList ↔ ∃ rest ≠ [], k.names = l.names ++ rest := by
  obtain ⟨hne, hdirectory⟩ := isObject_iff.mp hk
  constructor
  · intro h
    by_cases hroot : l.names = []
    · exact ⟨k.names, hne, by simp [hroot]⟩
    obtain ⟨rest, hrest⟩ := prefix_names_of_prefix_text hroot h
    refine ⟨rest, ?_, hrest.symm⟩
    -- The text of an object with the same names lacks the separator at the end.
    rintro rfl
    have hlong := h.length_le
    rw [text_asDirectory hroot, text, hdirectory, ← hrest] at hlong
    simp only [String.toList_ofList, List.append_nil, List.length_append, List.length_singleton,
      Bool.false_eq_true, if_false] at hlong
    omega
  · rintro ⟨rest, hrest, hnames⟩
    rw [text_of_append hdirectory hrest hnames]
    exact List.prefix_append _ _

/-! ## Reading a text -/

lemma filter_isName {words : List (List Char)} :
    (words.map String.ofList).filter (fun name => decide (IsName name)) =
      (HostPath.ofWords words).filter (fun name => decide (IsName name)) := by
  induction words with
  | nil => rfl
  | cons word words ih =>
    by_cases hempty : word = []
    · have hnot : ¬ IsName (String.ofList []) := by decide
      simp [hempty, HostPath.ofWords, hnot, ih]
    · simp only [HostPath.ofWords] at ih
      simp [hempty, HostPath.ofWords, List.filter_cons, ih]

lemma getLast?_joinWith {names : List String} (hnames : ∀ name ∈ names, IsName name) :
    (Text.joinWith '/' (names.map String.toList)).getLast? ≠ some '/' := by
  rcases List.eq_nil_or_concat names with rfl | ⟨front, last, rfl⟩
  · simp [Text.joinWith]
  rw [List.concat_eq_append] at hnames ⊢
  obtain ⟨hne, -, hsep⟩ := hnames last (by simp)
  obtain ⟨before, hbefore⟩ : ∃ before,
      Text.joinWith '/' ((front ++ [last]).map String.toList) = before ++ last.toList := by
    by_cases hfront : front = []
    · exact ⟨[], by simp [hfront, Text.joinWith]⟩
    · refine ⟨Text.joinWith '/' (front.map String.toList) ++ ['/'], ?_⟩
      rw [List.map_append, List.map_singleton, Text.joinWith_append_cons _ (by simpa using hfront)]
      simp [Text.joinWith]
  intro hlast
  rw [hbefore, List.getLast?_append] at hlast
  obtain ⟨c, hc⟩ : ∃ c, last.toList.getLast? = some c := by
    rw [← Option.isSome_iff_exists, List.getLast?_isSome]
    simpa using hne
  obtain rfl : c = '/' := by simpa [hc] using hlast
  exact hsep (List.mem_of_getLast? hc)

lemma ofText_text (l : Location) : ofText l.text = l := by
  have hnames : ((Text.splitAt '/' l.text.toList).map String.ofList).filter
      (fun name => decide (IsName name)) = l.names := by
    rw [filter_isName, ofWords_text, List.filter_eq_self]
    simpa using l.isName_of_mem
  have hmark : (l.text.toList.getLast? == some '/') = l.directory := by
    rw [text, String.toList_ofList]
    cases l.directory with
    | true => simp
    | false =>
      have := getLast?_joinWith l.isName_of_mem
      simpa using this
  refine Location.ext hnames ?_
  show ((l.text.toList.getLast? == some '/') && !(List.filter _ _).isEmpty) = l.directory
  rw [hnames, hmark]
  by_cases hempty : l.names = []
  · rw [l.directory_of_nil hempty]
    rfl
  · simp [hempty]

/-! ## The directory part and the name part -/

/-- The root carries no directory mark. -/
lemma names_ne_nil_of_directory {l : Location} (h : l.directory = true) : l.names ≠ [] := by
  intro hnil
  rw [l.directory_of_nil hnil] at h
  cases h

lemma asDirectory_of_directory {l : Location} (h : l.directory = true) : l.asDirectory = l :=
  Location.ext rfl (by simp [asDirectory, names_ne_nil_of_directory h, h])

/-- The directory part is written as a directory. -/
lemma asDirectory_splitLast (l : Location) : l.splitLast.1.asDirectory = l.splitLast.1 := by
  unfold splitLast
  split
  · rename_i hmark
    exact asDirectory_of_directory hmark
  · rfl

lemma not_mem_splitLast (l : Location) : '/' ∉ l.splitLast.2.toList := by
  unfold splitLast
  split
  · simp
  · cases hlast : l.names.getLast? with
    | none => simp
    | some last => exact (l.isName_of_mem last (List.mem_of_getLast? hlast)).2.2

/-- The text is that of the directory part and then the name part. -/
lemma text_splitLast (l : Location) :
    l.text.toList = l.splitLast.1.text.toList ++ l.splitLast.2.toList := by
  unfold splitLast
  split
  · simp
  · rename_i hmark
    have hobject : l.directory = false := by simpa using hmark
    rcases List.eq_nil_or_concat l.names with hnil | ⟨front, last, hnames⟩
    · simp [text, hnil, hobject, Text.joinWith]
    · rw [List.concat_eq_append] at hnames
      have hbelow := text_of_append (l := ⟨l.names.dropLast, !l.names.dropLast.isEmpty,
        fun name h => l.isName_of_mem name (List.dropLast_subset _ h), by intro h; simp [h]⟩)
        hobject (List.cons_ne_nil last []) (by simp [hnames])
      rw [hbelow]
      simp [hnames, Text.joinWith, asDirectory, text]

end Location

end CommitStore
