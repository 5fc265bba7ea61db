import CommitStore.Proofs.Location.Text

/-!
# The algebra of locations

A raw text denotes a list of names and a mark at its end, and that is all there is to a location:
texts that agree in both denote the same one (`Location.ofText_eq_iff`), and its canonical text says
both without anything to spare, which is `Location.IsCanonical`.

Joining locations puts their names one after the other, and the mark is that of the right side.  So
joining behaves as it does on lists, with one exception that is no gap in the laws: with nothing on
the right, the left side becomes a directory.
-/

namespace CommitStore

namespace Location

variable {raw : String} {p q r : Location}

/-! ## What a raw text says -/

/-- The names between the separators of a raw text; what is empty or `.` is none. -/
def rawNames (raw : String) : List String :=
  ((Text.splitAt '/' raw.toList).map String.ofList).filter fun name => name ≠ "" ∧ name ≠ "."

/-- The raw text ends with a separator. -/
def EndsOpen (raw : String) : Prop := raw.toList.getLast? = some '/'

instance (raw : String) : Decidable (EndsOpen raw) := by unfold EndsOpen; infer_instance

lemma names_ofText (raw : String) : (ofText raw).names = rawNames raw := by
  refine List.filter_congr fun name hname => ?_
  obtain ⟨word, hword, rfl⟩ := List.mem_map.mp hname
  have hsep : '/' ∉ word := Text.not_mem_of_mem_splitAt hword
  simp [IsName, hsep]

lemma directory_ofText (raw : String) :
    (ofText raw).directory = true ↔ EndsOpen raw ∧ rawNames raw ≠ [] := by
  rw [← names_ofText]
  simp [ofText, ofNames, EndsOpen]

/-- Raw texts denote the same location if they have the same names and, unless there are none, both
end with a separator or neither does. -/
lemma ofText_eq_iff {a b : String} : ofText a = ofText b ↔
    rawNames a = rawNames b ∧ (rawNames a ≠ [] → (EndsOpen a ↔ EndsOpen b)) := by
  rw [Location.ext_iff, names_ofText, names_ofText, Bool.eq_iff_iff, directory_ofText,
    directory_ofText]
  constructor
  · rintro ⟨hnames, hmark⟩
    refine ⟨hnames, fun hne => ?_⟩
    simpa [hne, ← hnames] using hmark
  · rintro ⟨hnames, hmark⟩
    refine ⟨hnames, ?_⟩
    rw [← hnames]
    exact ⟨fun h => ⟨(hmark h.2).mp h.1, h.2⟩, fun h => ⟨(hmark h.2).mpr h.1, h.2⟩⟩

/-! ## Canonical texts -/

/-- A text without anything to spare: it begins with no separator, has no two of them in a row, and
none of its parts is `.`. -/
structure IsCanonical (text : String) : Prop where
  no_leading : text.toList.head? ≠ some '/'
  no_double : ¬ ['/', '/'] <:+: text.toList
  no_dot : ['.'] ∉ Text.splitAt '/' text.toList

/-- The segments of a canonical text are the names, and an empty one behind the separator at the
end. -/
lemma splitAt_text (hne : p.names ≠ []) : Text.splitAt '/' p.text.toList =
    p.names.map String.toList ++ if p.directory then [[]] else [] := by
  have hsep : ∀ word ∈ p.names.map String.toList, '/' ∉ word := by
    intro word hword
    obtain ⟨name, hname, rfl⟩ := List.mem_map.mp hword
    exact (p.isName_of_mem name hname).2.2
  have hjoin := Text.splitAt_joinWith (by simpa using hne) hsep
  rw [text, String.toList_ofList]
  cases p.directory with
  | false => simpa using hjoin
  | true =>
    simp only [if_true]
    rw [Text.splitAt_append_cons, hjoin]
    rfl

lemma text_eq_empty_iff : p.text = "" ↔ p.names = [] := by
  constructor
  · intro h
    rw [← ofWords_text p, h]
    rfl
  · intro h
    rw [← String.toList_eq_nil_iff, text, p.directory_of_nil h, h]
    rfl

lemma not_mem_dropLast_splitAt_text (p : Location) :
    [] ∉ (Text.splitAt '/' p.text.toList).dropLast := by
  by_cases hne : p.names = []
  · simp [text_eq_empty_iff.mpr hne, Text.splitAt]
  have hnames : [] ∉ p.names.map String.toList := by
    intro hmem
    obtain ⟨name, hname, hempty⟩ := List.mem_map.mp hmem
    exact (p.isName_of_mem name hname).1 (by simpa using hempty)
  rw [splitAt_text hne]
  cases p.directory with
  | false => exact fun hmem => hnames (by simpa using List.dropLast_subset _ hmem)
  | true => simpa using hnames

lemma isCanonical_text (p : Location) : IsCanonical p.text where
  no_leading hhead := by
    obtain ⟨rest, hrest⟩ := List.head?_eq_some_iff.mp hhead
    refine not_mem_dropLast_splitAt_text p ?_
    rw [hrest, Text.splitAt, if_pos rfl, List.dropLast_cons_of_ne_nil (Text.splitAt_ne_nil _ _)]
    exact List.mem_cons_self
  no_double hdouble := by
    obtain ⟨before, after, htext⟩ := hdouble
    refine not_mem_dropLast_splitAt_text p ?_
    have hsplit : Text.splitAt '/' p.text.toList =
        Text.splitAt '/' before ++ [] :: Text.splitAt '/' after := by
      rw [← htext, List.append_assoc]
      show Text.splitAt '/' (before ++ '/' :: '/' :: after) = _
      rw [Text.splitAt_append_cons, Text.splitAt, if_pos rfl]
    rw [hsplit, List.dropLast_append_of_ne_nil (List.cons_ne_nil _ _),
      List.dropLast_cons_of_ne_nil (Text.splitAt_ne_nil _ _)]
    simp
  no_dot hdot := by
    by_cases hne : p.names = []
    · simp [text_eq_empty_iff.mpr hne, Text.splitAt] at hdot
    rw [splitAt_text hne] at hdot
    rcases List.mem_append.mp hdot with hmem | hmem
    · obtain ⟨name, hname, hsame⟩ := List.mem_map.mp hmem
      exact (p.isName_of_mem name hname).2.1 (String.toList_inj.mp (by simpa using hsame))
    · cases hmark : p.directory <;> simp [hmark] at hmem

/-! ## Parts -/

/-- The names that stand between the separators of the canonical text. -/
def parts (p : Location) : List String :=
  ((Text.splitAt '/' p.text.toList).filter (· ≠ [])).map String.ofList

lemma parts_eq_names (p : Location) : p.parts = p.names := ofWords_text p

/-! ## Joining -/

lemma join_of_names_eq_nil (h : p.names = []) : p.join q = q := dif_pos h

lemma names_join (p q : Location) : (p.join q).names = p.names ++ q.names := by
  by_cases h : p.names = []
  · rw [join_of_names_eq_nil h, h, List.nil_append]
  · rw [join, dif_neg h]

lemma directory_join (h : p.names ≠ []) :
    (p.join q).directory = (q.directory || q.names.isEmpty) := by
  rw [join, dif_neg h]

/-- Joining is done by writing the texts one after the other, with a separator between them; below
the root there is nothing to write. -/
lemma join_eq_ofText (p q : Location) :
    p.join q = if p.text = "" then q else ofText (p.text ++ "/" ++ q.text) := by
  by_cases hp : p.names = []
  · rw [join_of_names_eq_nil hp, if_pos (text_eq_empty_iff.mpr hp)]
  have hlist : (p.text ++ "/" ++ q.text).toList = p.text.toList ++ '/' :: q.text.toList := by simp
  rw [if_neg fun hempty => hp (text_eq_empty_iff.mp hempty)]
  have hraw : rawNames (p.text ++ "/" ++ q.text) = p.names ++ q.names := by
    rw [rawNames, hlist, Text.splitAt_append_cons, List.map_append, List.filter_append]
    show rawNames p.text ++ rawNames q.text = _
    rw [← names_ofText, ← names_ofText, ofText_text, ofText_text]
  have hopen : EndsOpen (p.text ++ "/" ++ q.text) ↔ q.directory = true ∨ q.names = [] := by
    rw [EndsOpen, hlist, List.getLast?_append, List.getLast?_cons]
    by_cases hq : q.names = []
    · simp [text_eq_empty_iff.mpr hq, hq]
    · have hmark := directory_ofText q.text
      rw [ofText_text, ← names_ofText, ofText_text] at hmark
      cases hlast : q.text.toList.getLast? with
      | none =>
        have hempty := String.toList_eq_nil_iff.mp (List.getLast?_eq_none_iff.mp hlast)
        exact absurd (text_eq_empty_iff.mp hempty) hq
      | some c => simp [hmark, hq, EndsOpen, hlast]
  refine Location.ext (by rw [names_join, names_ofText, hraw]) ?_
  rw [Bool.eq_iff_iff, directory_ofText, hraw, hopen, directory_join hp]
  simp [hp]

lemma join_root (p : Location) : p.join root = p.asDirectory := by
  by_cases h : p.names = []
  · rw [join_of_names_eq_nil h]
    refine Location.ext ?_ ?_ <;> simp [root, ofNames, asDirectory, h]
  · refine Location.ext ?_ ?_
    · rw [names_join]
      exact List.append_nil _
    · rw [directory_join h]
      simp [root, ofNames, asDirectory, h]

/-- Locations are joined like lists. -/
lemma join_assoc (p q r : Location) : (p.join q).join r = p.join (q.join r) := by
  by_cases hp : p.names = []
  · rw [join_of_names_eq_nil hp, join_of_names_eq_nil hp]
  have hpq : (p.join q).names ≠ [] := by simp [names_join, hp]
  refine Location.ext (by simp only [names_join, List.append_assoc]) ?_
  rw [directory_join hpq, directory_join hp]
  by_cases hq : q.names = []
  · rw [join_of_names_eq_nil hq]
  · rw [directory_join hq, names_join]
    simp [hq]

/-! ## The directory part and the name part -/

lemma ofText_of_isName {name : String} (h : IsName name) :
    (ofText name).names = [name] ∧ (ofText name).directory = false := by
  obtain ⟨hne, hdot, hsep⟩ := h
  refine ⟨?_, ?_⟩
  · rw [names_ofText, rawNames, Text.splitAt_of_not_mem hsep]
    simp [hne, hdot]
  · rw [Bool.eq_false_iff]
    exact fun hmark => hsep (List.mem_of_getLast? ((directory_ofText name).mp hmark).1)

lemma endsOpen_text_iff (p : Location) : EndsOpen p.text ↔ p.directory = true := by
  have hmark := directory_ofText p.text
  rw [ofText_text, ← names_ofText, ofText_text] at hmark
  rw [hmark]
  refine ⟨fun hopen => ⟨hopen, fun hnil => ?_⟩, And.left⟩
  simp [EndsOpen, text_eq_empty_iff.mpr hnil] at hopen

lemma endsOpen_splitLast (p : Location) :
    p.splitLast.1.text = "" ∨ EndsOpen p.splitLast.1.text := by
  rw [text_eq_empty_iff, endsOpen_text_iff, ← asDirectory_splitLast]
  by_cases h : p.splitLast.1.names = [] <;> simp [asDirectory, h]

/-- A directory is its own directory part, the root has two empty parts, and an object has its last
name apart. -/
lemma splitLast_cases (p : Location) : p.directory = true ∧ p.splitLast = (p, "") ∨
    p.names = [] ∧ p.splitLast.1.names = [] ∧ p.splitLast.2 = "" ∨
    ∃ front last, p.names = front ++ [last] ∧ p.directory = false ∧ p.splitLast.1.names = front ∧
      p.splitLast.2 = last := by
  unfold splitLast
  split
  · rename_i hmark
    exact .inl ⟨hmark, rfl⟩
  · rename_i hmark
    rcases List.eq_nil_or_concat p.names with hnil | ⟨front, last, hnames⟩
    · exact .inr (.inl ⟨hnil, by simp [hnil], by simp [hnil]⟩)
    · rw [List.concat_eq_append] at hnames
      exact .inr
        (.inr ⟨front, last, hnames, by simpa using hmark, by simp [hnames], by simp [hnames]⟩)

lemma join_splitLast (p : Location) : p.splitLast.1.join (ofText p.splitLast.2) = p := by
  rcases p.splitLast_cases with ⟨hmark, hsplit⟩ | ⟨hnil, hfirst, hlast⟩ |
    ⟨front, last, hnames, hobject, hfirst, hlast⟩
  · rw [hsplit]
    exact (join_root p).trans (asDirectory_of_directory hmark)
  · rw [join_of_names_eq_nil hfirst, hlast]
    exact Location.ext hnil.symm (p.directory_of_nil hnil).symm
  · obtain ⟨hsingle, hfile⟩ := ofText_of_isName (p.isName_of_mem last (by simp [hnames]))
    rw [hlast]
    refine Location.ext (by rw [names_join, hfirst, hsingle, hnames]) ?_
    by_cases hfront : p.splitLast.1.names = []
    · rw [join_of_names_eq_nil hfront, hfile, hobject]
    · rw [directory_join hfront, hfile, hsingle, hobject]
      rfl

/-! ## All of it -/

lemma text_eq_text_iff : p.text = q.text ↔ p = q :=
  ⟨fun h => by rw [← ofText_text p, h, ofText_text], congrArg text⟩

lemma text_asDirectory_eq (p : Location) :
    p.asDirectory.text = if p.text = "" ∨ EndsOpen p.text then p.text else p.text ++ "/" := by
  by_cases hroot : p.names = []
  · rw [if_pos (.inl (text_eq_empty_iff.mpr hroot)), text_eq_empty_iff.mpr hroot]
    exact text_eq_empty_iff.mpr hroot
  by_cases hmark : p.directory = true
  · rw [if_pos (.inr ((endsOpen_text_iff p).mpr hmark)), asDirectory_of_directory hmark]
  · rw [if_neg (by simp [text_eq_empty_iff, endsOpen_text_iff, hroot, hmark]), ← String.toList_inj,
      text_asDirectory hroot, text]
    simp [hmark]

/-- Reading a text gives a location with a canonical text, which depends on nothing but the names
and the mark at the end.  Joining is associative and puts the names one after the other, joining the
root makes a directory, and every location is put together again from its directory part and its
name part. -/
theorem canonical_with_join :
    (∀ raw, ofText (ofText raw).text = ofText raw ∧ IsCanonical (ofText raw).text) ∧
    (∀ a b, ofText a = ofText b ↔
      rawNames a = rawNames b ∧ (rawNames a ≠ [] → (EndsOpen a ↔ EndsOpen b))) ∧
    (∀ p q : Location, p.text = q.text ↔ p = q) ∧
    (∀ p q r : Location, (p.join q).join r = p.join (q.join r)) ∧
    (∀ p q : Location, p.join q = if p.text = "" then q else ofText (p.text ++ "/" ++ q.text)) ∧
    (∀ p q : Location, (p.join q).parts = p.parts ++ q.parts) ∧
    (∀ p : Location, p.join root = p.asDirectory ∧
      p.asDirectory.text = if p.text = "" ∨ EndsOpen p.text then p.text else p.text ++ "/") ∧
    ∀ p : Location, p.splitLast.1.text ++ p.splitLast.2 = p.text ∧ '/' ∉ p.splitLast.2.toList ∧
      (p.splitLast.1.text = "" ∨ EndsOpen p.splitLast.1.text) ∧
      (ofText p.splitLast.1.text).join (ofText p.splitLast.2) = p := by
  refine ⟨fun raw => ⟨ofText_text _, isCanonical_text _⟩, fun a b => ofText_eq_iff,
    fun p q => text_eq_text_iff, join_assoc, join_eq_ofText, fun p q => ?_,
    fun p => ⟨join_root p, text_asDirectory_eq p⟩,
    fun p => ⟨?_, not_mem_splitLast p, endsOpen_splitLast p, ?_⟩⟩
  · rw [parts_eq_names, parts_eq_names, parts_eq_names, names_join]
  · rw [← String.toList_inj, String.toList_append, ← text_splitLast]
  · rw [ofText_text, join_splitLast]

example : (ofText "a//./b").join (ofText "./") = ofText "a/b/" := by decide +kernel

end Location

end CommitStore
