import CommitStore.Proofs.Location.Text
import CommitStore.Store.ObjectMeta
import Mathlib.Data.List.Nodup

/-!
# What belongs to a listing

A listing is asked for by a location: its directory part says where to look, and its name part is
what the first name below that directory has to begin with.  What belongs to a listing is said here
in terms of names, once for both kinds of stores: `Location.Matches` for objects, and
`Location.Covers` for directories, of which the directory part itself may be one.  In terms of
texts, what belongs to a listing begins with the text of the query
(`Location.matches_splitLast_iff`).
-/

namespace CommitStore

namespace ObjectMeta

variable {entries entries' : List ObjectMeta}

/-- The objects of a listing with their sizes. -/
def objects (entries : List ObjectMeta) : List (Location × Nat) :=
  (entries.filter fun e => !e.isDirectory).map fun e => (e.location, e.size)

/-- The directories of a listing. -/
def directories (entries : List ObjectMeta) : List Location :=
  (entries.filter (·.isDirectory)).map (·.location)

lemma mem_objects {l : Location} {size : Nat} :
    (l, size) ∈ objects entries ↔
      ∃ e ∈ entries, e.location = l ∧ e.size = size ∧ l.directory = false := by
  simp only [objects, List.mem_map, List.mem_filter, Bool.not_eq_true', Prod.mk.injEq, isDirectory]
  constructor
  · rintro ⟨e, ⟨he, hobject⟩, rfl, rfl⟩
    exact ⟨e, he, rfl, rfl, hobject⟩
  · rintro ⟨e, he, rfl, rfl, hobject⟩
    exact ⟨e, ⟨he, hobject⟩, rfl, rfl⟩

lemma mem_directories {l : Location} :
    l ∈ directories entries ↔ ∃ e ∈ entries, e.location = l ∧ l.directory = true := by
  simp only [directories, List.mem_map, List.mem_filter, isDirectory]
  constructor
  · rintro ⟨e, ⟨he, hdirectory⟩, rfl⟩
    exact ⟨e, he, rfl, hdirectory⟩
  · rintro ⟨e, he, rfl, hdirectory⟩
    exact ⟨e, ⟨he, hdirectory⟩, rfl⟩

lemma objects_append : objects (entries ++ entries') = objects entries ++ objects entries' := by
  simp [objects]

lemma objects_of_directories (h : ∀ e ∈ entries, e.isDirectory = true) : objects entries = [] := by
  rw [objects, List.map_eq_nil_iff, List.filter_eq_nil_iff]
  intro e he
  simp [h e he]

lemma nodup_objects (h : (entries.map fun e => e.location.names).Nodup) :
    (objects entries).Nodup := by
  apply List.Nodup.of_map fun object : Location × Nat => object.1.names
  rw [objects, List.map_map]
  exact h.sublist (List.filter_sublist.map _)

end ObjectMeta

namespace Location

variable {l k directory : Location} {start : String} {names rest : List String}

/-! ## What a query asks for -/

/-- Some names lead below a directory, and the first one below it has the given beginning. -/
def Matches (directory : Location) (start : String) (names : List String) : Prop :=
  ∃ first more, names = directory.names ++ first :: more ∧ start.toList <+: first.toList

/-- Some names lead below a directory, by a first name with the given beginning, or they lead to the
directory itself and all of it is wanted. -/
def Covers (directory : Location) (start : String) (names : List String) : Prop :=
  Matches directory start names ∨ (names = directory.names ∧ directory.isRoot = false ∧ start = "")

lemma matches_append_iff (hrest : rest ≠ []) :
    Matches directory start (directory.names ++ rest) ↔
      start.toList <+: (rest.head?.getD "").toList := by
  obtain ⟨first, more, rfl⟩ := List.exists_cons_of_ne_nil hrest
  constructor
  · rintro ⟨first', more', hsame, hstart⟩
    obtain ⟨rfl, -⟩ : first = first' ∧ more = more' := by simpa using hsame
    exact hstart
  · intro hstart
    exact ⟨first, more, rfl, hstart⟩

lemma Matches.below (h : Matches directory start names) :
    ∃ rest ≠ [], names = directory.names ++ rest := by
  obtain ⟨first, more, rfl, -⟩ := h
  exact ⟨first :: more, List.cons_ne_nil first more, rfl⟩

lemma ne_separator_of_mem {word : List Char} (h : '/' ∉ word) :
    ∀ c ∈ word, decide (c ≠ '/') = true := by
  intro c hc
  have hne : c ≠ '/' := by
    rintro rfl
    exact h hc
  simpa using hne

lemma takeWhile_joinWith (h : ∀ name ∈ rest, '/' ∉ name.toList) :
    (Text.joinWith '/' (rest.map String.toList)).takeWhile (· ≠ '/') =
      (rest.head?.getD "").toList := by
  cases rest with
  | nil => simp [Text.joinWith]
  | cons first more =>
    have hfirst := ne_separator_of_mem (h first List.mem_cons_self)
    by_cases hmore : more = []
    · subst hmore
      have hall : (first.toList ++ []).takeWhile (· ≠ '/') =
          first.toList ++ [].takeWhile (· ≠ '/') :=
        List.takeWhile_append_of_pos hfirst
      simpa [Text.joinWith] using hall
    · rw [List.map_cons, Text.joinWith_cons_of_ne_nil _ _ (by simpa using hmore),
        List.takeWhile_append_of_pos hfirst]
      simp

/-! ## The text of a query -/

/-- An object matches a query exactly when its text begins with that of the query. -/
lemma matches_splitLast_iff (query : Location) (hk : k.isObject = true) :
    query.splitLast.1.Matches query.splitLast.2 k.names ↔ query.text.toList <+: k.text.toList := by
  have hdirectory := query.asDirectory_splitLast
  have hsep := query.not_mem_splitLast
  rw [text_splitLast]
  generalize query.splitLast = parts at hdirectory hsep ⊢
  obtain ⟨directory, start⟩ := parts
  simp only at hdirectory hsep ⊢
  have htext : ∀ rest ≠ [], k.names = directory.names ++ rest →
      k.text.toList = directory.text.toList ++ Text.joinWith '/' (rest.map String.toList) := by
    intro rest hrest hnames
    rw [text_of_append (isObject_iff.mp hk).2 hrest hnames, hdirectory]
  -- The first of the names below the directory is what stands before the next separator.
  have hfirst : ∀ rest, k.names = directory.names ++ rest →
      (Text.joinWith '/' (rest.map String.toList)).takeWhile (· ≠ '/') =
      (rest.head?.getD "").toList := by
    intro rest hnames
    exact takeWhile_joinWith fun name hname => (k.isName_of_mem name (by simp [hnames, hname])).2.2
  constructor
  · intro hmatches
    obtain ⟨rest, hrest, hnames⟩ := hmatches.below
    rw [hnames, matches_append_iff hrest, ← hfirst rest hnames] at hmatches
    rw [htext rest hrest hnames, List.prefix_append_right_inj]
    exact hmatches.trans (List.takeWhile_prefix _)
  · intro hprefix
    obtain ⟨rest, hrest, hnames⟩ := (prefix_text_iff (l := directory) hk).mp (by
      rw [hdirectory]
      exact (List.prefix_append _ _).trans hprefix)
    rw [htext rest hrest hnames, List.prefix_append_right_inj] at hprefix
    rw [hnames, matches_append_iff hrest, ← hfirst rest hnames]
    obtain ⟨after, hafter⟩ := hprefix
    rw [← hafter, List.takeWhile_append_of_pos (ne_separator_of_mem hsep)]
    exact List.prefix_append _ _

/-- A directory belongs to a query exactly when its text begins with that of the query. -/
lemma covers_splitLast_iff (query : Location) (hl : l.directory = true) :
    query.splitLast.1.Covers query.splitLast.2 l.names ↔ query.text.toList <+: l.text.toList := by
  have hne := names_ne_nil_of_directory hl
  have hobject : l.asObject.isObject = true := isObject_iff.mpr ⟨hne, rfl⟩
  have hmatches := matches_splitLast_iff query hobject
  rw [Covers, text_of_directory hl, List.prefix_concat_iff, ← hmatches, or_comm]
  refine or_congr_left ?_
  rw [← text_of_directory hl, String.toList_inj]
  constructor
  · rintro ⟨hnames, hroot, hstart⟩
    have hself : l = query.splitLast.1 := by
      rw [← asDirectory_of_directory hl, ← query.asDirectory_splitLast]
      simp only [asDirectory, hnames]
    rw [hself, ← String.toList_inj, text_splitLast, hstart]
    simp
  · intro htext
    have hself : query = l := by rw [← ofText_text query, htext, ofText_text]
    rw [hself, splitLast, if_pos hl]
    exact ⟨rfl, by simpa [isRoot] using hne, rfl⟩

end Location

end CommitStore
