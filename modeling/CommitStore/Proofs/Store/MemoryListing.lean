import CommitStore.Proofs.Store.Contents
import CommitStore.Proofs.Store.Listing

/-!
# Listing a store in memory

The entries of a listing in memory are read off the keys.  Since a key is the text of an object
location, the pieces that listing cuts from it are the texts of locations again, and the listing can
be described by names: its objects are those that match the query (`MemoryStore.mem_objects_list`),
and its directories are those above them (`MemoryStore.mem_directories_list`).
-/

namespace CommitStore

namespace MemoryStore

/-! ## The directories in a text -/

lemma directoryTexts_of_not_mem {word : List Char} (h : '/' ∉ word) : directoryTexts word = [] := by
  induction word with
  | nil => rfl
  | cons c word ih =>
    rw [List.mem_cons, not_or] at h
    simp [directoryTexts, Ne.symm h.1, ih h.2]

lemma directoryTexts_append {word : List Char} (h : '/' ∉ word) (rest : List Char) :
    directoryTexts (word ++ '/' :: rest) =
      (word ++ ['/']) :: (directoryTexts rest).map fun text => word ++ '/' :: text := by
  induction word with
  | nil => simp [directoryTexts]
  | cons c word ih =>
    rw [List.mem_cons, not_or] at h
    simp [directoryTexts, Ne.symm h.1, ih h.2]

/-- The beginnings of joined names that end with a separator are those of the first few names. -/
lemma mem_directoryTexts {names : List String} (h : ∀ name ∈ names, '/' ∉ name.toList)
    (text : List Char) :
    text ∈ directoryTexts (Text.joinWith '/' (names.map String.toList)) ↔
      ∃ front after, front ≠ [] ∧ after ≠ [] ∧ names = front ++ after ∧
        text = Text.joinWith '/' (front.map String.toList) ++ ['/'] := by
  induction names generalizing text with
  | nil => simp [Text.joinWith, directoryTexts]
  | cons name rest ih =>
    have hname : '/' ∉ name.toList := h name List.mem_cons_self
    cases rest with
    | nil =>
      rw [show Text.joinWith '/' ([name].map String.toList) = name.toList from rfl,
        directoryTexts_of_not_mem hname]
      refine ⟨fun hmem => absurd hmem List.not_mem_nil, ?_⟩
      rintro ⟨front, after, hfront, hafter, hnames, -⟩
      have hlong := congrArg List.length hnames
      have := List.length_pos_iff.mpr hfront
      have := List.length_pos_iff.mpr hafter
      rw [List.length_append, List.length_singleton] at hlong
      omega
    | cons next more =>
      have hrest := ih fun n hn => h n (List.mem_cons_of_mem _ hn)
      rw [List.map_cons, Text.joinWith_cons_of_ne_nil _ _ (by simp), directoryTexts_append hname,
        List.mem_cons, List.mem_map]
      constructor
      · rintro (rfl | ⟨text, htext, rfl⟩)
        · exact ⟨[name], next :: more, by simp, by simp, rfl, rfl⟩
        · obtain ⟨front, after, hfront, hafter, hnames, rfl⟩ := (hrest _).mp htext
          refine ⟨name :: front, after, by simp, hafter, by rw [hnames]; rfl, ?_⟩
          rw [List.map_cons, Text.joinWith_cons_of_ne_nil _ _ (by simpa using hfront)]
          simp
      · rintro ⟨front, after, hfront, hafter, hnames, rfl⟩
        obtain ⟨first, front, rfl⟩ := List.exists_cons_of_ne_nil hfront
        obtain ⟨rfl, hmore⟩ := List.cons.inj hnames
        by_cases hone : front = []
        · left
          rw [hone]
          rfl
        · right
          refine ⟨_, (hrest _).mpr ⟨front, after, hone, hafter, hmore, rfl⟩, ?_⟩
          rw [List.map_cons, Text.joinWith_cons_of_ne_nil _ _ (by simpa using hone)]
          simp

variable {s : MemoryStore} {query l k directory : Location} {start : String} {rest : List String}

/-- The part of an object's text after that of a directory above it. -/
lemma drop_text (hdirectory : directory.asDirectory = directory) (hk : k.isObject = true)
    (hrest : rest ≠ []) (hnames : k.names = directory.names ++ rest) :
    k.text.toList.drop directory.text.length = Text.joinWith '/' (rest.map String.toList) := by
  rw [Location.text_of_append (Location.isObject_iff.mp hk).2 hrest hnames, hdirectory,
    ← String.length_toList, List.drop_left]

/-- The directories that are read off the key of an object are those between a directory above it
and the object. -/
lemma mem_between (hdirectory : directory.asDirectory = directory) (hk : k.isObject = true)
    (hrest : rest ≠ []) (hnames : k.names = directory.names ++ rest) (text : String) :
    text ∈ (directoryTexts (k.text.toList.drop directory.text.length)).map
        (fun d => directory.text ++ String.ofList d) ↔
      ∃ l : Location, l.text = text ∧ l.directory = true ∧ ∃ front after, front ≠ [] ∧ after ≠ [] ∧
        rest = front ++ after ∧ l.names = directory.names ++ front := by
  have hsep : ∀ name ∈ rest, '/' ∉ name.toList := fun name hname =>
    (k.isName_of_mem name (by simp [hnames, hname])).2.2
  have htext : ∀ (l : Location) (front : List String), l.directory = true → front ≠ [] →
      l.names = directory.names ++ front → l.text = directory.text ++
        String.ofList (Text.joinWith '/' (front.map String.toList) ++ ['/']) := by
    intro l front hl hfront hlnames
    have hobject := Location.text_of_append (k := l.asObject) (l := directory) rfl hfront hlnames
    rw [hdirectory] at hobject
    rw [← String.toList_inj, Location.text_of_directory hl, hobject]
    simp
  rw [drop_text hdirectory hk hrest hnames, List.mem_map]
  constructor
  · rintro ⟨d, hd, rfl⟩
    obtain ⟨front, after, hfront, hafter, hsplit, rfl⟩ := (mem_directoryTexts hsep d).mp hd
    have hvalid : ∀ name ∈ directory.names ++ front, IsName name := fun name hname =>
      k.isName_of_mem name
        (by rw [hnames, hsplit, ← List.append_assoc]; exact List.mem_append_left _ hname)
    let l : Location := ⟨directory.names ++ front, true, hvalid, fun h => by simp_all⟩
    exact ⟨l, htext l front rfl hfront rfl, rfl, front, after, hfront, hafter, hsplit, rfl⟩
  · rintro ⟨l, rfl, hl, front, after, hfront, hafter, hsplit, hlnames⟩
    exact ⟨_, (mem_directoryTexts hsep _).mpr ⟨front, after, hfront, hafter, hsplit, rfl⟩,
      (htext l front hl hfront hlnames).symm⟩

/-! ## What is listed -/

/-- The name part of a query is compared with the first name below its directory part. -/
lemma isPrefixOf_takeWhile_iff (hdirectory : directory.asDirectory = directory)
    (hk : k.isObject = true) (hrest : rest ≠ []) (hnames : k.names = directory.names ++ rest) :
    start.toList.isPrefixOf
        ((k.text.toList.drop directory.text.length).takeWhile (· ≠ '/')) = true ↔
      directory.Matches start k.names := by
  have hsep : ∀ name ∈ rest, '/' ∉ name.toList := fun name hname =>
    (k.isName_of_mem name (by simp [hnames, hname])).2.2
  rw [drop_text hdirectory hk hrest hnames, Location.takeWhile_joinWith hsep,
    List.isPrefixOf_iff_prefix, hnames, Location.matches_append_iff hrest]

/-- The entries that a listing starts from are the objects that match. -/
lemma mem_matching (hkeyed : s.Keyed) (hdirectory : directory.asDirectory = directory)
    {entry : String × StoredObject} : entry ∈ s.matching directory.text start ↔
      ∃ k : Location, k.isObject = true ∧ k.text = entry.1 ∧
        s.objects.get? entry.1 = some entry.2 ∧ directory.Matches start k.names := by
  rw [matching, List.mem_filter, SortedMap.mem_below, SortedMap.get?_eq_some_iff, ← hdirectory]
  constructor
  · rintro ⟨⟨hentry, hbelow⟩, hstart⟩
    have hkey : (s.objects.get? entry.1).isSome := by simp [SortedMap.get?_eq_some_iff.mpr hentry]
    obtain ⟨k, hk, htext⟩ := hkeyed entry.1 hkey
    rw [← htext] at hbelow hstart
    obtain ⟨rest, hrest, hnames⟩ := (Location.prefix_text_iff hk).mp hbelow
    refine ⟨k, hk, htext, hentry, ?_⟩
    rw [hdirectory] at hstart ⊢
    exact (isPrefixOf_takeWhile_iff hdirectory hk hrest hnames).mp hstart
  · rintro ⟨k, hk, htext, hentry, hmatches⟩
    obtain ⟨rest, hrest, hnames⟩ := hmatches.below
    refine ⟨⟨hentry, ?_⟩, ?_⟩
    · rw [← htext]
      exact (Location.prefix_text_iff hk).mpr ⟨rest, hrest, hnames⟩
    · rw [← htext, hdirectory]
      rw [hdirectory] at hmatches
      exact (isPrefixOf_takeWhile_iff hdirectory hk hrest hnames).mpr hmatches

lemma nodup_matching (hkeyed : s.Keyed) (hdirectory : directory.asDirectory = directory) :
    ((s.matching directory.text start).map fun entry => (Location.ofText entry.1).names).Nodup := by
  have hsublist : List.Sublist (s.matching directory.text start) s.objects.entries :=
    List.filter_sublist.trans ((List.takeWhile_sublist _).trans (List.dropWhile_sublist _))
  have hnodup : s.objects.entries.Nodup := by
    refine s.objects.ascending.imp fun hlt heq => ?_
    rw [heq] at hlt
    exact String.lt_irrefl _ hlt
  refine List.Nodup.map_on (fun a ha b hb hsame => ?_) (hnodup.sublist hsublist)
  obtain ⟨k, hk, hktext, hkey, -⟩ := (mem_matching hkeyed hdirectory).mp ha
  obtain ⟨l, hl, hltext, hkey', -⟩ := (mem_matching hkeyed hdirectory).mp hb
  rw [← hktext, ← hltext, Location.ofText_text, Location.ofText_text] at hsame
  obtain rfl := Location.eq_of_names_eq hk hl hsame
  have hfirst : a.1 = b.1 := hktext.symm.trans hltext
  rw [hfirst, hkey'] at hkey
  exact Prod.ext hfirst (Option.some.inj hkey).symm

/-- A directory that keys imply is described with its location. -/
lemma location_of_impliedDirectory? {entry : ObjectMeta} (h : s.impliedDirectory? l = some entry) :
    entry.location = l.asDirectory ∧ l.names ≠ [] := by
  rw [impliedDirectory?] at h
  split at h
  · cases h
  · rename_i hroot
    obtain ⟨time, -, rfl⟩ := Option.map_eq_some_iff.mp h
    exact ⟨rfl, by simpa [Location.isRoot] using hroot⟩

lemma isDirectory_of_impliedDirectory? {entry : ObjectMeta}
    (h : s.impliedDirectory? l = some entry) : entry.isDirectory = true := by
  obtain ⟨hlocation, hne⟩ := location_of_impliedDirectory? h
  rw [ObjectMeta.isDirectory, hlocation]
  simp [Location.asDirectory, hne]

/-- The directories of a listing do not count as its objects. -/
lemma objects_list (s : MemoryStore) (query : Location) : ObjectMeta.objects (s.list query) =
    ObjectMeta.objects ((s.matching query.splitLast.1.text query.splitLast.2).map fun entry =>
      ObjectMeta.ofObject (.ofText entry.1) entry.2.content.size entry.2.lastModified) := by
  rw [list, ObjectMeta.objects_append, List.append_right_eq_self]
  apply ObjectMeta.objects_of_directories
  intro entry hentry
  obtain ⟨text, -, himplied⟩ := List.mem_filterMap.mp hentry
  exact isDirectory_of_impliedDirectory? himplied

/-- The objects of a listing are those that match. -/
lemma mem_objects_list (hkeyed : s.Keyed) {size : Nat} :
    (k, size) ∈ ObjectMeta.objects (s.list query) ↔
      k.isObject = true ∧ query.splitLast.1.Matches query.splitLast.2 k.names ∧
        ∃ content, s.content? k = some content ∧ content.size = size := by
  have hdirectory := query.asDirectory_splitLast
  rw [objects_list, ObjectMeta.mem_objects]
  constructor
  · rintro ⟨e, he, rfl, rfl, -⟩
    obtain ⟨entry, hentry, rfl⟩ := List.mem_map.mp he
    obtain ⟨k, hk, htext, hkey, hmatches⟩ := (mem_matching hkeyed hdirectory).mp hentry
    have hlocation : Location.ofText entry.1 = k := by rw [← htext, Location.ofText_text]
    simp only [ObjectMeta.ofObject, hlocation]
    refine ⟨hk, hmatches, entry.2.content, ?_, rfl⟩
    rw [content?, htext, hkey]
    rfl
  · rintro ⟨hk, hmatches, content, hcontent, rfl⟩
    obtain ⟨object, hkey, rfl⟩ := Option.map_eq_some_iff.mp hcontent
    have hentry : (k.text, object) ∈ s.matching query.splitLast.1.text query.splitLast.2 :=
      (mem_matching hkeyed hdirectory).mpr ⟨k, hk, rfl, hkey, hmatches⟩
    refine ⟨_, List.mem_map.mpr ⟨_, hentry, rfl⟩, ?_, rfl, (Location.isObject_iff.mp hk).2⟩
    exact Location.ofText_text k

lemma nodup_objects_list (hkeyed : s.Keyed) (query : Location) :
    (ObjectMeta.objects (s.list query)).Nodup := by
  rw [objects_list]
  apply ObjectMeta.nodup_objects
  rw [List.map_map]
  exact nodup_matching hkeyed query.asDirectory_splitLast

/-! ## The directories of a listing -/

lemma mem_listedDirectories {self : Bool} {keys : List String} {text : String} :
    text ∈ listedDirectories start self keys ↔ (self = true ∧ keys ≠ [] ∧ text = start) ∨
      ∃ key ∈ keys, text ∈ (directoryTexts (key.toList.drop start.length)).map
        fun d => start ++ String.ofList d := by
  rw [listedDirectories, List.mem_eraseDups]
  split
  · rename_i hself
    rw [List.mem_cons, List.mem_flatMap]
    simp_all
  · rename_i hself
    rw [List.mem_flatMap]
    simp_all

lemma mem_keys_matching (hkeyed : s.Keyed) (hdirectory : directory.asDirectory = directory)
    {key : String} : key ∈ (s.matching directory.text start).map (·.1) ↔
      ∃ k : Location, k.isObject = true ∧ k.text = key ∧ directory.Matches start k.names ∧
        ∃ content, s.content? k = some content := by
  rw [List.mem_map]
  constructor
  · rintro ⟨entry, hentry, rfl⟩
    obtain ⟨k, hk, htext, hkey, hmatches⟩ := (mem_matching hkeyed hdirectory).mp hentry
    refine ⟨k, hk, htext, hmatches, entry.2.content, ?_⟩
    rw [content?, htext, hkey]
    rfl
  · rintro ⟨k, hk, rfl, hmatches, content, hcontent⟩
    obtain ⟨object, hkey, -⟩ := Option.map_eq_some_iff.mp hcontent
    exact ⟨(k.text, object), (mem_matching hkeyed hdirectory).mpr ⟨k, hk, rfl, hkey, hmatches⟩, rfl⟩

/-- The texts of the directories of a listing are those of directories above the objects that
match. -/
lemma exists_of_mem_listedDirectories (hkeyed : s.Keyed)
    (hdirectory : directory.asDirectory = directory) {text : String}
    (htext : text ∈ listedDirectories directory.text (!directory.isRoot && start.isEmpty)
      ((s.matching directory.text start).map (·.1))) :
    ∃ l : Location, l.text = text ∧ l.directory = true ∧ directory.Covers start l.names ∧
      ∃ k : Location, k.isObject = true ∧ (∃ content, s.content? k = some content) ∧
        directory.Matches start k.names ∧ ∃ after ≠ [], k.names = l.names ++ after := by
  rcases mem_listedDirectories.mp htext with ⟨hwhole, hkeys, rfl⟩ | ⟨key, hkey, hbetween⟩
  · rw [Bool.and_eq_true, Bool.not_eq_true', String.isEmpty_iff] at hwhole
    obtain ⟨key, hkey⟩ := List.exists_mem_of_ne_nil _ hkeys
    obtain ⟨k, hk, -, hmatches, hcontent⟩ := (mem_keys_matching hkeyed hdirectory).mp hkey
    have hmark : directory.directory = true := by
      rw [← hdirectory]
      simpa [Location.asDirectory, Location.isRoot] using hwhole.1
    exact ⟨directory, rfl, hmark, .inr ⟨rfl, hwhole⟩, k, hk, hcontent, hmatches, hmatches.below⟩
  · obtain ⟨k, hk, rfl, hmatches, hcontent⟩ := (mem_keys_matching hkeyed hdirectory).mp hkey
    obtain ⟨rest, hrest, hnames⟩ := hmatches.below
    obtain ⟨l, rfl, hmark, front, after, hfront, hafter, rfl, hlnames⟩ :=
      (mem_between hdirectory hk hrest hnames text).mp hbetween
    refine ⟨l, rfl, hmark, .inl ?_, k, hk, hcontent, hmatches, after, hafter, ?_⟩
    · rw [hnames, Location.matches_append_iff hrest] at hmatches
      rw [hlnames, Location.matches_append_iff hfront]
      obtain ⟨first, more, rfl⟩ := List.exists_cons_of_ne_nil hfront
      exact hmatches
    · rw [hnames, hlnames, List.append_assoc]

/-- The text of every directory above an object that matches is among those of a listing. -/
lemma mem_listedDirectories_of_covers (hkeyed : s.Keyed)
    (hdirectory : directory.asDirectory = directory) (hmark : l.directory = true)
    (hcovers : directory.Covers start l.names) (hk : k.isObject = true) {content : ByteArray}
    (hcontent : s.content? k = some content) (hmatches : directory.Matches start k.names)
    {after : List String} (hafter : after ≠ []) (hnames : k.names = l.names ++ after) :
    l.text ∈ listedDirectories directory.text (!directory.isRoot && start.isEmpty)
      ((s.matching directory.text start).map (·.1)) := by
  have hkey : k.text ∈ (s.matching directory.text start).map (·.1) :=
    (mem_keys_matching hkeyed hdirectory).mpr ⟨k, hk, rfl, hmatches, content, hcontent⟩
  refine mem_listedDirectories.mpr ?_
  rcases hcovers with ⟨first, more, hlnames, -⟩ | ⟨hlnames, hroot, rfl⟩
  · have hbelow : k.names = directory.names ++ (first :: more ++ after) := by
      rw [hnames, hlnames, List.append_assoc]
    exact .inr ⟨k.text, hkey, (mem_between hdirectory hk (by simp) hbelow l.text).mpr
      ⟨l, rfl, hmark, first :: more, after, by simp, hafter, rfl, hlnames⟩⟩
  · have hsame : l = directory := by
      rw [← hdirectory]
      refine Location.ext hlnames ?_
      rw [hmark]
      simpa [Location.asDirectory, Location.isRoot] using hroot
    exact .inl ⟨by simp [hroot], List.ne_nil_of_mem hkey, by rw [hsame]⟩

/-- The objects of a listing do not count as its directories. -/
lemma mem_directories_list_iff (hkeyed : s.Keyed) : l ∈ ObjectMeta.directories (s.list query) ↔
    ∃ text ∈ listedDirectories query.splitLast.1.text
        (!query.splitLast.1.isRoot && query.splitLast.2.isEmpty)
        ((s.matching query.splitLast.1.text query.splitLast.2).map (·.1)),
      ∃ e, s.impliedDirectory? (.ofText text) = some e ∧ e.location = l ∧ l.directory = true := by
  rw [ObjectMeta.mem_directories, list]
  constructor
  · rintro ⟨e, he, rfl, hmark⟩
    rcases List.mem_append.mp he with he | he
    · obtain ⟨entry, hentry, rfl⟩ := List.mem_map.mp he
      obtain ⟨k, hk, htext, -, -⟩ := (mem_matching hkeyed query.asDirectory_splitLast).mp hentry
      rw [ObjectMeta.ofObject, ← htext, Location.ofText_text,
        (Location.isObject_iff.mp hk).2] at hmark
      cases hmark
    · obtain ⟨text, htext, himplied⟩ := List.mem_filterMap.mp he
      exact ⟨text, htext, e, himplied, rfl, hmark⟩
  · rintro ⟨text, htext, e, himplied, rfl, hmark⟩
    exact ⟨e, List.mem_append_right _ (List.mem_filterMap.mpr ⟨text, htext, himplied⟩), rfl, hmark⟩

/-- The directories of a listing are those above the objects that match. -/
lemma mem_directories_list (hkeyed : s.Keyed) :
    l ∈ ObjectMeta.directories (s.list query) ↔ l.directory = true ∧
      query.splitLast.1.Covers query.splitLast.2 l.names ∧
      ∃ k : Location, k.isObject = true ∧ (∃ content, s.content? k = some content) ∧
        query.splitLast.1.Matches query.splitLast.2 k.names ∧
        ∃ after ≠ [], k.names = l.names ++ after := by
  have hdirectory := query.asDirectory_splitLast
  rw [mem_directories_list_iff hkeyed]
  constructor
  · rintro ⟨text, htext, e, himplied, rfl, hmark⟩
    obtain ⟨l, rfl, -, hcovers, hk⟩ := exists_of_mem_listedDirectories hkeyed hdirectory htext
    have hlocation := (location_of_impliedDirectory? himplied).1
    rw [Location.ofText_text] at hlocation
    refine ⟨hmark, ?_⟩
    rw [hlocation]
    exact ⟨hcovers, hk⟩
  · rintro ⟨hmark, hcovers, k, hk, ⟨content, hcontent⟩, hmatches, after, hafter, hnames⟩
    have hne := Location.names_ne_nil_of_directory hmark
    have himplied : s.impliedDirectory? l ≠ none := by
      intro hnone
      have hroot : l.isRoot = false := by simpa [Location.isRoot] using hne
      obtain ⟨object, hkey, -⟩ := Option.map_eq_some_iff.mp hcontent
      exact (impliedDirectory?_eq_none_iff hroot).mp hnone k.text (by simp [hkey])
        ((Location.prefix_text_iff hk).mpr ⟨after, hafter, hnames⟩)
    obtain ⟨e, he⟩ := Option.ne_none_iff_exists'.mp himplied
    refine ⟨l.text,
      mem_listedDirectories_of_covers hkeyed hdirectory hmark hcovers hk hcontent hmatches
      hafter hnames, e, by rw [Location.ofText_text, he], ?_, hmark⟩
    rw [(location_of_impliedDirectory? he).1]
    exact Location.ext rfl (by simp [Location.asDirectory, hne, hmark])

end MemoryStore

end CommitStore
