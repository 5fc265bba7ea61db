import CommitStore.Command.Run
import CommitStore.Proofs.Command.JsonListing
import CommitStore.Proofs.Command.Lines
import CommitStore.Proofs.Location.Algebra
import CommitStore.Proofs.Store.Reading
import CommitStore.Proofs.Text.Order

/-!
# What is shown of a store is a tree

A listing comes in no particular order and is sorted by location before it is shown.  No location is
listed twice (`Backend.nodup_location_of_list`), so the order is strict.  Everything below a
directory has a text that begins with that of the directory, and such texts stand next to each
other, whatever other names begin in the same way: right behind a directory come all entries below
it, and then none of them any more.  `Listing.IsTree` is this order, and
`Listing.isTree_of_ascending` reduces it to the texts.

What is printed of the entries is told without the printer: as text, each entry has a line with
`Listing.IsLineOf`; as JSON, they are what `Listing.read?` finds.
-/

namespace CommitStore

/-! ## Below a directory -/

namespace Location

variable {d l : Location}

lemma isAbove_iff_of_directory (hd : d.directory = true) :
    d.IsAbove l ↔ d.text.toList <+: l.text.toList ∧ l ≠ d := by
  have hne : d.names ≠ [] := names_ne_nil_of_directory hd
  have hobject : d.asObject.isObject = true := isObject_iff.mpr ⟨hne, rfl⟩
  have hself : d.asObject.asDirectory = d := asDirectory_of_directory hd
  have habove := isAbove_iff_prefix_text (l := l) hobject
  rwa [← text_of_directory hd, hself] at habove

end Location

/-! ## No location is listed twice -/

/-- What is listed at a location is told by the location. -/
lemma ObjectStore.EntriesReadBack.eq_of_location {σ : Type} [ObjectStore σ] {store : σ}
    {query : Location} {entries : List ObjectMeta} {m m' : ObjectMeta}
    (h : ObjectStore.EntriesReadBack store) (hlist : ObjectStore.list store query = .ok entries)
    (hm : m ∈ entries) (hm' : m' ∈ entries) (hsame : m.location = m'.location) : m = m' := by
  have hread := h query entries hlist m hm
  have hread' := h query entries hlist m' hm'
  have hkind : m.isDirectory = m'.isDirectory := by
    rw [ObjectMeta.isDirectory, hsame, ObjectMeta.isDirectory]
  rw [hsame, hread', hkind] at hread
  cases hmark : m'.isDirectory <;> simpa [hmark, eq_comm] using hread

/-- Sorted entries have ascending locations; equal ones are not ruled out. -/
lemma ObjectStore.pairwise_mergeSort (entries : List ObjectMeta) :
    (entries.mergeSort comesBefore).Pairwise fun m m' => m.location.text ≤ m'.location.text := by
  have hsorted : (entries.mergeSort comesBefore).Pairwise fun m m' => comesBefore m m' = true :=
    List.pairwise_mergeSort
      (fun m₁ m₂ m₃ h₁₂ h₂₃ => by
        simp only [comesBefore, decide_eq_true_eq] at h₁₂ h₂₃ ⊢
        exact String.le_trans h₁₂ h₂₃)
      (fun m₁ m₂ => by
        simpa [comesBefore] using String.le_total m₁.location.text m₂.location.text) entries
  exact hsorted.imp fun h => by simpa [comesBefore] using h

namespace Backend

variable {b : Backend} {query : Location} {entries : List ObjectMeta}

lemma nodup_location_of_list (hb : b.Reachable) (h : ObjectStore.list b query = .ok entries) :
    (entries.map (·.location)).Nodup := by
  cases b with
  | memory s =>
    have hkeyed := MemoryStore.Reachable.keyed hb
    have hlist : ObjectStore.list s query = .ok entries := h
    obtain rfl : s.list query = entries := Except.ok.inj hlist
    exact (MemoryStore.nodup_list hkeyed query).map_on fun m hm m' hm' =>
      (MemoryStore.entriesReadBack hkeyed).eq_of_location hlist hm hm'
  | disk s =>
    have hsound := DiskStore.Reachable.sound hb
    obtain ⟨hparent, ⟨rfl, -⟩ | ⟨inside, hlookup, rfl⟩⟩ := DiskStore.list_cases (s := s) h
    · exact List.nodup_nil
    · have hinside := DiskStore.wellFormed_inside hsound.wellFormed hparent hlookup
      have hnames := DiskStore.nodup_names_listing hinside s query.splitLast.1 query.splitLast.2
      exact List.Nodup.of_map Location.names (by simpa [Function.comp_def] using hnames)

/-- The entries that are shown are those of the listing, and their texts ascend. -/
lemma sortedList_of_list (hb : b.Reachable) (h : ObjectStore.list b query = .ok entries) :
    ∃ shown, ObjectStore.sortedList b query = .ok shown ∧ shown.Perm entries ∧
      shown.Pairwise fun m m' => m.location.text < m'.location.text := by
  have hperm : (entries.mergeSort ObjectStore.comesBefore).Perm entries := List.mergeSort_perm _ _
  have hnodup : ((entries.mergeSort ObjectStore.comesBefore).map (·.location)).Nodup :=
    (hperm.map (·.location)).nodup_iff.mpr (nodup_location_of_list hb h)
  have hdistinct : (entries.mergeSort ObjectStore.comesBefore).Pairwise
      fun m m' => m.location ≠ m'.location :=
    List.pairwise_map.mp hnodup
  refine ⟨_, by rw [ObjectStore.sortedList, h]; rfl, hperm, ?_⟩
  refine (ObjectStore.pairwise_mergeSort entries).imp₂ (fun m m' hle hne => ?_) hdistinct
  by_contra hnot
  exact hne (Location.text_eq_text_iff.mp (String.le_antisymm hle hnot))

end Backend

/-! ## The order of a tree -/

namespace Listing

variable {shown front behind : List ObjectMeta} {d : ObjectMeta}

/-- Entries in strictly ascending order of the bytes of their locations.  Right behind a directory
come all entries below it, and there are no others. -/
structure IsTree (shown : List ObjectMeta) : Prop where
  ascending : shown.Pairwise fun m m' => Text.bytes m.location.text < Text.bytes m'.location.text
  block : ∀ front d behind, shown = front ++ d :: behind → d.isDirectory = true →
    ∃ inside after, behind = inside ++ after ∧ (∀ m ∈ inside, d.location.IsAbove m.location) ∧
      ∀ m ∈ front ++ after, ¬ d.location.IsAbove m.location

/-- Entries whose texts ascend are those that begin with a text first, if none comes before that
text. -/
lemma not_prefix_of_mem_dropWhile {start : String}
    (hascending : behind.Pairwise fun m m' => m.location.text < m'.location.text)
    (hfrom : ∀ m ∈ behind, ¬ m.location.text < start) {m : ObjectMeta}
    (hm : m ∈ behind.dropWhile fun m => start.toList.isPrefixOf m.location.text.toList) :
    ¬ start.toList <+: m.location.text.toList := by
  induction behind with
  | nil => cases hm
  | cons first rest ih =>
    rw [List.pairwise_cons] at hascending
    have hrest := ih hascending.2 fun m hm => hfrom m (List.mem_cons_of_mem _ hm)
    by_cases hfirst : start.toList <+: first.location.text.toList
    · rw [List.dropWhile_cons_of_pos (by simpa using hfirst)] at hm
      exact hrest hm
    · rw [List.dropWhile_cons_of_neg (by simpa using hfirst)] at hm
      rcases List.mem_cons.mp hm with rfl | hm
      · exact hfirst
      · -- Something that begins with the text would have what comes before it begin with it, too.
        exact fun hbegins => hfirst (Text.prefix_of_between (hfrom first List.mem_cons_self)
          (hascending.1 m hm) hbegins)

/-- Entries whose texts ascend make a tree. -/
lemma isTree_of_ascending (h : shown.Pairwise fun m m' => m.location.text < m'.location.text) :
    IsTree shown where
  ascending := h.imp Text.bytes_lt_iff.mpr
  block front d behind hshown hd := by
    subst hshown
    obtain ⟨-, hbehind, hfront⟩ := List.pairwise_append.mp h
    rw [List.pairwise_cons] at hbehind
    have hbelow : ∀ m : ObjectMeta, d.location.IsAbove m.location ↔
        d.location.text.toList <+: m.location.text.toList ∧ m.location ≠ d.location :=
      fun _ => Location.isAbove_iff_of_directory hd
    refine ⟨_, _, (List.takeWhile_append_dropWhile
      (p := fun m => d.location.text.toList.isPrefixOf m.location.text.toList)).symm, ?_, ?_⟩
    · intro m hm
      have hlater := hbehind.1 m ((List.takeWhile_sublist _).mem hm)
      refine (hbelow m).mpr ⟨by simpa using List.mem_takeWhile_imp hm, fun hsame => ?_⟩
      rw [hsame] at hlater
      exact String.lt_irrefl _ hlater
    · intro m hm habove
      obtain ⟨hbegins, -⟩ := (hbelow m).mp habove
      rcases List.mem_append.mp hm with hm | hm
      · exact Text.not_lt_of_prefix hbegins (hfront m hm d List.mem_cons_self)
      · exact not_prefix_of_mem_dropWhile hbehind.2
          (fun m hm hlt => String.lt_irrefl _ (String.lt_trans (hbehind.1 m hm) hlt)) hm hbegins

/-- Entries can be put in the order of a tree in one way only. -/
lemma IsTree.eq_of_perm {shown' : List ObjectMeta} (h : IsTree shown) (h' : IsTree shown')
    (hperm : shown.Perm shown') : shown = shown' :=
  hperm.eq_of_pairwise (fun _ _ _ _ hlt hgt => absurd hgt (List.lt_asymm hlt)) h.ascending
    h'.ascending

end Listing

/-! ## What is shown -/

namespace Environment

variable {b : Backend} {query : Location} {entries : List ObjectMeta}

/-- When a store can be listed, its entries are shown in the order of a tree, the same for both
formats.  As text they are shown line by line, each line about its entry.  As JSON they are an array
in which the entries are read back, as long as each size is a number of 64 bits. -/
theorem list_shows_tree (env : Environment) (hb : b.Reachable)
    (hlist : ObjectStore.list b query = .ok entries) :
    ∃ shown, shown.Perm entries ∧ Listing.IsTree shown ∧
      env.list b query .text = .ok (String.ofList (shown.flatMap (Listing.line env.color))).toUTF8 ∧
      (∀ m ∈ shown, Listing.IsLineOf env.color m (Listing.line env.color m)) ∧
      ∃ bytes, env.list b query .json = .ok bytes ∧
        ((∀ m ∈ entries, m.size < UInt64.size) → Listing.read? bytes = some shown) := by
  obtain ⟨shown, hsorted, hperm, hascending⟩ := Backend.sortedList_of_list hb hlist
  have hshown : ∀ format, env.list b query format =
      .ok (Listing.render format env.color shown).toUTF8 := fun format => by rw [list, hsorted]
  refine ⟨shown, hperm, Listing.isTree_of_ascending hascending, hshown .text,
    fun m _ => Listing.isLineOf_line env.color m, _, hshown .json, fun hsize => ?_⟩
  exact Listing.read?_render env.color fun m hm => hsize m (hperm.subset hm)

/-- The objects `a`, `a-b`, `a/b` and `a0`, whose texts differ around that of the directory `a/`. -/
def neighbours : MemoryStore :=
  ["a0", "a/b", "a-b", "a"].foldl
    (fun s name => ((Operation.put (.ofText name) ⟨#[1]⟩ .epoch).attempt s).2) .empty

/-- What is listed of them, in the order in which it is shown. -/
def neighbourEntries : List ObjectMeta :=
  [.ofObject (.ofText "a") 1 .epoch, .ofObject (.ofText "a-b") 1 .epoch,
    .ofDirectory (.ofText "a") .epoch, .ofObject (.ofText "a/b") 1 .epoch,
    .ofObject (.ofText "a0") 1 .epoch]

/-- The directory stands right in front of the object in it, and between its neighbours. -/
theorem neighbours_shows_tree :
    list ⟨.bare ["w"], .empty, false, .epoch⟩ (.memory neighbours) .root .text =
        .ok ("         1  1970-01-01 00:00:00  a\n" ++
          "         1  1970-01-01 00:00:00  a-b\n" ++
          "       DIR  1970-01-01 00:00:00  a/\n" ++
          "         1  1970-01-01 00:00:00  a/b\n" ++
          "         1  1970-01-01 00:00:00  a0\n").toUTF8 ∧
      ∃ bytes,
        list ⟨.bare ["w"], .empty, false, .epoch⟩ (.memory neighbours) .root .json = .ok bytes ∧
        Listing.read? bytes = some neighbourEntries := by
  have hreach : neighbours.Reachable := .attempt (.attempt (.attempt (.attempt .empty _) _) _) _
  have hlist : ObjectStore.list (Backend.memory neighbours) .root = .ok (neighbours.list .root) :=
    rfl
  obtain ⟨shown, hperm, htree, htext, -, bytes, hjson, hread⟩ :=
    list_shows_tree ⟨.bare ["w"], .empty, false, .epoch⟩ (b := .memory neighbours) hreach hlist
  have hentries : Listing.IsTree neighbourEntries :=
    Listing.isTree_of_ascending (by decide +kernel)
  obtain rfl : shown = neighbourEntries :=
    htree.eq_of_perm hentries (hperm.trans (by decide +kernel))
  exact ⟨htext.trans (congrArg (fun text : String => Except.ok text.toUTF8) (by decide +kernel)),
    bytes, hjson, hread (by decide +kernel)⟩

end Environment

end CommitStore
