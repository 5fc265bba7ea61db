import CommitStore.Proofs.Location.Text
import CommitStore.Store.Memory

/-!
# What stands where in a store in memory

The keys that begin with a given text stand next to each other in a sorted map, so looking for them
from the first one on finds all of them (`SortedMap.below_eq_filter`).  Since the text of a location
can be read back, a key lies below the text of a directory exactly when its names begin with those
of the directory.
-/

namespace CommitStore

/-! ## Sorted maps -/

namespace SortedMap

variable {α : Type}

lemma find?_insertEntry (key other : String) (value : α) (entries : List (String × α)) :
    (insertEntry key value entries).find? (fun entry => entry.1 = other) =
      if key = other then some (key, value) else entries.find? fun entry => entry.1 = other := by
  induction entries with
  | nil => by_cases ho : key = other <;> simp [insertEntry, ho]
  | cons first rest ih =>
    unfold insertEntry
    split
    · by_cases ho : key = other <;> simp [ho]
    · split
      · rename_i hsame
        by_cases ho : key = other
        · simp [ho]
        · have : first.1 ≠ other := hsame ▸ ho
          simp [ho, this]
      · rename_i hne
        rw [List.find?_cons, List.find?_cons, ih]
        by_cases ho : key = other
        · have : first.1 ≠ other := fun h => hne (ho.trans h.symm)
          simp [ho, this]
        · simp [ho]

lemma get?_insert (m : SortedMap α) (key other : String) (value : α) :
    (m.insert key value).get? other = if key = other then some value else m.get? other := by
  rw [get?, insert, find?_insertEntry]
  split <;> rfl

lemma get?_erase (m : SortedMap α) (key other : String) :
    (m.erase key).get? other = if key = other then none else m.get? other := by
  rw [get?, erase, List.find?_filter]
  by_cases ho : key = other
  · rw [if_pos ho, Option.map_eq_none_iff, List.find?_eq_none]
    simp [ho]
  · have hpredicate : (fun entry : String × α => decide (decide (entry.1 ≠ key) = true ∧
        decide (entry.1 = other) = true)) = fun entry => decide (entry.1 = other) := by
      funext entry
      by_cases h : entry.1 = other
      · simp [h, Ne.symm ho]
      · simp [h]
    rw [if_neg ho, get?, hpredicate]

lemma contains_eq_isSome (m : SortedMap α) (key : String) :
    m.contains key = (m.get? key).isSome := by
  rw [contains, get?, Option.isSome_map, List.isSome_find?]

lemma get?_eq_some_iff {m : SortedMap α} {key : String} {value : α} :
    m.get? key = some value ↔ (key, value) ∈ m.entries := by
  rw [get?, Option.map_eq_some_iff]
  constructor
  · rintro ⟨entry, hfind, rfl⟩
    have hkey : entry.1 = key := by simpa using List.find?_some hfind
    rw [← hkey]
    exact List.mem_of_find?_eq_some hfind
  · intro hmem
    cases hfind : m.entries.find? fun entry => decide (entry.1 = key) with
    | none => simpa using List.find?_eq_none.mp hfind _ hmem
    | some entry =>
      have hkey : entry.1 = key := by simpa using List.find?_some hfind
      -- Two entries with one key are the same, since the keys ascend.
      have hsame : entry = (key, value) := by
        by_contra hne
        have hpair := List.Pairwise.forall_of_forall_of_flip (R := fun a b => a ≠ b → a.1 ≠ b.1)
          (by simp) (m.ascending.imp fun hlt _ heq => String.lt_irrefl _ (heq ▸ hlt))
          (m.ascending.imp fun hlt _ heq => String.lt_irrefl _ (heq ▸ hlt))
        exact hpair (List.mem_of_find?_eq_some hfind) hmem hne hkey
      exact ⟨entry, rfl, by rw [hsame]⟩

end SortedMap

/-! ## The keys below a text -/

namespace Text

lemma not_lt_of_prefix {start a : List Char} (h : start <+: a) : ¬ a < start := by
  obtain ⟨rest, rfl⟩ := h
  induction start with
  | nil => simp
  | cons c start ih =>
    rw [List.cons_append, List.cons_lt_cons_iff]
    rintro (hlt | ⟨-, hlt⟩)
    · exact Char.lt_irrefl c hlt
    · exact ih hlt

/-- Between `start` and a text that begins with it, every text begins with it. -/
lemma prefix_of_between {start a b : List Char} (hstart : ¬ a < start) (hlt : a < b)
    (hb : start <+: b) : start <+: a := by
  induction start generalizing a b with
  | nil => exact List.nil_prefix
  | cons c start ih =>
    obtain ⟨rest, rfl⟩ := hb
    cases a with
    | nil => exact absurd (List.nil_lt_cons c start) hstart
    | cons d a =>
      rw [List.cons_lt_cons_iff, not_or, not_and] at hstart
      rw [List.cons_append, List.cons_lt_cons_iff] at hlt
      rcases hlt with hlt | ⟨rfl, hlt⟩
      · exact absurd hlt hstart.1
      · exact List.cons_prefix_cons.mpr ⟨rfl, ih (hstart.2 rfl) hlt (List.prefix_append start rest)⟩

end Text

namespace SortedMap

variable {α : Type}

/-- From the first key on that does not come before a text, the keys that begin with it come
first. -/
lemma takeWhile_prefix_eq_filter {start : String} {entries : List (String × α)}
    (hascending : entries.Pairwise fun a b => a.1 < b.1)
    (hfrom : ∀ entry ∈ entries, ¬ entry.1 < start) :
    entries.takeWhile (fun e => start.toList.isPrefixOf e.1.toList) =
      entries.filter fun e => start.toList.isPrefixOf e.1.toList := by
  induction entries with
  | nil => rfl
  | cons first rest ih =>
    rw [List.pairwise_cons] at hascending
    by_cases hfirst : start.toList <+: first.1.toList
    · rw [List.takeWhile_cons_of_pos (by simpa using hfirst),
        List.filter_cons_of_pos (by simpa using hfirst),
        ih hascending.2 fun e he => hfrom e (List.mem_cons_of_mem _ he)]
    · rw [List.takeWhile_cons_of_neg (by simpa using hfirst),
        List.filter_cons_of_neg (by simpa using hfirst), eq_comm, List.filter_eq_nil_iff]
      -- The first key lies between the text and every later key, so no later one begins with the
      -- text either.
      intro e he hprefix
      rw [List.isPrefixOf_iff_prefix] at hprefix
      exact hfirst (Text.prefix_of_between (hfrom first List.mem_cons_self)
        (hascending.1 e he) hprefix)

/-- A look at every entry finds the same ones below a text, in the same order. -/
lemma below_eq_filter (m : SortedMap α) (start : String) :
    m.below start = m.entries.filter fun entry => start.toList.isPrefixOf entry.1.toList := by
  have hgeneral : ∀ entries : List (String × α), entries.Pairwise (fun a b => a.1 < b.1) →
      (entries.dropWhile fun e => e.1 < start).takeWhile
          (fun e => start.toList.isPrefixOf e.1.toList) =
        entries.filter fun e => start.toList.isPrefixOf e.1.toList := by
    intro entries hascending
    induction entries with
    | nil => rfl
    | cons first rest ih =>
      by_cases hfirst : first.1 < start
      · have hnot : ¬ start.toList <+: first.1.toList := fun hprefix =>
          Text.not_lt_of_prefix hprefix hfirst
        rw [List.dropWhile_cons_of_pos (by simpa using hfirst),
          List.filter_cons_of_neg (by simpa using hnot), ih (List.pairwise_cons.mp hascending).2]
      · rw [List.dropWhile_cons_of_neg (by simpa using hfirst)]
        refine takeWhile_prefix_eq_filter hascending fun e he => ?_
        rcases List.mem_cons.mp he with rfl | he
        · exact hfirst
        · intro hlt
          exact hfirst (String.lt_trans ((List.pairwise_cons.mp hascending).1 e he) hlt)
  exact hgeneral m.entries m.ascending

lemma mem_below {m : SortedMap α} {start : String} {entry : String × α} :
    entry ∈ m.below start ↔ entry ∈ m.entries ∧ start.toList <+: entry.1.toList := by
  rw [below_eq_filter, List.mem_filter, List.isPrefixOf_iff_prefix]

end SortedMap

/-! ## Stores in memory -/

namespace MemoryStore

variable {s : MemoryStore} {l : Location}

lemma newest?_eq_none_iff {times : List Instant} : newest? times = none ↔ times = [] := by
  cases times <;> simp [newest?]

lemma impliedDirectory?_eq_none_iff (hl : l.isRoot = false) :
    s.impliedDirectory? l = none ↔
      ∀ key, (s.objects.get? key).isSome → ¬ l.asDirectory.text.toList <+: key.toList := by
  rw [impliedDirectory?, hl, if_neg (by simp), Option.map_eq_none_iff, newest?_eq_none_iff,
    List.map_eq_nil_iff, List.eq_nil_iff_forall_not_mem]
  constructor
  · intro h key hkey hprefix
    obtain ⟨object, hobject⟩ := Option.isSome_iff_exists.mp hkey
    exact h (key, object) (SortedMap.mem_below.mpr ⟨SortedMap.get?_eq_some_iff.mp hobject, hprefix⟩)
  · rintro h ⟨key, object⟩ hmem
    obtain ⟨hentry, hprefix⟩ := SortedMap.mem_below.mp hmem
    exact h key (by simp [SortedMap.get?_eq_some_iff.mpr hentry]) hprefix

lemma find_eq (hl : l.isRoot = false) : s.find l = match s.objects.get? l.text with
    | some object => .ok object
    | none =>
      match s.impliedDirectory? l with
      | some entry => .error (.isDirectory entry)
      | none => .error (.notFound l) :=
  if_neg (by simp [hl])

end MemoryStore

end CommitStore
