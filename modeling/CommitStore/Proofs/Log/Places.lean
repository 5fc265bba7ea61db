import CommitStore.Proofs.Location.Text
import CommitStore.Proofs.State.ReadBack
import CommitStore.Proofs.Store.Presence

/-!
# The places of a log

A log keeps version `v` in the slot `_log/v.json`, with `v` written in at least twenty digits
(`Log.slot`), and every committer prepares its entry at a staging location of its own
(`Log.staging`).  No two of these locations are the same, and none of them is below another.
-/

namespace CommitStore

namespace Log

/-- The name of the slot of a version. -/
def slotName (v : Nat) : String := String.ofList (Text.zeroPadded 20 v) ++ ".json"

/-- The name of the staging location of a committer. -/
def stagingName (i : Nat) : String := String.ofList (Text.decimal i)

/-- The slot of a version. -/
def slot (v : Nat) : Location := .ofText ("_log/" ++ slotName v)

/-- The staging location of a committer. -/
def staging (i : Nat) : Location := .ofText ("_log/_staging/" ++ stagingName i)

/-- The location is a slot or a staging location. -/
def IsPlace (l : Location) : Prop := (∃ v, l = slot v) ∨ ∃ i, l = staging i

example : (slot 7).text = "_log/00000000000000000007.json" := by decide +kernel

/-! ## Names -/

/-- A slot is named with digits and the letters of the extension only. -/
lemma isDigit_or_mem_of_mem_slotName {v : Nat} {c : Char} (h : c ∈ (slotName v).toList) :
    c.isDigit = true ∨ c ∈ ".json".toList := by
  rw [slotName, String.toList_append, String.toList_ofList, List.mem_append] at h
  exact h.imp_left Text.isDigit_of_mem_zeroPadded

lemma isName_slotName (v : Nat) : IsName (slotName v) := by
  refine ⟨by simp [slotName], fun hdot => ?_, fun hmem => ?_⟩
  · have hlength := congrArg String.length hdot
    have hext : ".json".length = 5 := by decide
    have hone : ".".length = 1 := by decide
    simp only [slotName, String.length_append, hext, hone] at hlength
    omega
  · rcases isDigit_or_mem_of_mem_slotName hmem with hdigit | hend
    · simp at hdigit
    · simp at hend

lemma isName_stagingName (i : Nat) : IsName (stagingName i) := by
  have hdigits : ∀ c ∈ (stagingName i).toList, c.isDigit = true := by
    simpa [stagingName] using fun c hc => Text.isDigit_of_mem_decimal (n := i) (c := c) hc
  refine ⟨?_, ?_, fun hmem => by simpa using hdigits '/' hmem⟩
  · have hne : Text.decimal i ≠ [] := Nat.toDigits_ne_nil
    simp [stagingName, hne]
  · intro hdot
    simpa [hdot] using hdigits '.'

lemma slotName_injective : Function.Injective slotName := by
  intro v w h
  have hdigits : Text.zeroPadded 20 v = Text.zeroPadded 20 w := by
    simpa [slotName, ← String.toList_inj] using h
  rw [← Text.ofDecimal_zeroPadded 20 v, hdigits, Text.ofDecimal_zeroPadded]

lemma stagingName_injective : Function.Injective stagingName := by
  intro i j h
  have hdigits : Text.decimal i = Text.decimal j := by
    simpa [stagingName, ← String.toList_inj] using h
  rw [← Text.ofDecimal_decimal i, hdigits, Text.ofDecimal_decimal]

lemma slotName_ne_staging (v : Nat) : slotName v ≠ "_staging" := by
  intro h
  have hmem : '_' ∈ (slotName v).toList := by simp [h]
  rcases isDigit_or_mem_of_mem_slotName hmem with hdigit | hend
  · simp at hdigit
  · simp at hend

/-! ## Locations -/

lemma slot_eq (v : Nat) : (slot v).names = ["_log", slotName v] ∧ (slot v).directory = false := by
  let l : Location := ⟨["_log", slotName v], false,
    by simpa using ⟨by decide, isName_slotName v⟩, by simp⟩
  have htext : "_log/" ++ slotName v = l.text := by
    rw [← String.toList_inj]
    simp [l, Location.text, Text.joinWith]
  rw [slot, htext, Location.ofText_text]
  exact ⟨rfl, rfl⟩

lemma staging_eq (i : Nat) :
    (staging i).names = ["_log", "_staging", stagingName i] ∧ (staging i).directory = false := by
  let l : Location := ⟨["_log", "_staging", stagingName i], false,
    by simpa using ⟨by decide, by decide, isName_stagingName i⟩, by simp⟩
  have htext : "_log/_staging/" ++ stagingName i = l.text := by
    rw [← String.toList_inj]
    simp [l, Location.text, Text.joinWith]
  rw [staging, htext, Location.ofText_text]
  exact ⟨rfl, rfl⟩

lemma isPlace_slot (v : Nat) : IsPlace (slot v) := .inl ⟨v, rfl⟩

lemma isPlace_staging (i : Nat) : IsPlace (staging i) := .inr ⟨i, rfl⟩

lemma IsPlace.names_ne_nil {l : Location} (h : IsPlace l) : l.names ≠ [] := by
  rcases h with ⟨v, rfl⟩ | ⟨i, rfl⟩
  · simp [slot_eq]
  · simp [staging_eq]

lemma apart_slot_slot {v w : Nat} (h : v ≠ w) : (slot v).Apart (slot w) := by
  have hne : slotName v ≠ slotName w := fun heq => h (slotName_injective heq)
  simp [Location.Apart, slot_eq, hne, hne.symm]

lemma apart_slot_staging (v i : Nat) : (slot v).Apart (staging i) := by
  simp [Location.Apart, slot_eq, staging_eq, slotName_ne_staging v]

lemma apart_staging_staging {i j : Nat} (h : i ≠ j) : (staging i).Apart (staging j) := by
  have hne : stagingName i ≠ stagingName j := fun heq => h (stagingName_injective heq)
  simp [Location.Apart, staging_eq, hne, hne.symm]

end Log

end CommitStore
