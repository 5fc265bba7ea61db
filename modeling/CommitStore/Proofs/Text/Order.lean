import Mathlib.Data.List.Basic
import Mathlib.Data.String.Basic
import Mathlib.Tactic.Common

/-!
# The order of texts and the order of bytes

Texts are compared character by character, and what is written on a disk or sent to a terminal is
their bytes.  The two orders are the same: in UTF-8 the bytes of a greater character are greater,
and those of no character begin with those of another one, so the first character that differs
decides (`Text.utf8EncodeChar_append_lt`).  `Text.bytes_lt_iff` is the result.
-/

namespace CommitStore

namespace Text

/-- The bytes of a text in UTF-8. -/
def bytes (text : String) : List UInt8 := text.toUTF8.data.toList

lemma bytes_eq_flatMap (text : String) :
    bytes text = text.toList.flatMap String.utf8EncodeChar := by
  conv_lhs => rw [← String.ofList_toList (s := text)]
  rw [bytes, String.toUTF8_eq_toByteArray, String.toByteArray_ofList, List.utf8Encode]
  simp

/-- The bytes of the lesser of two characters come first, whatever follows them. -/
lemma utf8EncodeChar_append_lt {c d : Char} (h : c < d) (s t : List UInt8) :
    String.utf8EncodeChar c ++ s < String.utf8EncodeChar d ++ t := by
  have hlt : c.val.toNat < d.val.toNat := h
  have hbound : d.val.toNat < 0x110000 := by
    have hvalid := d.valid
    simp only [UInt32.isValidChar, Nat.isValidChar] at hvalid
    omega
  have hbyte : ∀ n : Nat, (UInt8.ofNat n).toNat = n % 256 := fun _ => UInt8.toNat_ofNat'
  -- A character is written in digits to the base 64, the first of which also tells how many there
  -- are.
  have hdigits : ∀ n : Nat, n / 4096 = n / 64 / 64 ∧ n / 262144 = n / 64 / 64 / 64 := by omega
  simp only [String.utf8EncodeChar, (hdigits _).1, (hdigits _).2]
  generalize c.val.toNat = m at hlt
  generalize d.val.toNat = n at hlt hbound
  split_ifs <;>
    simp only [List.cons_append, List.nil_append, List.cons_lt_cons_iff, UInt8.lt_iff_toNat_lt,
      ← UInt8.toNat_inj, hbyte] <;>
    omega

lemma flatMap_utf8EncodeChar_lt {a b : List Char} (h : a < b) :
    a.flatMap String.utf8EncodeChar < b.flatMap String.utf8EncodeChar := by
  induction a generalizing b with
  | nil =>
    cases b with
    | nil => exact absurd h (List.not_lt_nil _)
    | cons d b =>
      obtain ⟨first, more, hd⟩ := List.exists_cons_of_ne_nil (String.utf8EncodeChar_ne_nil (c := d))
      rw [List.flatMap_cons, hd]
      exact List.nil_lt_cons _ _
  | cons c a ih =>
    cases b with
    | nil => exact absurd h (List.not_lt_nil _)
    | cons d b =>
      rw [List.flatMap_cons, List.flatMap_cons]
      rcases List.cons_lt_cons_iff.mp h with hlt | ⟨rfl, hlt⟩
      · exact utf8EncodeChar_append_lt hlt _ _
      · exact List.append_left_lt (ih hlt)

theorem bytes_lt_iff {a b : String} : bytes a < bytes b ↔ a < b := by
  have hmono : ∀ {a b : String}, a < b → bytes a < bytes b := fun h => by
    rw [bytes_eq_flatMap, bytes_eq_flatMap]
    exact flatMap_utf8EncodeChar_lt (String.lt_iff_toList_lt.mp h)
  refine ⟨fun h => ?_, hmono⟩
  by_contra hnot
  rcases eq_or_ne a b with rfl | hne
  · exact List.lt_irrefl _ h
  · have hba : b < a := by
      by_contra hle
      exact hne (String.le_antisymm hle hnot)
    exact List.lt_irrefl _ (List.lt_trans h (hmono hba))

end Text

end CommitStore
