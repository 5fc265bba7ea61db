import CommitStore.Text.Blank
import CommitStore.Text.Digits
import Mathlib.Algebra.Ring.Nat
import Mathlib.Tactic.Common

/-!
# Runs of decimal digits

Numbers are written as runs of decimal digits, filled up to a width or not, and a digit is no white
space.  Readers of numbers therefore need to know about a written number only that it is such a run,
`Text.IsDigits`, and how long it is.
-/

namespace CommitStore

namespace Text

/-- At least one decimal digit, and nothing else. -/
def IsDigits (digits : List Char) : Prop := digits ≠ [] ∧ ∀ c ∈ digits, c.isDigit = true

lemma IsDigits.exists_cons {digits : List Char} (h : IsDigits digits) :
    ∃ c more, digits = c :: more ∧ c.isDigit = true := by
  obtain ⟨c, more, rfl⟩ := List.exists_cons_of_ne_nil h.1
  exact ⟨c, more, rfl, h.2 c List.mem_cons_self⟩

lemma isDigit_of_mem_decimal {n : Nat} {c : Char} (h : c ∈ decimal n) : c.isDigit = true :=
  Nat.isDigit_of_mem_toDigits (by omega) (by omega) h

lemma isDigits_decimal (n : Nat) : IsDigits (decimal n) :=
  ⟨Nat.toDigits_ne_nil, fun _ => isDigit_of_mem_decimal⟩

lemma isDigit_of_mem_zeroPadded {width n : Nat} {c : Char} (h : c ∈ zeroPadded width n) :
    c.isDigit = true := by
  rcases List.mem_append.mp h with hzero | hdigits
  · rw [List.eq_of_mem_replicate hzero]
    rfl
  · exact isDigit_of_mem_decimal hdigits

lemma isDigits_zeroPadded (width n : Nat) : IsDigits (zeroPadded width n) :=
  ⟨by simp [zeroPadded, padLeft, (isDigits_decimal n).1], fun _ => isDigit_of_mem_zeroPadded⟩

lemma length_zeroPadded {width n : Nat} (hwidth : 0 < width) (h : n < 10 ^ width) :
    (zeroPadded width n).length = width := by
  have hlength : (decimal n).length ≤ width := (Nat.length_toDigits_le_iff (by omega) hwidth).mpr h
  rw [zeroPadded, padLeft, List.length_append, List.length_replicate]
  omega

/-- Only the number zero is written with a zero in front. -/
lemma decimal_cases (n : Nat) :
    decimal n = ['0'] ∨ ∃ c rest, decimal n = c :: rest ∧ c ≠ '0' := by
  induction n using Nat.strongRecOn with
  | ind n ih =>
    rw [decimal, Nat.toDigits_eq_if (by omega)]
    split
    · by_cases hc : n.digitChar = '0'
      · exact .inl (by rw [hc])
      · exact .inr ⟨_, [], rfl, hc⟩
    · rename_i hlarge
      rcases ih (n / 10) (by omega) with hzero | ⟨c, rest, hrest, hc⟩
      · have hvalue := congrArg ofDecimal hzero
        rw [ofDecimal_decimal] at hvalue
        have : ofDecimal ['0'] = 0 := rfl
        omega
      · rw [decimal] at hrest
        exact .inr ⟨c, rest ++ [(n % 10).digitChar], by rw [hrest]; rfl, hc⟩

lemma exists_digitChar {c : Char} (hc : c.isDigit = true) : ∃ d < 10, c = d.digitChar := by
  have hbounds : 48 ≤ c.toNat ∧ c.toNat ≤ 57 := by
    simpa [Char.isDigit, UInt32.le_iff_toNat_le] using hc
  have hvalue : ∀ d < 10, d.digitChar.toNat = 48 + d := by decide
  refine ⟨c.toNat - 48, by omega, ?_⟩
  rw [← Char.toNat_inj, hvalue _ (by omega)]
  omega

/-- Digits behind those of a number go on with it. -/
lemma decimal_append_digits {digits : List Char} (h : ∀ c ∈ digits, c.isDigit = true) {n : Nat}
    (hn : 0 < n) : decimal n ++ digits = decimal (Nat.ofDigitChars 10 digits n) := by
  induction digits generalizing n with
  | nil => simp
  | cons c digits ih =>
    obtain ⟨d, hd, rfl⟩ := exists_digitChar (h c List.mem_cons_self)
    have hfirst : decimal n ++ [d.digitChar] = decimal (10 * n + d) := by
      rw [decimal, decimal, ← Nat.toDigits_append_toDigits (by omega) hn hd,
        Nat.toDigits_of_lt_base hd]
    rw [Nat.ofDigitChars_cons_digitChar_of_lt_ten hd,
      ← ih (fun c hc => h c (List.mem_cons_of_mem _ hc))
      (by omega), ← hfirst, List.append_assoc, List.singleton_append]

/-- Digits that do not begin with zero are those that their number is written with. -/
lemma decimal_ofDecimal {digits : List Char} (h : IsDigits digits)
    (hhead : digits.head? ≠ some '0') : decimal (ofDecimal digits) = digits := by
  obtain ⟨c, more, rfl, hc⟩ := h.exists_cons
  obtain ⟨d, hd, rfl⟩ := exists_digitChar hc
  have hpos : 0 < d := by
    rw [Nat.pos_iff_ne_zero]
    rintro rfl
    exact hhead rfl
  rw [ofDecimal, Nat.ofDigitChars_cons_digitChar_of_lt_ten hd, Nat.mul_zero, Nat.zero_add,
    ← decimal_append_digits (fun c hc => h.2 c (List.mem_cons_of_mem _ hc)) hpos, decimal,
    Nat.toDigits_of_lt_base hd, List.singleton_append]

lemma ofDecimal_append_zeros (digits : List Char) (k : Nat) :
    ofDecimal (digits ++ List.replicate k '0') = ofDecimal digits * 10 ^ k := by
  rw [ofDecimal, Nat.ofDigitChars_append, Nat.ofDigitChars_replicate_zero, Nat.mul_comm]
  rfl

/-! ## White space -/

lemma isBlank_of_isDigit {c : Char} (h : c.isDigit = true) : isBlank c = false := by
  have hbounds : 48 ≤ c.toNat ∧ c.toNat ≤ 57 := by
    simpa [Char.isDigit, UInt32.le_iff_toNat_le] using h
  simp [isBlank]
  omega

lemma trimStart_append {gap : List Char} (hgap : ∀ c ∈ gap, isBlank c = true) (rest : List Char) :
    trimStart (gap ++ rest) = trimStart rest :=
  List.dropWhile_append_of_pos hgap

lemma trimStart_eq_nil {gap : List Char} (hgap : ∀ c ∈ gap, isBlank c = true) :
    trimStart gap = [] := by
  simpa [trimStart] using trimStart_append hgap []

lemma trimStart_cons {c : Char} (hc : isBlank c = false) (rest : List Char) :
    trimStart (c :: rest) = c :: rest := by
  rw [trimStart, List.dropWhile_cons_of_neg (by simp [hc])]

end Text

end CommitStore
