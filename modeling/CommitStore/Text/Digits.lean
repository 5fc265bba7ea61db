/-!
# Digits

Numbers are written in decimal or hexadecimal digits without leading zeros, or filled up to a width.
A run of decimal digits is read back to the number that it was written for (`ofDecimal_decimal`),
and zeros in front do not change the number (`ofDecimal_zeroPadded`).
-/

namespace CommitStore

namespace Text

/-- The decimal digits of a number, most significant first. -/
def decimal (n : Nat) : List Char := Nat.toDigits 10 n

/-- The decimal digits of an integer, with a minus sign in front of a negative one. -/
def signedDecimal (n : Int) : List Char :=
  if n < 0 then '-' :: decimal n.natAbs else decimal n.natAbs

/-- The number that a run of decimal digits denotes. -/
def ofDecimal (digits : List Char) : Nat := Nat.ofDigitChars 10 digits 0

/-- Fill a text up to `width` characters with `pad` on its left. -/
def padLeft (width : Nat) (pad : Char) (text : List Char) : List Char :=
  List.replicate (width - text.length) pad ++ text

/-- The digits of a number, filled with zeros to at least `width` digits. -/
def zeroPadded (width n : Nat) : List Char := padLeft width '0' (decimal n)

/-- The value of a hexadecimal digit, of either case. -/
def hexValue? (c : Char) : Option Nat :=
  if '0' ≤ c ∧ c ≤ '9' then some (c.toNat - '0'.toNat)
  else if 'a' ≤ c ∧ c ≤ 'f' then some (c.toNat - 'a'.toNat + 10)
  else if 'A' ≤ c ∧ c ≤ 'F' then some (c.toNat - 'A'.toNat + 10)
  else none

/-- The lower-case hexadecimal digits of a number. -/
def hexadecimal (n : Nat) : List Char := Nat.toDigits 16 n

theorem ofDecimal_decimal (n : Nat) : ofDecimal (decimal n) = n :=
  Nat.ofDigitChars_toDigits (by omega) (by omega)

theorem ofDecimal_zeroPadded (width n : Nat) : ofDecimal (zeroPadded width n) = n := by
  rw [zeroPadded, padLeft, ofDecimal, Nat.ofDigitChars_append, Nat.ofDigitChars_replicate_zero,
    Nat.mul_zero]
  exact ofDecimal_decimal n

end Text

end CommitStore
