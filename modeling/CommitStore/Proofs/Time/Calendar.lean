import CommitStore.Time.Instant
import Mathlib.Algebra.Ring.Nat
import Mathlib.Tactic.Common

/-!
# The calendar inverts the count of days

A day is found in the calendar in two steps: the mean length of a year finds the year or one of its
neighbours, and the lengths of the months then find month and day, as `Date.IsDayIn` says.  Each
step is right on its own, so the date found is one that the calendar has, and counting its days
gives the day back (`Date.dayNumber_ofDayNumber`).  With the clock put behind the date, an instant
is the one that its own date and time in UTC stand for, the leap second included.
-/

namespace CommitStore

namespace Date

/-! ## The year -/

lemma sum_monthLengths (leap : Bool) : (monthLengths leap).sum = if leap then 366 else 365 := by
  cases leap <;> rfl

/-- A year is as long as its months. -/
lemma daysBeforeYear_add_one (year : Int) :
    daysBeforeYear (year + 1) = daysBeforeYear year + (monthLengths (isLeapYear year)).sum := by
  rw [sum_monthLengths]
  simp only [daysBeforeYear, isLeapYear, Bool.and_eq_true, Bool.or_eq_true, decide_eq_true_eq,
    bne_iff_ne]
  split <;> omega

/-- The mean length of a year errs by less than one year. -/
lemma daysBeforeYear_of_mean (n : Int) :
    daysBeforeYear (400 * n / 146097) ≤ n ∧ n < daysBeforeYear (400 * n / 146097 + 1 + 1 + 1) := by
  simp only [daysBeforeYear]
  omega

/-- The year that is found for a day holds the day. -/
lemma daysBeforeYear_yearOfDayNumber (n : Int) :
    daysBeforeYear (yearOfDayNumber n) ≤ n ∧ n < daysBeforeYear (yearOfDayNumber n + 1) := by
  obtain ⟨hlow, hhigh⟩ := daysBeforeYear_of_mean n
  rw [yearOfDayNumber]
  generalize 400 * n / 146097 = before at hlow hhigh ⊢
  by_cases hearly : n < daysBeforeYear (before + 1)
  · rw [if_pos hearly]
    simpa using ⟨hlow, hearly⟩
  · by_cases hlate : daysBeforeYear (before + 1 + 1) ≤ n
    · rw [if_neg hearly, if_pos hlate]
      exact ⟨hlate, hhigh⟩
    · rw [if_neg hearly, if_neg hlate]
      omega

/-! ## Month and day -/

/-- The day `day` of the month `month` is the `n`-th day, counted from zero, of months with the
given lengths. -/
structure IsDayIn (lengths : List Nat) (n month day : Nat) : Prop where
  one_le_month : 1 ≤ month
  month_le : month ≤ lengths.length
  one_le_day : 1 ≤ day
  day_le : day ≤ lengths.getD (month - 1) 0
  count : (lengths.take (month - 1)).sum + (day - 1) = n

/-- Month and day are those of the day that was asked for, as long as the months have it. -/
lemma isDayIn_monthAndDay {lengths : List Nat} {n : Nat} (h : n < lengths.sum) :
    IsDayIn lengths n (monthAndDay lengths n).1 (monthAndDay lengths n).2 := by
  induction lengths generalizing n with
  | nil => simp at h
  | cons length lengths ih =>
    rw [monthAndDay]
    by_cases hfirst : n < length
    · rw [if_pos hfirst]
      exact ⟨Nat.le_refl 1, by simp, by simp, Nat.succ_le_of_lt hfirst, by simp⟩
    · rw [if_neg hfirst]
      rw [List.sum_cons] at h
      obtain ⟨hmonth, hmonths, hday, hdays, hcount⟩ := ih (n := n - length) (by omega)
      -- The month found in the rest is at least the first, so the one before it is there to be
      -- named.
      obtain ⟨before, hbefore⟩ := Nat.exists_eq_add_of_le' hmonth
      rw [hbefore, Nat.add_sub_cancel] at hdays hcount
      rw [hbefore] at hmonths
      refine ⟨by simp, by simpa [hbefore] using hmonths, hday, by simpa [hbefore] using hdays, ?_⟩
      simp only [hbefore, Nat.add_sub_cancel, List.take_succ_cons, List.sum_cons]
      omega

lemma isDayIn_ofDayNumber (n : Int) :
    IsDayIn (monthLengths (isLeapYear (ofDayNumber n).year))
      (n - daysBeforeYear (ofDayNumber n).year).toNat (ofDayNumber n).month
      (ofDayNumber n).day := by
  obtain ⟨hlow, hhigh⟩ := daysBeforeYear_yearOfDayNumber n
  rw [daysBeforeYear_add_one] at hhigh
  have hinYear : (n - daysBeforeYear (yearOfDayNumber n)).toNat <
      (monthLengths (isLeapYear (yearOfDayNumber n))).sum := by
    omega
  simp only [ofDayNumber]
  exact isDayIn_monthAndDay hinYear

lemma isValid_ofDayNumber (n : Int) : (ofDayNumber n).IsValid := by
  obtain ⟨hmonth, hmonths, hday, hdays, -⟩ := isDayIn_ofDayNumber n
  exact ⟨hmonth, hmonths, hday, hdays⟩

/-- Counting the days up to the date of a day gives the day. -/
lemma dayNumber_ofDayNumber (n : Int) : (ofDayNumber n).dayNumber = n := by
  have hcount := (isDayIn_ofDayNumber n).count
  have hlow : daysBeforeYear (ofDayNumber n).year ≤ n := (daysBeforeYear_yearOfDayNumber n).1
  rw [dayNumber, ← List.sum_eq_foldr]
  omega

end Date

namespace Instant

/-- An instant with nanoseconds of a leap second is in the last second of a minute. -/
lemma last_second_of_leap {t : Instant} (h : 1000000000 ≤ t.nanos) : t.seconds % 60 = 59 := by
  obtain ⟨-, -, hnanos | ⟨-, hlast⟩⟩ := t.isInstant
  · omega
  · exact hlast

lemma nanos_lt (t : Instant) : t.nanos < 2000000000 := by
  obtain ⟨-, -, hnanos | ⟨hnanos, -⟩⟩ := t.isInstant <;> omega

lemma isValid_dateTime (t : Instant) : t.dateTime.IsValid := by
  have hnanos := t.nanos_lt
  refine ⟨Date.isValid_ofDayNumber _, ?_, ?_, ?_, ?_⟩ <;> simp only [dateTime]
  · omega
  · omega
  · split <;> omega
  · split <;> omega

lemma seconds_dateTime (t : Instant) : t.dateTime.seconds = t.seconds := by
  have hleap := last_second_of_leap (t := t)
  simp only [DateTime.seconds, dateTime, Date.dayNumber_ofDayNumber]
  split <;> omega

lemma nanosOfSecond_dateTime (t : Instant) : t.dateTime.nanosOfSecond = t.nanos := by
  simp only [DateTime.nanosOfSecond, dateTime]
  split <;> split <;> omega

/-- An instant is the one that its date and time in UTC stand for. -/
lemma ofDateTime?_dateTime (t : Instant) : ofDateTime? t.dateTime 0 = some t := by
  have hvalid := t.isValid_dateTime
  have hinstant := t.isInstant
  rw [ofDateTime?, seconds_dateTime, nanosOfSecond_dateTime, if_pos ⟨hvalid, hinstant⟩, ofUnix?,
    Int.sub_zero, dif_pos hinstant]

end Instant

end CommitStore
