import CommitStore.Proofs.Time.Acceptance
import CommitStore.Proofs.Time.Calendar

/-!
# Written times are read back, however they are respelled

An instant is written as a text of the grammar that says its own date and time in UTC, so it is read
back from it (`TimeText.read?_write`).  Another text of the same instant, one with
`TimeText.SameInstant`, may show another clock, with an offset that makes up for the difference, and
may write zeros behind the fraction; the instant that is read depends on neither.
-/

namespace CommitStore

namespace TimeText

/-! ## What is written for an instant -/

lemma AfterGap.of {P : List Char → Prop} {text : List Char} (h : P text) : AfterGap P text :=
  @AfterGap.intro P [] text (by simp [IsGap]) h

lemma yearText_writeYear (year : Int) : YearText year (Instant.writeYear year) := by
  have hdigits := Text.isDigits_zeroPadded 4 year.natAbs
  have hvalue := Text.ofDecimal_zeroPadded 4 year.natAbs
  rw [Instant.writeYear]
  by_cases hnegative : year < 0
  · rw [if_pos hnegative]
    have htext := YearText.negative hdigits
    rwa [hvalue, show (-(year.natAbs : Int)) = year by omega] at htext
  · have hyear : (year.natAbs : Int) = year := by omega
    rw [if_neg hnegative]
    by_cases hlong : 9999 < year
    · rw [if_pos hlong]
      have htext := YearText.positive hdigits
      rwa [hvalue, hyear] at htext
    · rw [if_neg hlong]
      have hlength := Text.length_zeroPadded (by decide) (show year.natAbs < 10 ^ 4 by omega)
      have htext := YearText.plain hdigits (by omega)
      rwa [hvalue, hyear] at htext

lemma pairText_zeroPadded {n : Nat} (h : n < 100) :
    AfterGap (PairText n) (Text.zeroPadded 2 n) := by
  have hlength := Text.length_zeroPadded (by decide) (show n < 10 ^ 2 by omega)
  have htext := PairText.intro (Text.isDigits_zeroPadded 2 n) (by omega)
  rw [Text.ofDecimal_zeroPadded] at htext
  exact .of htext

lemma spanText_colon {hours minutes : Nat} (hhours : hours < 100) (hminutes : minutes ≤ 59) :
    SpanText (hours * 3600 + minutes * 60)
      (Text.zeroPadded 2 hours ++ ([':'] ++ Text.zeroPadded 2 minutes)) := by
  have htwo := Text.length_zeroPadded (by decide) (show hours < 10 ^ 2 by omega)
  have htwo' := Text.length_zeroPadded (by decide) (show minutes < 10 ^ 2 by omega)
  have hcolon : ∀ c ∈ [':'], c = ':' ∨ Text.isBlank c = true := by simp
  have htext := SpanText.intro (Text.isDigits_zeroPadded 2 hours) htwo hcolon
    (Text.isDigits_zeroPadded 2 minutes) htwo' (by rwa [Text.ofDecimal_zeroPadded])
  rwa [Text.ofDecimal_zeroPadded, Text.ofDecimal_zeroPadded] at htext

lemma nanosOf_zeroPadded {width n : Nat} (hwidth : 0 < width) (hnine : width ≤ 9)
    (h : n < 10 ^ width) : nanosOf (Text.zeroPadded width n) = n * 10 ^ (9 - width) := by
  have hlength := Text.length_zeroPadded hwidth h
  rw [nanosOf_eq, List.take_of_length_le (by omega), Text.ofDecimal_zeroPadded, hlength]

/-- The digits of a written fraction say the nanoseconds that it was written for. -/
lemma exists_fraction {nanos : Nat} (h : nanos < 1000000000) :
    ∃ digits, FractionText digits (Instant.writeFraction nanos) ∧ nanosOf digits = nanos := by
  rw [Instant.writeFraction]
  by_cases hzero : nanos = 0
  · rw [if_pos hzero]
    exact ⟨[], .absent, by rw [nanosOf_eq, hzero]; rfl⟩
  rw [if_neg hzero]
  by_cases hmillis : nanos % 1000000 = 0
  · rw [if_pos hmillis]
    refine ⟨_, .present (Text.isDigits_zeroPadded 3 _), ?_⟩
    rw [nanosOf_zeroPadded (by decide) (by decide) (by omega)]
    omega
  rw [if_neg hmillis]
  by_cases hmicros : nanos % 1000 = 0
  · rw [if_pos hmicros]
    refine ⟨_, .present (Text.isDigits_zeroPadded 6 _), ?_⟩
    rw [nanosOf_zeroPadded (by decide) (by decide) (by omega)]
    omega
  · rw [if_neg hmicros]
    refine ⟨_, .present (Text.isDigits_zeroPadded 9 _), ?_⟩
    rw [nanosOf_zeroPadded (by decide) (by decide) (by omega)]
    omega

lemma day_le_of_isValid {d : Date} (h : d.IsValid) : d.day ≤ 31 := by
  obtain ⟨-, -, -, hday⟩ := h
  have hmonths : ∀ leap, ∀ length ∈ Date.monthLengths leap, length ≤ 31 := by decide
  rw [List.getD_eq_getElem?_getD] at hday
  cases hmonth : (Date.monthLengths (Date.isLeapYear d.year))[d.month - 1]? with
  | none => rw [hmonth] at hday; exact Nat.le_trans hday (by decide)
  | some length =>
    rw [hmonth] at hday
    exact Nat.le_trans hday (hmonths _ _ (List.mem_of_getElem? hmonth))

/-- A date and a time of day written with two digits each, a fraction and an offset spell what they
show. -/
lemma spells_shown {w : Parts} {separator : Char} {fraction offset : List Char}
    (hmonth : w.date.month < 100) (hday : w.date.day < 100) (hhour : w.hour < 100)
    (hminute : w.minute < 100) (hsecond : w.second < 100) (hseparator : IsSeparator separator)
    (hfraction : FractionText w.fraction fraction) (hoffset : OffsetText w.offset offset) :
    Spells w (Instant.writeDate w.date ++
      separator :: Instant.writeClock w.dateTime ++ fraction ++ offset) := by
  have htext := Spells.intro (.of (yearText_writeYear w.date.year)) (.of rfl)
    (pairText_zeroPadded hmonth) (.of rfl) (pairText_zeroPadded hday) hseparator
    (pairText_zeroPadded hhour) (.of rfl) (pairText_zeroPadded hminute) (.of rfl)
    (pairText_zeroPadded hsecond) hfraction (.of hoffset) (show IsGap [] by simp [IsGap])
  simpa [Instant.writeDate, Instant.writeClock, Parts.dateTime] using htext

/-- A written instant spells its own date and time in UTC. -/
lemma exists_spells_write (t : Instant) :
    ∃ w, Spells w t.write ∧ w.dateTime = t.dateTime ∧ w.offset = 0 := by
  obtain ⟨hdate, hhour, hminute, hsecond, hnanos⟩ := t.isValid_dateTime
  have hday := day_le_of_isValid hdate
  obtain ⟨-, hmonth, -, -⟩ := hdate
  obtain ⟨digits, hfraction, hdigits⟩ := exists_fraction hnanos
  let w : Parts :=
    ⟨t.dateTime.date, t.dateTime.hour, t.dateTime.minute, t.dateTime.second, digits, 0⟩
  have htime : w.dateTime = t.dateTime := by rw [Parts.dateTime, Parts.nanos, hdigits]
  refine ⟨w, ?_, htime, rfl⟩
  have htext := spells_shown (w := w) (Nat.lt_of_le_of_lt hmonth (by decide))
    (Nat.lt_of_le_of_lt hday (by decide)) (Nat.lt_of_le_of_lt hhour (by decide))
    (Nat.lt_of_le_of_lt hminute (by decide)) (Nat.lt_of_le_of_lt hsecond (by decide)) (.inl rfl)
    hfraction (.letter (.inl rfl))
  rwa [htime] at htext

theorem read?_write (t : Instant) : Instant.read? t.write = some t := by
  obtain ⟨w, hspells, htime, hoffset⟩ := exists_spells_write t
  rw [read?_of_spells hspells, Parts.instant?, htime, hoffset, if_pos (by decide),
    Instant.ofDateTime?_dateTime]

/-! ## Two texts of one instant -/

/-- Two texts say the same instant: the clocks are the same once their offsets are taken off, both
or neither of them show a leap second, and the fractions are the same up to zeros behind them. -/
structure Parts.Agrees (v w : Parts) : Prop where
  seconds : v.dateTime.seconds - v.offset = w.dateTime.seconds - w.offset
  leap : v.second = 60 ↔ w.second = 60
  fraction : ∃ k l, v.fraction ++ List.replicate k '0' = w.fraction ++ List.replicate l '0'

/-- Two texts spell the same instant. -/
def SameInstant (s s' : List Char) : Prop := ∃ v w, Spells v s ∧ Spells w s' ∧ v.Agrees w

/-- Zeros behind a fraction say nothing. -/
lemma nanosOf_append_zeros (digits : List Char) (k : Nat) :
    nanosOf (digits ++ List.replicate k '0') = nanosOf digits := by
  have hzeros : List.replicate k '0' ++ List.replicate 9 '0' = List.replicate (k + 9) '0' :=
    List.replicate_append_replicate
  rw [nanosOf, nanosOf, List.append_assoc, hzeros, List.take_append, List.take_append,
    List.take_replicate, List.take_replicate, Nat.min_eq_left (by omega),
    Nat.min_eq_left (by omega)]

lemma Parts.Agrees.nanos_eq {v w : Parts} (h : v.Agrees w) : v.nanos = w.nanos := by
  obtain ⟨k, l, hzeros⟩ := h.fraction
  rw [Parts.nanos, Parts.nanos, ← nanosOf_append_zeros v.fraction k, hzeros, nanosOf_append_zeros]

/-- The instant that a text says is the one shown, with the offset taken off. -/
lemma Parts.eq_of_instant? {w : Parts} {t : Instant} (h : w.instant? = some t) :
    t.seconds = w.dateTime.seconds - w.offset ∧ t.nanos = w.dateTime.nanosOfSecond := by
  rw [Parts.instant?] at h
  split at h
  · rw [Instant.ofDateTime?] at h
    split at h
    · rw [Instant.ofUnix?] at h
      split at h
      · rw [← Option.some.inj h]
        exact ⟨rfl, rfl⟩
      · cases h
    · cases h
  · cases h

theorem eq_of_sameInstant {s s' : List Char} {t t' : Instant} (h : SameInstant s s')
    (hs : Instant.read? s = some t) (hs' : Instant.read? s' = some t') : t = t' := by
  obtain ⟨v, w, hv, hw, hagrees⟩ := h
  rw [read?_of_spells hv] at hs
  rw [read?_of_spells hw] at hs'
  obtain ⟨hseconds, hnanos⟩ := Parts.eq_of_instant? hs
  obtain ⟨hseconds', hnanos'⟩ := Parts.eq_of_instant? hs'
  have hsame : v.dateTime.nanosOfSecond = w.dateTime.nanosOfSecond := by
    by_cases hleap : w.second = 60 <;>
      simp [DateTime.nanosOfSecond, Parts.dateTime, hagrees.nanos_eq, hagrees.leap, hleap]
  exact Instant.ext (by rw [hseconds, hseconds', hagrees.seconds]) (by rw [hnanos, hnanos', hsame])

end TimeText

end CommitStore
