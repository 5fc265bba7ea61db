import CommitStore.Time.Rfc3339
import CommitStore.Proofs.Text.Digits

/-!
# The grammar of times, and its reader

The texts of a time are described here without a reader: by their parts one after the other, and by
what each part says.  A `TimeText.Parts` holds date and time of day as they are shown, the digits of
the fraction, and the offset of the clock from UTC.  The reader takes every text that spells them
(`TimeText.Spells`) as the time that they say.
-/

namespace CommitStore

namespace TimeText

/-! ## The parts of a text -/

/-- Nothing but white space. -/
def IsGap (gap : List Char) : Prop := ∀ c ∈ gap, Text.isBlank c = true

/-- The texts of a year: up to four digits, or any number of digits behind a sign. -/
inductive YearText : Int → List Char → Prop
  | plain {digits : List Char} (h : Text.IsDigits digits) (hshort : digits.length ≤ 4) :
      YearText (Text.ofDecimal digits : Nat) digits
  | positive {digits : List Char} (h : Text.IsDigits digits) :
      YearText (Text.ofDecimal digits : Nat) ('+' :: digits)
  | negative {digits : List Char} (h : Text.IsDigits digits) :
      YearText (-(Text.ofDecimal digits : Nat)) ('-' :: digits)

/-- The texts of the other numbers: one or two digits. -/
inductive PairText : Nat → List Char → Prop
  | intro {digits : List Char} (h : Text.IsDigits digits) (hshort : digits.length ≤ 2) :
      PairText (Text.ofDecimal digits) digits

/-- The texts of the digits of a fraction; without digits there is no point. -/
inductive FractionText : List Char → List Char → Prop
  | absent : FractionText [] []
  | present {digits : List Char} (h : Text.IsDigits digits) : FractionText digits ('.' :: digits)

/-- Two digits for the hours and two for the minutes of an offset of `seconds`, with colons and
white space between them. -/
inductive SpanText : Nat → List Char → Prop
  | intro {hours gap minutes : List Char} (hhours : Text.IsDigits hours) (htwo : hours.length = 2)
      (hgap : ∀ c ∈ gap, c = ':' ∨ Text.isBlank c = true) (hminutes : Text.IsDigits minutes)
      (htwo' : minutes.length = 2) (hmax : Text.ofDecimal minutes ≤ 59) :
      SpanText (Text.ofDecimal hours * 3600 + Text.ofDecimal minutes * 60)
        (hours ++ (gap ++ minutes))

/-- The texts of an offset from UTC: its letter or its name in either case, or a signed span. -/
inductive OffsetText : Int → List Char → Prop
  | letter {c : Char} (hc : c = 'Z' ∨ c = 'z') : OffsetText 0 [c]
  | name {letters : List Char} (hletters : letters.map Char.toUpper = ['U', 'T', 'C']) :
      OffsetText 0 letters
  | ahead {seconds : Nat} {text : List Char} (h : SpanText seconds text) :
      OffsetText seconds ('+' :: text)
  | behind {seconds : Nat} {sign : Char} {text : List Char} (hsign : sign = '-' ∨ sign = '\u2212')
      (h : SpanText seconds text) : OffsetText (-(seconds : Int)) (sign :: text)

/-- What stands between date and time of day: the letter for it in either case, or a blank. -/
def IsSeparator (c : Char) : Prop := c = 'T' ∨ c = 't' ∨ c = ' '

/-- White space, and then a text with a property. -/
inductive AfterGap (P : List Char → Prop) : List Char → Prop
  | intro {gap text : List Char} (hgap : IsGap gap) (h : P text) : AfterGap P (gap ++ text)

/-! ## Whole texts -/

/-- What a text says about a time. -/
structure Parts where
  date : Date
  hour : Nat
  minute : Nat
  second : Nat
  /-- The digits of the fraction of a second. -/
  fraction : List Char
  /-- How many seconds the clock is ahead of UTC. -/
  offset : Int

/-- The nanoseconds of the digits of a fraction: the first nine digits, filled up with zeros. -/
def nanosOf (digits : List Char) : Nat :=
  Text.ofDecimal ((digits ++ List.replicate 9 '0').take 9)

namespace Parts

/-- The nanoseconds of the fraction. -/
def nanos (w : Parts) : Nat := nanosOf w.fraction

/-- The date and the time of day that are shown. -/
def dateTime (w : Parts) : DateTime := ⟨w.date, w.hour, w.minute, w.second, w.nanos⟩

/-- The instant, if the clock is less than a day off UTC. -/
def instant? (w : Parts) : Option Instant :=
  if w.offset.natAbs < 86400 then Instant.ofDateTime? w.dateTime w.offset else none

end Parts

/-- The texts that say something about a time. -/
inductive Spells (w : Parts) : List Char → Prop
  | intro {year dash₁ month dash₂ day hour colon₁ minute colon₂ second fraction offset gap :
        List Char} {separator : Char} (hyear : AfterGap (YearText w.date.year) year)
      (hdash₁ : AfterGap (· = ['-']) dash₁) (hmonth : AfterGap (PairText w.date.month) month)
      (hdash₂ : AfterGap (· = ['-']) dash₂) (hday : AfterGap (PairText w.date.day) day)
      (hseparator : IsSeparator separator)
      (hhour : AfterGap (PairText w.hour) hour) (hcolon₁ : AfterGap (· = [':']) colon₁)
      (hminute : AfterGap (PairText w.minute) minute) (hcolon₂ : AfterGap (· = [':']) colon₂)
      (hsecond : AfterGap (PairText w.second) second) (hfraction : FractionText w.fraction fraction)
      (hoffset : AfterGap (OffsetText w.offset) offset) (hgap : IsGap gap) :
      Spells w (year ++ (dash₁ ++ (month ++ (dash₂ ++ (day ++ separator :: (hour ++ (colon₁ ++
        (minute ++ (colon₂ ++ (second ++ (fraction ++ (offset ++ gap))))))))))))

/-! ## Reading numbers -/

/-- What follows does not begin with a digit. -/
def EndsDigits (rest : List Char) : Prop := ∀ c, rest.head? = some c → c.isDigit = false

lemma takeWhile_isDigit {digits rest : List Char} (h : ∀ c ∈ digits, c.isDigit = true)
    (hrest : EndsDigits rest) : (digits ++ rest).takeWhile Char.isDigit = digits := by
  rw [List.takeWhile_append_of_pos h]
  cases rest with
  | nil => simp
  | cons c rest => rw [List.takeWhile_cons_of_neg (by simp [hrest c rfl]), List.append_nil]

lemma dropWhile_isDigit {digits rest : List Char} (h : ∀ c ∈ digits, c.isDigit = true)
    (hrest : EndsDigits rest) : (digits ++ rest).dropWhile Char.isDigit = rest := by
  rw [List.dropWhile_append_of_pos h]
  cases rest with
  | nil => rfl
  | cons c rest => rw [List.dropWhile_cons_of_neg (by simp [hrest c rfl])]

lemma endsDigits_cons {c : Char} (hc : c.isDigit = false) (rest : List Char) :
    EndsDigits (c :: rest) := by
  intro d hd
  obtain rfl : c = d := by simpa using hd
  exact hc

lemma EndsDigits.take {rest : List Char} (h : EndsDigits rest) (k : Nat) :
    EndsDigits (rest.take k) := by
  intro c hc
  rw [List.head?_take] at hc
  split at hc
  · cases hc
  · exact h c hc

/-- At most `width` digits are read; what follows begins with the digits beyond them. -/
lemma readNumber_append {width : Nat} {digits rest : List Char} (hwidth : 0 < width)
    (h : Text.IsDigits digits) (hrest : EndsDigits rest) :
    Instant.readNumber width (digits ++ rest) =
      some (Text.ofDecimal (digits.take width), digits.drop width ++ rest) := by
  have hdigits : ((digits ++ rest).take width).takeWhile Char.isDigit = digits.take width := by
    rw [List.take_append]
    exact takeWhile_isDigit (fun c hc => h.2 c (List.mem_of_mem_take hc)) (hrest.take _)
  have hne : digits.take width ≠ [] := by
    simpa [List.take_eq_nil_iff, h.1] using Nat.ne_of_gt hwidth
  have hbehind : (digits ++ rest).drop (digits.take width).length = digits.drop width ++ rest := by
    conv_lhs => rw [← List.take_append_drop width digits, List.append_assoc]
    rw [List.take_append_drop, List.drop_left]
  rw [Instant.readNumber, hdigits, if_neg hne, hbehind]

/-- A number that is not longer than the reader allows is read as a whole. -/
lemma readNumber_short {width : Nat} {digits rest : List Char} (h : Text.IsDigits digits)
    (hshort : digits.length ≤ width) (hrest : EndsDigits rest) :
    Instant.readNumber width (digits ++ rest) = some (Text.ofDecimal digits, rest) := by
  have hwidth : 0 < width := Nat.lt_of_lt_of_le (List.length_pos_iff.mpr h.1) hshort
  rw [readNumber_append hwidth h hrest, List.take_of_length_le hshort,
    List.drop_of_length_le hshort, List.nil_append]

lemma trimStart_digits {digits : List Char} (h : Text.IsDigits digits) (rest : List Char) :
    Text.trimStart (digits ++ rest) = digits ++ rest := by
  obtain ⟨c, more, rfl, hc⟩ := h.exists_cons
  exact Text.trimStart_cons (Text.isBlank_of_isDigit hc) _

lemma readPair_append {n : Nat} {text rest : List Char} (h : AfterGap (PairText n) text)
    (hrest : EndsDigits rest) : Instant.readPair (text ++ rest) = some (n, rest) := by
  obtain ⟨hgap, ⟨h, hshort⟩⟩ := h
  rw [Instant.readPair, List.append_assoc, Text.trimStart_append hgap, trimStart_digits h]
  exact readNumber_short h hshort hrest

lemma readMark_append {c : Char} {text : List Char} (h : AfterGap (· = [c]) text)
    (hc : Text.isBlank c = false) (rest : List Char) :
    Instant.readMark c (text ++ rest) = some rest := by
  obtain ⟨hgap, rfl⟩ := h
  rw [Instant.readMark, List.append_assoc, Text.trimStart_append hgap, List.singleton_append,
    Text.trimStart_cons hc]
  exact if_pos rfl

lemma readYear_append {year : Int} {text rest : List Char} (h : AfterGap (YearText year) text)
    (hrest : EndsDigits rest) : Instant.readYear (text ++ rest) = some (year, rest) := by
  obtain ⟨hgap, h⟩ := h
  rw [Instant.readYear, List.append_assoc, Text.trimStart_append hgap]
  cases h with
  | plain h hshort =>
    rw [trimStart_digits h]
    obtain ⟨c, more, rfl, hc⟩ := h.exists_cons
    have hnumber := readNumber_short h hshort hrest
    -- The first digit is not taken for a sign.
    split
    · rename_i heq
      obtain rfl : c = '-' := (List.cons.inj heq).1
      cases hc
    · rename_i heq
      obtain rfl : c = '+' := (List.cons.inj heq).1
      cases hc
    · rw [hnumber]
      rfl
  | positive h =>
    rw [List.cons_append, Text.trimStart_cons (by decide)]
    simp only
    rw [readNumber_short h (by simp) hrest]
    rfl
  | negative h =>
    rw [List.cons_append, Text.trimStart_cons (by decide)]
    simp only
    rw [readNumber_short h (by simp) hrest]
    rfl

/-! ## Reading fractions and offsets -/

lemma nanosOf_eq (digits : List Char) :
    nanosOf digits = Text.ofDecimal (digits.take 9) * 10 ^ (9 - digits.length) := by
  rw [nanosOf, List.take_append, List.take_replicate, Nat.min_eq_left (Nat.sub_le 9 _),
    Text.ofDecimal_append_zeros]

/-- All digits behind a point are passed over, but the nanoseconds are those of the first nine. -/
lemma readFraction_digits {digits rest : List Char} (h : Text.IsDigits digits)
    (hrest : EndsDigits rest) :
    Instant.readFraction ('.' :: (digits ++ rest)) = some (nanosOf digits, rest) := by
  have hcount : (digits ++ rest).length - (digits.drop 9 ++ rest).length = min 9 digits.length := by
    simp only [List.length_append, List.length_drop]
    omega
  have hbeyond : (digits.drop 9 ++ rest).dropWhile Char.isDigit = rest :=
    dropWhile_isDigit (fun c hc => h.2 c (List.mem_of_mem_drop hc)) hrest
  have hpower : 9 - min 9 digits.length = 9 - digits.length := by omega
  rw [Instant.readFraction, readNumber_append (by decide) h hrest, Option.map_some]
  simp only [hcount, hbeyond, hpower, nanosOf_eq]
  rfl

lemma readFraction_append {digits text rest : List Char} (h : FractionText digits text)
    (hrest : EndsDigits rest) (hpoint : ∀ more, rest ≠ '.' :: more) :
    Instant.readFraction (text ++ rest) = some (nanosOf digits, rest) := by
  cases h with
  | absent =>
    rw [List.nil_append, Instant.readFraction]
    · rfl
    · exact fun more hmore => hpoint more hmore
  | present h => exact readFraction_digits h hrest

lemma readTwoDigits_append {digits : List Char} (h : Text.IsDigits digits)
    (htwo : digits.length = 2) (rest : List Char) :
    Instant.readTwoDigits (digits ++ rest) = some (Text.ofDecimal digits, rest) := by
  match digits, htwo with
  | [a, b], _ =>
    have ha := h.2 a (by simp)
    have hb := h.2 b (by simp)
    simp [Instant.readTwoDigits, ha, hb]

/-- The gap in a span ends at the minutes. -/
lemma dropWhile_span {gap minutes : List Char} (hgap : ∀ c ∈ gap, c = ':' ∨ Text.isBlank c = true)
    (h : Text.IsDigits minutes) (rest : List Char) :
    (gap ++ (minutes ++ rest)).dropWhile (fun c => c = ':' || Text.isBlank c) =
      minutes ++ rest := by
  obtain ⟨c, more, rfl, hc⟩ := h.exists_cons
  have hcolon : c ≠ ':' := by rintro rfl; cases hc
  rw [List.dropWhile_append_of_pos (by simpa using hgap), List.cons_append,
    List.dropWhile_cons_of_neg (by simp [hcolon, Text.isBlank_of_isDigit hc])]

lemma readOffset_span {sign : Char} (hsign : sign = '+' ∨ sign = '-' ∨ sign = '\u2212')
    {seconds : Nat} {text : List Char} (h : SpanText seconds text) (rest : List Char) :
    Instant.readOffset (sign :: (text ++ rest)) =
      some (if sign = '+' then (seconds : Int) else -seconds, rest) := by
  have hletter : ¬(sign = 'Z' ∨ sign = 'z') := by
    rcases hsign with rfl | rfl | rfl <;> decide
  obtain ⟨hhours, htwo, hgap, hminutes, htwo', hmax⟩ := h
  rw [Instant.readOffset, if_neg hletter, if_pos hsign, List.append_assoc, List.append_assoc,
    readTwoDigits_append hhours htwo]
  simp only [Option.bind_eq_bind, Option.bind_some, dropWhile_span hgap hminutes,
    readTwoDigits_append hminutes htwo']
  rw [if_pos hmax]

lemma eq_of_toUpper {c : Char} (h : c.toUpper = 'U') : c = 'U' ∨ c = 'u' := by
  unfold Char.toUpper at h
  split at h
  · right
    have hval := congrArg (fun d : Char => d.val - ('A'.val - 'a'.val)) h
    simpa [Char.ext_iff] using hval
  · exact .inl h

/-- An offset begins neither with white space nor with a digit or a point. -/
lemma OffsetText.exists_cons {offset : Int} {text : List Char} (h : OffsetText offset text) :
    ∃ c more, text = c :: more ∧ Text.isBlank c = false ∧ c.isDigit = false ∧ c ≠ '.' := by
  cases h with
  | letter hc => exact ⟨_, [], rfl, by rcases hc with rfl | rfl <;> decide⟩
  | name hletters =>
    obtain ⟨a, more, rfl, ha, -⟩ := List.map_eq_cons_iff.mp hletters
    refine ⟨a, more, rfl, ?_⟩
    rcases eq_of_toUpper ha with rfl | rfl <;> decide
  | ahead h => exact ⟨'+', _, rfl, by decide⟩
  | behind hsign h => exact ⟨_, _, rfl, by rcases hsign with rfl | rfl <;> decide⟩

lemma readZone_eq_readOffset {c : Char} (hblank : Text.isBlank c = false) (hc : c.toUpper ≠ 'U')
    (rest : List Char) : Instant.readZone (c :: rest) = Instant.readOffset (c :: rest) := by
  rw [Instant.readZone, Text.trimStart_cons hblank]
  exact if_neg (by simp [hc])

/-- An offset is read from its text, whatever follows. -/
lemma readZone_text {offset : Int} {text : List Char} (h : OffsetText offset text)
    (rest : List Char) : Instant.readZone (text ++ rest) = some (offset, rest) := by
  cases h with
  | letter hc =>
    rcases hc with rfl | rfl <;>
      rw [List.singleton_append, readZone_eq_readOffset (by decide) (by decide)] <;> rfl
  | name hletters =>
    have hlength : text.length = 3 := by simpa using congrArg List.length hletters
    have htrim : Text.trimStart (text ++ rest) = text ++ rest := by
      obtain ⟨c, more, rfl, hblank, -⟩ := (OffsetText.name hletters).exists_cons
      exact Text.trimStart_cons hblank _
    rw [Instant.readZone, htrim, ← hlength, List.take_left, List.drop_left]
    exact if_pos hletters
  | ahead h =>
    rw [List.cons_append, readZone_eq_readOffset (by decide) (by decide),
      readOffset_span (.inl rfl) h, if_pos rfl]
  | behind hsign h =>
    have hspan := readOffset_span (.inr hsign) h rest
    rcases hsign with rfl | rfl <;>
      rw [List.cons_append, readZone_eq_readOffset (by decide) (by decide), hspan] <;> rfl

lemma readZone_append {offset : Int} {text : List Char} (h : AfterGap (OffsetText offset) text)
    (rest : List Char) : Instant.readZone (text ++ rest) = some (offset, rest) := by
  obtain ⟨hgap, h⟩ := h
  rw [← readZone_text h rest, Instant.readZone, Instant.readZone, List.append_assoc,
    Text.trimStart_append hgap]

/-! ## Reading whole texts -/

lemma endsDigits_afterGap {P : List Char → Prop} {text : List Char} (h : AfterGap P text)
    (hP : ∀ text, P text → ∃ c more, text = c :: more ∧ c.isDigit = false) (rest : List Char) :
    EndsDigits (text ++ rest) := by
  obtain @⟨gap, inner, hgap, h⟩ := h
  cases gap with
  | nil =>
    obtain ⟨c, more, rfl, hc⟩ := hP _ h
    exact endsDigits_cons hc _
  | cons c gap =>
    have hblank := hgap c List.mem_cons_self
    refine endsDigits_cons (Bool.eq_false_iff.mpr fun hdigit => ?_) _
    rw [Text.isBlank_of_isDigit hdigit] at hblank
    cases hblank

lemma endsDigits_mark {c : Char} {text : List Char} (h : AfterGap (· = [c]) text)
    (hc : c.isDigit = false) (rest : List Char) : EndsDigits (text ++ rest) :=
  endsDigits_afterGap h (fun _ htext => ⟨c, [], htext, hc⟩) rest

lemma endsDigits_offset {offset : Int} {text : List Char} (h : AfterGap (OffsetText offset) text)
    (rest : List Char) : EndsDigits (text ++ rest) := by
  refine endsDigits_afterGap h (fun _ htext => ?_) rest
  obtain ⟨c, more, hcons, -, hc, -⟩ := htext.exists_cons
  exact ⟨c, more, hcons, hc⟩

lemma offset_ne_point {offset : Int} {text : List Char} (h : AfterGap (OffsetText offset) text)
    (rest more : List Char) : text ++ rest ≠ '.' :: more := by
  obtain @⟨gap, inner, hgap, h⟩ := h
  intro hpoint
  cases gap with
  | nil =>
    obtain ⟨c, more, rfl, -, -, hc⟩ := h.exists_cons
    exact hc (List.cons.inj hpoint).1
  | cons c gap =>
    have hblank := hgap c List.mem_cons_self
    rw [(List.cons.inj hpoint).1] at hblank
    revert hblank
    decide

lemma endsDigits_fraction {digits text rest : List Char} (h : FractionText digits text)
    (hrest : EndsDigits rest) : EndsDigits (text ++ rest) := by
  cases h with
  | absent => exact hrest
  | present => exact endsDigits_cons (by decide) _

lemma IsSeparator.isDigit {c : Char} (h : IsSeparator c) : c.isDigit = false := by
  rcases h with rfl | rfl | rfl <;> decide

lemma bind_eq_of_eq_some {α β : Type} {o : Option α} {a : α} (f : α → Option β)
    (h : o = some a) : (o >>= f) = f a := by
  rw [h]
  rfl

theorem read?_of_spells {w : Parts} {s : List Char} (h : Spells w s) :
    Instant.read? s = w.instant? := by
  obtain ⟨hyear, hdash₁, hmonth, hdash₂, hday, hseparator, hhour, hcolon₁, hminute,
    hcolon₂, hsecond, hfraction, hoffset, hgap⟩ := h
  have hdash : ('-' : Char).isDigit = false := by decide
  have hcolon : (':' : Char).isDigit = false := by decide
  -- One step for each part of the text, in their order.
  refine (bind_eq_of_eq_some _ (readYear_append hyear (endsDigits_mark hdash₁ hdash _))).trans ?_
  refine (bind_eq_of_eq_some _ (readMark_append hdash₁ (by decide) _)).trans ?_
  refine (bind_eq_of_eq_some _ (readPair_append hmonth (endsDigits_mark hdash₂ hdash _))).trans ?_
  refine (bind_eq_of_eq_some _ (readMark_append hdash₂ (by decide) _)).trans ?_
  refine (bind_eq_of_eq_some _
    (readPair_append hday (endsDigits_cons hseparator.isDigit _))).trans ?_
  refine (if_pos hseparator).trans ?_
  refine (bind_eq_of_eq_some _ (readPair_append hhour (endsDigits_mark hcolon₁ hcolon _))).trans ?_
  refine (bind_eq_of_eq_some _ (readMark_append hcolon₁ (by decide) _)).trans ?_
  refine (bind_eq_of_eq_some _
    (readPair_append hminute (endsDigits_mark hcolon₂ hcolon _))).trans ?_
  refine (bind_eq_of_eq_some _ (readMark_append hcolon₂ (by decide) _)).trans ?_
  refine (bind_eq_of_eq_some _ (readPair_append hsecond
    (endsDigits_fraction hfraction (endsDigits_offset hoffset _)))).trans ?_
  refine (bind_eq_of_eq_some _ (readFraction_append hfraction (endsDigits_offset hoffset _)
    (offset_ne_point hoffset _))).trans ?_
  refine (bind_eq_of_eq_some _ (readZone_append hoffset _)).trans ?_
  simp only [Text.trimStart_eq_nil hgap, true_and]
  rfl

end TimeText

end CommitStore
