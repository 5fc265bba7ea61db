import CommitStore.Proofs.Time.Spelling

/-!
# Every accepted text spells a time

The reader of times takes no text outside the grammar: each of its parts passes over a text of the
grammar and reports what that text says.  So a text is read as an instant exactly when it spells
that instant (`TimeText.read?_eq_some_iff`).
-/

namespace CommitStore

namespace TimeText

/-! ## The parts -/

lemma exists_gap (s : List Char) : ∃ gap, IsGap gap ∧ s = gap ++ Text.trimStart s :=
  ⟨s.takeWhile Text.isBlank, List.all_eq_true.mp List.all_takeWhile,
    List.takeWhile_append_dropWhile.symm⟩

lemma exists_afterGap {P : List Char → Prop} {s after : List Char}
    (h : ∃ text, Text.trimStart s = text ++ after ∧ P text) :
    ∃ text, s = text ++ after ∧ AfterGap P text := by
  obtain ⟨text, htrim, htext⟩ := h
  obtain ⟨gap, hgap, hs⟩ := exists_gap s
  exact ⟨gap ++ text, by rw [List.append_assoc, ← htrim, ← hs], .intro hgap htext⟩

lemma readNumber_sound {width n : Nat} {s after : List Char}
    (h : Instant.readNumber width s = some (n, after)) :
    ∃ digits, s = digits ++ after ∧ Text.IsDigits digits ∧ digits.length ≤ width ∧
      Text.ofDecimal digits = n := by
  simp only [Instant.readNumber] at h
  generalize hdigits : (s.take width).takeWhile Char.isDigit = digits at h
  by_cases hne : digits = []
  · rw [if_pos hne] at h
    cases h
  rw [if_neg hne] at h
  have hbegin : digits <+: s.take width := hdigits ▸ List.takeWhile_prefix _
  obtain ⟨rfl, rfl⟩ := Prod.mk.inj (Option.some.inj h)
  refine ⟨digits, ?_, ⟨hne, fun c hc => ?_⟩, ?_, rfl⟩
  · exact (List.prefix_iff_eq_append.mp (hbegin.trans (List.take_prefix width s))).symm
  · exact List.all_eq_true.mp List.all_takeWhile c (hdigits ▸ hc)
  · exact Nat.le_trans hbegin.length_le (List.length_take_le width s)

lemma readPair_sound {n : Nat} {s after : List Char} (h : Instant.readPair s = some (n, after)) :
    ∃ text, s = text ++ after ∧ AfterGap (PairText n) text := by
  obtain ⟨digits, htrim, hdigits, hshort, rfl⟩ := readNumber_sound h
  exact exists_afterGap ⟨digits, htrim, .intro hdigits hshort⟩

lemma readMark_sound {c : Char} {s after : List Char} (h : Instant.readMark c s = some after) :
    ∃ text, s = text ++ after ∧ AfterGap (· = [c]) text := by
  refine exists_afterGap ⟨[c], ?_, rfl⟩
  rw [Instant.readMark] at h
  split at h
  · rename_i d rest htrim
    split at h
    · rename_i hd
      rw [htrim, hd, Option.some.inj h]
      rfl
    · cases h
  · cases h

lemma readYear_sound {year : Int} {s after : List Char}
    (h : Instant.readYear s = some (year, after)) :
    ∃ text, s = text ++ after ∧ AfterGap (YearText year) text := by
  refine exists_afterGap ?_
  rw [Instant.readYear] at h
  split at h
  · rename_i rest htrim
    obtain ⟨⟨n, after'⟩, hnumber, hresult⟩ := Option.map_eq_some_iff.mp h
    obtain ⟨rfl, rfl⟩ := Prod.mk.inj hresult
    obtain ⟨digits, rfl, hdigits, -, rfl⟩ := readNumber_sound hnumber
    exact ⟨'-' :: digits, htrim, .negative hdigits⟩
  · rename_i rest htrim
    obtain ⟨⟨n, after'⟩, hnumber, hresult⟩ := Option.map_eq_some_iff.mp h
    obtain ⟨rfl, rfl⟩ := Prod.mk.inj hresult
    obtain ⟨digits, rfl, hdigits, -, rfl⟩ := readNumber_sound hnumber
    exact ⟨'+' :: digits, htrim, .positive hdigits⟩
  · obtain ⟨⟨n, after'⟩, hnumber, hresult⟩ := Option.map_eq_some_iff.mp h
    obtain ⟨rfl, rfl⟩ := Prod.mk.inj hresult
    obtain ⟨digits, htrim, hdigits, hshort, rfl⟩ := readNumber_sound hnumber
    exact ⟨digits, htrim, .plain hdigits hshort⟩

lemma exists_digits (s : List Char) :
    ∃ digits rest, s = digits ++ rest ∧ (∀ c ∈ digits, c.isDigit = true) ∧ EndsDigits rest := by
  refine ⟨s.takeWhile Char.isDigit, s.dropWhile Char.isDigit,
    List.takeWhile_append_dropWhile.symm, List.all_eq_true.mp List.all_takeWhile, fun c hc => ?_⟩
  have hstop := List.head?_dropWhile_not Char.isDigit s
  rw [hc] at hstop
  simpa using hstop

lemma readFraction_sound {nanos : Nat} {s after : List Char}
    (h : Instant.readFraction s = some (nanos, after)) :
    ∃ digits text, s = text ++ after ∧ FractionText digits text ∧ nanosOf digits = nanos := by
  rw [Instant.readFraction.eq_def] at h
  split at h
  · rename_i rest
    obtain ⟨digits, rest, rfl, hall, hrest⟩ := exists_digits rest
    have hne : digits ≠ [] := by
      rintro rfl
      obtain ⟨⟨n, behind⟩, hnumber, -⟩ := Option.map_eq_some_iff.mp h
      obtain ⟨digits, hsplit, hdigits, -⟩ := readNumber_sound hnumber
      obtain ⟨c, more, rfl, hc⟩ := hdigits.exists_cons
      rw [List.nil_append] at hsplit
      rw [hrest c (by rw [hsplit]; rfl)] at hc
      cases hc
    have hread := readFraction_digits ⟨hne, hall⟩ hrest
    rw [Instant.readFraction.eq_def] at hread
    obtain ⟨rfl, rfl⟩ := Prod.mk.inj (Option.some.inj (hread.symm.trans h))
    exact ⟨digits, '.' :: digits, rfl, .present ⟨hne, hall⟩, rfl⟩
  · obtain ⟨rfl, rfl⟩ := Prod.mk.inj (Option.some.inj h)
    exact ⟨[], [], rfl, .absent, rfl⟩

lemma readTwoDigits_sound {n : Nat} {s after : List Char}
    (h : Instant.readTwoDigits s = some (n, after)) :
    ∃ digits, s = digits ++ after ∧ Text.IsDigits digits ∧ digits.length = 2 ∧
      Text.ofDecimal digits = n := by
  rw [Instant.readTwoDigits.eq_def] at h
  split at h
  · rename_i a b rest
    split at h
    · rename_i hdigits
      obtain ⟨ha, hb⟩ := Bool.and_eq_true_iff.mp hdigits
      obtain ⟨rfl, rfl⟩ := Prod.mk.inj (Option.some.inj h)
      exact ⟨[a, b], rfl, ⟨by simp, by simp [ha, hb]⟩, rfl, rfl⟩
    · cases h
  · cases h

lemma exists_span {hours minutes : Nat} {s rest after : List Char}
    (hhours : Instant.readTwoDigits s = some (hours, rest))
    (hminutes : Instant.readTwoDigits (rest.dropWhile fun c => c = ':' || Text.isBlank c) =
      some (minutes, after)) (hmax : minutes ≤ 59) :
    ∃ text, s = text ++ after ∧ SpanText (hours * 3600 + minutes * 60) text := by
  obtain ⟨hoursDigits, rfl, hh, hhtwo, rfl⟩ := readTwoDigits_sound hhours
  obtain ⟨minutesDigits, hsplit, hm, hmtwo, rfl⟩ := readTwoDigits_sound hminutes
  have hgap := List.all_eq_true.mp
    (List.all_takeWhile (p := fun c => c = ':' || Text.isBlank c) (l := rest))
  refine ⟨hoursDigits ++ (rest.takeWhile (fun c => c = ':' || Text.isBlank c) ++ minutesDigits), ?_,
    .intro hh hhtwo (by simpa using hgap) hm hmtwo hmax⟩
  rw [List.append_assoc, List.append_assoc, ← hsplit, List.takeWhile_append_dropWhile]

lemma readOffset_sound {offset : Int} {s after : List Char}
    (h : Instant.readOffset s = some (offset, after)) :
    ∃ text, s = text ++ after ∧ OffsetText offset text := by
  rw [Instant.readOffset.eq_def] at h
  split at h
  · cases h
  rename_i c rest
  split at h
  · rename_i hletter
    obtain ⟨rfl, rfl⟩ := Prod.mk.inj (Option.some.inj h)
    exact ⟨[c], rfl, .letter hletter⟩
  split at h
  · rename_i hsign
    simp only [Option.bind_eq_bind, Option.bind_eq_some_iff] at h
    obtain ⟨⟨hours, rest'⟩, hhours, ⟨minutes, rest''⟩, hminutes, hresult⟩ := h
    simp only at hhours hminutes hresult
    split at hresult
    · rename_i hmax
      obtain ⟨hoffset, rfl⟩ := Prod.mk.inj (Option.some.inj hresult)
      obtain ⟨text, rfl, htext⟩ := exists_span hhours hminutes hmax
      refine ⟨c :: text, rfl, ?_⟩
      by_cases hplus : c = '+'
      · rw [if_pos hplus] at hoffset
        rw [← hoffset, hplus]
        exact .ahead htext
      · rw [if_neg hplus] at hoffset
        rw [← hoffset]
        exact .behind (hsign.resolve_left hplus) htext
    · cases hresult
  · cases h

lemma readZone_sound {offset : Int} {s after : List Char}
    (h : Instant.readZone s = some (offset, after)) :
    ∃ text, s = text ++ after ∧ AfterGap (OffsetText offset) text := by
  refine exists_afterGap ?_
  simp only [Instant.readZone] at h
  split at h
  · rename_i hletters
    obtain ⟨rfl, rfl⟩ := Prod.mk.inj (Option.some.inj h)
    exact ⟨_, (List.take_append_drop 3 _).symm, .name hletters⟩
  · exact readOffset_sound h

/-! ## Whole texts -/

lemma exists_spells {s : List Char} {t : Instant} (h : Instant.read? s = some t) :
    ∃ w, Spells w s ∧ w.instant? = some t := by
  -- One step for each part of the text, in their order.
  obtain ⟨⟨year, _⟩, ryear, h⟩ := Option.bind_eq_some_iff.mp h
  obtain ⟨_, rdash₁, h⟩ := Option.bind_eq_some_iff.mp h
  obtain ⟨⟨month, _⟩, rmonth, h⟩ := Option.bind_eq_some_iff.mp h
  obtain ⟨_, rdash₂, h⟩ := Option.bind_eq_some_iff.mp h
  obtain ⟨⟨day, behind⟩, rday, h⟩ := Option.bind_eq_some_iff.mp h
  obtain ⟨separator, _, rfl⟩ : ∃ c rest, behind = c :: rest := by
    cases behind with
    | nil => cases h
    | cons c rest => exact ⟨c, rest, rfl⟩
  by_cases hseparator : IsSeparator separator
  case neg => cases (if_neg hseparator).symm.trans h
  obtain ⟨_, hbehind, h⟩ := Option.bind_eq_some_iff.mp ((if_pos hseparator).symm.trans h)
  cases hbehind
  obtain ⟨⟨hour, _⟩, rhour, h⟩ := Option.bind_eq_some_iff.mp h
  obtain ⟨_, rcolon₁, h⟩ := Option.bind_eq_some_iff.mp h
  obtain ⟨⟨minute, _⟩, rminute, h⟩ := Option.bind_eq_some_iff.mp h
  obtain ⟨_, rcolon₂, h⟩ := Option.bind_eq_some_iff.mp h
  obtain ⟨⟨second, _⟩, rsecond, h⟩ := Option.bind_eq_some_iff.mp h
  obtain ⟨⟨nanos, _⟩, rfraction, h⟩ := Option.bind_eq_some_iff.mp h
  obtain ⟨⟨offset, rest⟩, rzone, h⟩ := Option.bind_eq_some_iff.mp h
  by_cases hend : Text.trimStart rest = [] ∧ offset.natAbs < 86400
  case neg => cases (if_neg hend).symm.trans h
  have hresult := (if_pos hend).symm.trans h
  obtain ⟨_, rfl, hyear⟩ := readYear_sound ryear
  obtain ⟨_, rfl, hdash₁⟩ := readMark_sound rdash₁
  obtain ⟨_, rfl, hmonth⟩ := readPair_sound rmonth
  obtain ⟨_, rfl, hdash₂⟩ := readMark_sound rdash₂
  obtain ⟨_, rfl, hday⟩ := readPair_sound rday
  obtain ⟨_, rfl, hhour⟩ := readPair_sound rhour
  obtain ⟨_, rfl, hcolon₁⟩ := readMark_sound rcolon₁
  obtain ⟨_, rfl, hminute⟩ := readPair_sound rminute
  obtain ⟨_, rfl, hcolon₂⟩ := readMark_sound rcolon₂
  obtain ⟨_, rfl, hsecond⟩ := readPair_sound rsecond
  obtain ⟨digits, _, rfl, hfraction, rfl⟩ := readFraction_sound rfraction
  obtain ⟨_, rfl, hzone⟩ := readZone_sound rzone
  obtain ⟨gap, hgap, hrest⟩ := exists_gap rest
  rw [hend.1, List.append_nil] at hrest
  subst hrest
  refine ⟨⟨⟨year, month, day⟩, hour, minute, second, digits, offset⟩, ?_, ?_⟩
  · exact .intro hyear hdash₁ hmonth hdash₂ hday hseparator hhour hcolon₁ hminute hcolon₂ hsecond
      hfraction hzone hgap
  · exact (if_pos hend.2).trans hresult

theorem read?_eq_some_iff {s : List Char} {t : Instant} :
    Instant.read? s = some t ↔ ∃ w, Spells w s ∧ w.instant? = some t := by
  refine ⟨exists_spells, ?_⟩
  rintro ⟨w, hspells, hinstant⟩
  rw [read?_of_spells hspells, hinstant]

end TimeText

end CommitStore
