import CommitStore.Command.Listing
import CommitStore.Proofs.Text.Digits

/-!
# The lines of a listing

A line says three things of an entry: its size, for which a directory has `DIR`, its time to the
second, and its location.  The widths of the columns and the colours are there for the eye only.
`Listing.IsLineOf` leaves them open: it asks for the three texts in their order and allows what
`Listing.IsGap` describes between them, which is blanks and, in colour, escape sequences.
`Listing.isLineOf_line` finds the three texts in every line.

A location may hold line breaks and blanks, so a listing cannot be cut into its lines again.  What
can be said of one is said line by line, of the entries in their order.
-/

namespace CommitStore

/-! ## Texts without escape sequences -/

lemma Text.not_mem_zeroPadded {c : Char} (hc : c.isDigit = false) (width n : Nat) :
    c ∉ Text.zeroPadded width n := by
  intro hmem
  rw [Text.isDigit_of_mem_zeroPadded hmem] at hc
  cases hc

lemma Instant.not_mem_writeYear {c : Char} (hc : c.isDigit = false) (hminus : c ≠ '-')
    (hplus : c ≠ '+') (year : Int) : c ∉ writeYear year := by
  have hdigits := Text.not_mem_zeroPadded hc 4 year.natAbs
  unfold writeYear
  split
  · simp [hminus, hdigits]
  · split
    · simp [hplus, hdigits]
    · exact hdigits

/-- A time is shown in digits, signs, hyphens, colons and a blank. -/
lemma Instant.escape_not_mem_writeColumns (t : Instant) : '\x1b' ∉ t.writeColumns := by
  have hyear := not_mem_writeYear (c := '\x1b') rfl (by decide) (by decide) t.dateTime.date.year
  have hpair := Text.not_mem_zeroPadded (c := '\x1b') rfl 2
  simp [writeColumns, writeDate, writeClock, hyear, hpair]

/-- A style is begun anew only behind an escape sequence. -/
lemma Style.resume_of_not_mem (style : Style) {text : List Char} (h : '\x1b' ∉ text) :
    style.resume text = text := by
  induction text with
  | nil => rfl
  | cons c text ih =>
    rw [List.mem_cons, not_or] at h
    rw [resume, ih h.2]
    rintro rest rfl
    exact absurd rfl h.1

namespace Listing

variable {color : Bool} {m : ObjectMeta}

/-! ## Between the columns -/

/-- What stands around the columns of a line: blanks and, in colour, beginnings and ends of
styles. -/
inductive IsGap (color : Bool) : List Char → Prop
  | nil : IsGap color []
  | blank {gap : List Char} : IsGap color gap → IsGap color (' ' :: gap)
  | start {gap : List Char} (style : Style) :
      color = true → IsGap color gap → IsGap color (style.start ++ gap)
  | reset {gap : List Char} : color = true → IsGap color gap → IsGap color (Style.reset ++ gap)

lemma IsGap.append {front back : List Char} (hfront : IsGap color front)
    (hback : IsGap color back) : IsGap color (front ++ back) := by
  induction hfront with
  | nil => exact hback
  | blank _ ih => exact .blank ih
  | start style hcolor _ ih =>
    rw [List.append_assoc]
    exact .start style hcolor ih
  | reset hcolor _ ih =>
    rw [List.append_assoc]
    exact .reset hcolor ih

lemma isGap_replicate (n : Nat) : IsGap color (List.replicate n ' ') := by
  induction n with
  | zero => exact .nil
  | succ n ih => exact .blank ih

/-- A painted text without escape sequences of its own has gaps on either side. -/
lemma exists_paint (style : Style) (color : Bool) {text : List Char} (h : '\x1b' ∉ text) :
    ∃ front back, style.paint color text = front ++ text ++ back ∧
      IsGap color front ∧ IsGap color back := by
  cases color with
  | true =>
    refine ⟨style.start, Style.reset, by simp [Style.paint, style.resume_of_not_mem h], ?_, ?_⟩
    · simpa using IsGap.start style rfl .nil
    · simpa using IsGap.reset rfl .nil
  | false => exact ⟨[], [], by simp [Style.paint], .nil, .nil⟩

/-! ## Lines -/

/-- What the size column of an entry says. -/
def sizeText (m : ObjectMeta) : List Char :=
  if m.isDirectory then ['D', 'I', 'R'] else Text.decimal m.size

/-- A text is a line about an entry: its size or `DIR`, its time and its location stand in it in
this order, with blanks between them, and there is nothing else in it but blanks, colours and the
line break at its end. -/
def IsLineOf (color : Bool) (m : ObjectMeta) (text : List Char) : Prop :=
  ∃ before between behind,
    text = before ++ sizeText m ++ between ++ m.lastModified.writeColumns ++ behind
      ++ m.location.text.toList ++ ['\n'] ∧
    IsGap color before ∧ IsGap color between ∧ IsGap color behind ∧ ' ' ∈ between ∧ ' ' ∈ behind

lemma exists_sizeCell (color : Bool) (m : ObjectMeta) :
    ∃ front back, sizeCell color m = front ++ sizeText m ++ back ∧
      IsGap color front ∧ IsGap color back := by
  rw [sizeCell, sizeText]
  split
  · exact exists_paint .cyan color (by decide)
  · exact ⟨[], [], by simp, .nil, .nil⟩

/-- Every line of a listing is a line about its entry. -/
lemma isLineOf_line (color : Bool) (m : ObjectMeta) : IsLineOf color m (line color m) := by
  obtain ⟨front, back, hsize, hfront, hback⟩ := exists_sizeCell color m
  obtain ⟨front', back', htime, hfront', hback'⟩ :=
    exists_paint .dimmed color m.lastModified.escape_not_mem_writeColumns
  have hblanks : IsGap color [' ', ' '] := .blank (.blank .nil)
  refine ⟨List.replicate (10 - (sizeCell color m).length) ' ' ++ front,
    back ++ [' ', ' '] ++ front', back' ++ [' ', ' '], ?_, (isGap_replicate _).append hfront,
    (hback.append hblanks).append hfront', hback'.append hblanks, by simp, by simp⟩
  rw [line, Text.padLeft, htime]
  nth_rewrite 2 [hsize]
  simp only [List.append_assoc]

end Listing

end CommitStore
