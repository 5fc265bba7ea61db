import CommitStore.Proofs.Command.Lines

/-!
# Colour in listings

Colour puts escape sequences into a line: around `DIR`, and around the time.  Which sequences of a
coloured line were put there cannot be told from its characters, since a location may hold any of
them.  So a line is taken apart by `Listing.lineParts` into what colouring put in and what is shown.

What is shown of a coloured line should be the plain line.  It is for an object.  The size column of
a directory is filled up after it was painted, and the escape sequences alone make it longer than
ten characters, so the seven blanks in front of `DIR` are missing and the rest of the line stands
that much further to the left.  `Listing.LosesFill` states this for one line, and
`Listing.shown_eq_plain_iff` draws the conclusion for a listing: it is shown as the plain one
exactly when it lists no directory.
-/

namespace CommitStore

lemma Text.length_padLeft (width : Nat) (pad : Char) (text : List Char) :
    (Text.padLeft width pad text).length = max width text.length := by
  rw [Text.padLeft, List.length_append, List.length_replicate]
  omega

namespace Listing

/-! ## Texts in parts -/

/-- A part of a coloured text. -/
inductive Part
  /-- Characters that are shown. -/
  | plain (text : List Char)
  /-- An escape sequence that colouring put in. -/
  | escape (text : List Char)

/-- All characters of a part. -/
def Part.text : Part → List Char
  | plain text => text
  | escape text => text

/-- The characters of a part that are shown. -/
def Part.visible : Part → List Char
  | plain text => text
  | escape _ => []

/-- The text that is made up of some parts. -/
def whole (parts : List Part) : List Char := parts.flatMap Part.text

/-- What is left of it without the escape sequences that colouring put in. -/
def shown (parts : List Part) : List Char := parts.flatMap Part.visible

@[simp] lemma whole_nil : whole [] = [] := rfl

@[simp] lemma shown_nil : shown [] = [] := rfl

@[simp] lemma whole_plain (text : List Char) (parts : List Part) :
    whole (.plain text :: parts) = text ++ whole parts := rfl

@[simp] lemma whole_escape (text : List Char) (parts : List Part) :
    whole (.escape text :: parts) = text ++ whole parts := rfl

@[simp] lemma shown_plain (text : List Char) (parts : List Part) :
    shown (.plain text :: parts) = text ++ shown parts := rfl

@[simp] lemma shown_escape (text : List Char) (parts : List Part) :
    shown (.escape text :: parts) = shown parts := rfl

@[simp] lemma whole_append (parts parts' : List Part) :
    whole (parts ++ parts') = whole parts ++ whole parts' :=
  List.flatMap_append

@[simp] lemma shown_append (parts parts' : List Part) :
    shown (parts ++ parts') = shown parts ++ shown parts' :=
  List.flatMap_append

/-- A painted text in parts. -/
def painted (style : Style) (text : List Char) : List Part :=
  [.escape style.start, .plain text, .escape Style.reset]

lemma whole_painted (style : Style) {text : List Char} (h : '\x1b' ∉ text) :
    whole (painted style text) = style.paint true text := by
  simp [painted, Style.paint, style.resume_of_not_mem h]

@[simp] lemma shown_painted (style : Style) (text : List Char) :
    shown (painted style text) = text := by
  simp [painted]

/-! ## Lines in parts -/

variable {entries : List ObjectMeta}

/-- The size column of a coloured line in parts. -/
def sizeParts (m : ObjectMeta) : List Part :=
  if m.isDirectory then painted .cyan ['D', 'I', 'R']
  else [.plain (Text.padLeft 10 ' ' (Text.decimal m.size))]

/-- A coloured line in parts. -/
def lineParts (m : ObjectMeta) : List Part :=
  sizeParts m ++ .plain [' ', ' '] :: painted .dimmed m.lastModified.writeColumns
    ++ [.plain ([' ', ' '] ++ m.location.text.toList ++ ['\n'])]

/-- A painted `DIR` is longer than the column already. -/
lemma whole_sizeParts (m : ObjectMeta) :
    whole (sizeParts m) = Text.padLeft 10 ' ' (sizeCell true m) := by
  rw [sizeParts, sizeCell]
  split
  · rw [whole_painted _ (by decide)]
    rfl
  · simp

/-- The parts make up the coloured line. -/
theorem whole_lineParts (m : ObjectMeta) : whole (lineParts m) = line true m := by
  have htime := whole_painted .dimmed m.lastModified.escape_not_mem_writeColumns
  simp [lineParts, line, whole_sizeParts, htime]

/-! ## What is shown of a coloured line -/

/-- What stands behind the size column of a line and the two blanks after it. -/
def behindSize (m : ObjectMeta) : List Char :=
  m.lastModified.writeColumns ++ [' ', ' '] ++ m.location.text.toList ++ ['\n']

/-- The number of blanks that a coloured line lacks in front of its size column. -/
def lostBlanks (m : ObjectMeta) : Nat := if m.isDirectory then 7 else 0

/-- A coloured line beside the plain one. -/
structure LosesFill (m : ObjectMeta) : Prop where
  whole_eq : whole (lineParts m) = line true m
  /-- Colouring put in nothing but the beginnings of two styles and their ends. -/
  escape_mem : ∀ text, .escape text ∈ lineParts m →
    text = Style.cyan.start ∨ text = Style.dimmed.start ∨ text = Style.reset
  /-- Behind the size column the two lines are the same.  In the plain one the size column and the
  blanks after it are twelve characters wide, unless the size has more than ten digits; in the
  coloured one blanks are missing at its front. -/
  exists_cell : ∃ cell, line false m = cell ++ behindSize m ∧
    shown (lineParts m) = cell.drop (lostBlanks m) ++ behindSize m ∧
    cell.take (lostBlanks m) = List.replicate (lostBlanks m) ' ' ∧
    (m.isDirectory = true ∨ m.size < 10 ^ 10 → cell.length = 12)

lemma escape_mem_lineParts {m : ObjectMeta} {text : List Char} (h : .escape text ∈ lineParts m) :
    text = Style.cyan.start ∨ text = Style.dimmed.start ∨ text = Style.reset := by
  unfold lineParts sizeParts at h
  cases hdirectory : m.isDirectory <;> simp [hdirectory, painted] at h <;> tauto

lemma shown_lineParts (m : ObjectMeta) :
    shown (lineParts m) = shown (sizeParts m) ++ [' ', ' '] ++ behindSize m := by
  simp [lineParts, behindSize]

lemma line_false (m : ObjectMeta) :
    line false m = Text.padLeft 10 ' ' (sizeCell false m) ++ [' ', ' '] ++ behindSize m := by
  simp [line, behindSize, Style.paint]

/-- What is shown of a coloured line is the plain line, without the blanks in front of `DIR`. -/
theorem losesFill (m : ObjectMeta) : LosesFill m := by
  refine ⟨whole_lineParts m, fun _ => escape_mem_lineParts, _, line_false m, ?_⟩
  rw [shown_lineParts]
  cases hdirectory : m.isDirectory with
  | true =>
    have hcell : Text.padLeft 10 ' ' (sizeCell false m) =
        List.replicate 7 ' ' ++ ['D', 'I', 'R'] := by
      rw [sizeCell, if_pos hdirectory]
      rfl
    have hparts : shown (sizeParts m) = ['D', 'I', 'R'] := by
      rw [sizeParts, if_pos hdirectory, shown_painted]
    rw [hcell, hparts, lostBlanks, if_pos hdirectory]
    exact ⟨rfl, rfl, fun _ => rfl⟩
  | false =>
    have hobject : ¬ m.isDirectory = true := by simp [hdirectory]
    have hcell : Text.padLeft 10 ' ' (sizeCell false m) =
        Text.padLeft 10 ' ' (Text.decimal m.size) := by
      rw [sizeCell, if_neg hobject]
    have hparts : shown (sizeParts m) = Text.padLeft 10 ' ' (Text.decimal m.size) := by
      simp [sizeParts, hdirectory]
    rw [hcell, hparts, lostBlanks, if_neg hobject]
    refine ⟨rfl, rfl, fun hsize => ?_⟩
    have hsmall : m.size < 10 ^ 10 := hsize.resolve_left Bool.false_ne_true
    have hdigits : (Text.decimal m.size).length ≤ 10 :=
      (Nat.length_toDigits_le_iff (by decide) (by decide)).mpr hsmall
    rw [List.length_append, Text.length_padLeft, Nat.max_eq_left hdigits]
    rfl

/-! ## Whole listings -/

lemma whole_flatMap_lineParts (entries : List ObjectMeta) :
    whole (entries.flatMap lineParts) = entries.flatMap (line true) := by
  induction entries with
  | nil => rfl
  | cons m entries ih => simp [whole_lineParts, ih]

/-- What is shown of a coloured listing lacks seven characters for each directory. -/
lemma length_plain (entries : List ObjectMeta) : (entries.flatMap (line false)).length =
    (shown (entries.flatMap lineParts)).length + 7 * entries.countP ObjectMeta.isDirectory := by
  induction entries with
  | nil => rfl
  | cons m entries ih =>
    obtain ⟨cell, hline, hshown, hblanks, -⟩ := (losesFill m).exists_cell
    have hlost : lostBlanks m ≤ cell.length := by
      have := congrArg List.length hblanks
      rw [List.length_take, List.length_replicate] at this
      omega
    have hcount : lostBlanks m = 7 * if m.isDirectory then 1 else 0 := by
      rw [lostBlanks]
      split <;> rfl
    rw [List.flatMap_cons, List.flatMap_cons, shown_append, List.length_append, List.length_append,
      ih, hline, hshown, List.countP_cons, List.length_append, List.length_append, List.length_drop]
    omega

lemma shown_of_objects (h : ∀ m ∈ entries, m.isDirectory = false) :
    shown (entries.flatMap lineParts) = entries.flatMap (line false) := by
  induction entries with
  | nil => rfl
  | cons m entries ih =>
    obtain ⟨cell, hline, hshown, -⟩ := (losesFill m).exists_cell
    rw [lostBlanks, h m List.mem_cons_self, if_neg Bool.false_ne_true, List.drop_zero] at hshown
    rw [List.flatMap_cons, List.flatMap_cons, shown_append, hshown, ← hline,
      ih fun m hm => h m (List.mem_cons_of_mem _ hm)]

/-- Without the escape sequences that colouring put into it, a coloured listing is the plain one
exactly when it lists no directory.  Line by line only the blanks in front of `DIR` are missing, by
which the columns of a directory stand to the left of those of an object. -/
theorem shown_eq_plain_iff (entries : List ObjectMeta) :
    String.ofList (whole (entries.flatMap lineParts)) = render .text true entries ∧
    (∀ m ∈ entries, LosesFill m) ∧
    (String.ofList (shown (entries.flatMap lineParts)) = render .text false entries ↔
      ∀ m ∈ entries, m.isDirectory = false) := by
  refine ⟨congrArg String.ofList (whole_flatMap_lineParts entries), fun m _ => losesFill m, ?_,
    fun h => ?_⟩
  · intro hsame
    have hlength := congrArg List.length (String.ofList_injective hsame)
    rw [length_plain] at hlength
    have hnone : entries.countP ObjectMeta.isDirectory = 0 := by omega
    intro m hm
    simpa using List.countP_eq_zero.mp hnone m hm
  · exact congrArg String.ofList (shown_of_objects h)

/-- A directory and an object in it. -/
def sampleOfBoth : List ObjectMeta :=
  [.ofDirectory (.ofText "a") .epoch, .ofObject (.ofText "a/x") 1 .epoch]

/-- The directory is listed seven columns to the left of the object, in colour only. -/
theorem colour_shifts_directory :
    String.ofList (whole (sampleOfBoth.flatMap lineParts)) = render .text true sampleOfBoth ∧
      String.ofList (shown (sampleOfBoth.flatMap lineParts)) =
        "DIR  1970-01-01 00:00:00  a/\n         1  1970-01-01 00:00:00  a/x\n" ∧
      render .text false sampleOfBoth =
        "       DIR  1970-01-01 00:00:00  a/\n         1  1970-01-01 00:00:00  a/x\n" ∧
      String.ofList (shown (sampleOfBoth.flatMap lineParts)) ≠ render .text false sampleOfBoth := by
  decide +kernel

end Listing

end CommitStore
