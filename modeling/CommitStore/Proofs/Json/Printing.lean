import CommitStore.Proofs.Json.Grammar
import CommitStore.Proofs.Json.Record

/-!
# What is printed is read back

Both printers write texts of the grammar, so the reader takes what they print.  It finds the value
that was printed but for one thing: a control character without a short escape comes back as the
code unit that it was written as.  `Json.ReadBack` relates a value to what is found.

Understanding a string undoes this (`Json.decode_reread`), and so what a printed object says under
each name is what was put there (`Json.namedMembers?_of_readBack`).
-/

namespace CommitStore

namespace Json

/-! ## Numbers and strings -/

lemma isWhole_decimal (n : Nat) : IsWhole (Text.decimal n) := by
  rcases Text.decimal_cases n with hzero | ⟨c, rest, hrest, hc⟩
  · exact .inl hzero
  · exact .inr ⟨Text.isDigits_decimal n, by simpa [hrest] using hc⟩

lemma numberText_ofInt (n : Int) : NumberText (.ofInt n) ((Number.ofInt n).write.map some) := by
  have hmagnitude : MagnitudeText (.ofInt n) ((Text.decimal n.natAbs).map some ++ ([] ++ [])) :=
    .intro (isWhole_decimal _) .absent .absent
  rw [List.append_nil, List.append_nil] at hmagnitude
  by_cases hsign : n < 0
  · have hwrite : (Number.ofInt n).write = '-' :: Text.decimal n.natAbs := by
      simp [Number.write, Number.ofInt, hsign]
    rw [hwrite]
    exact .negative (by simpa [Number.ofInt] using hsign) hmagnitude
  · have hwrite : (Number.ofInt n).write = Text.decimal n.natAbs := by
      simp [Number.write, Number.ofInt, hsign]
    rw [hwrite]
    exact .positive (by simpa [Number.ofInt] using hsign) hmagnitude

/-- The piece that a printed character is read back as: a control character without a short escape
is written as a code unit. -/
def rereadChar (c : Char) : Piece :=
  if c.toNat < 0x20 ∧ c ∉ ['\x08', '\x0c', '\n', '\r', '\t'] then .unit c.toNat else .char c

/-- Two hexadecimal digits behind two zeros are read as the code unit of a control character. -/
lemma codeUnit?_control {n : Nat} (h : n < 0x20) :
    codeUnit? (some '0') (some '0') (some (n / 16).digitChar)
      (some (n % 16).digitChar) = some n := by
  have hall : ∀ n < 0x20, codeUnit? (some '0') (some '0') (some (n / 16).digitChar)
      (some (n % 16).digitChar) = some n := by
    decide
  exact hall n h

/-- A printed character is a text of the piece that it is read back as. -/
lemma charsText_escape (c : Char) {pieces : List Piece} {s : Source} (h : CharsText pieces s) :
    CharsText (rereadChar c :: pieces) ((escape c).map some ++ s) := by
  by_cases hshort : c ∈ ['"', '\\', '\x08', '\x0c', '\n', '\r', '\t']
  · simp only [List.mem_cons, List.not_mem_nil, or_false] at hshort
    rcases hshort with rfl | rfl | rfl | rfl | rfl | rfl | rfl <;> exact .short rfl h
  · simp only [List.mem_cons, List.not_mem_nil, or_false, not_or] at hshort
    obtain ⟨hquote, hescape, hback, hfeed, hline, hreturn, htab⟩ := hshort
    by_cases hcontrol : c.toNat < 0x20
    · have hchar : rereadChar c = .unit c.toNat := by
        rw [rereadChar, if_pos ⟨hcontrol, by simp [hback, hfeed, hline, hreturn, htab]⟩]
      rw [hchar, escape, if_neg hquote, if_neg hescape, if_neg hback, if_neg hfeed, if_neg hline,
        if_neg hreturn, if_neg htab, if_pos hcontrol]
      exact .unit (codeUnit?_control hcontrol) h
    · have hchar : rereadChar c = .char c := if_neg fun hunit => hcontrol hunit.1
      rw [hchar, escape, if_neg hquote, if_neg hescape, if_neg hback, if_neg hfeed, if_neg hline,
        if_neg hreturn, if_neg htab, if_neg hcontrol]
      exact .plain hquote hescape hcontrol h

lemma charsText_flatMap (chars : List Char) :
    CharsText (chars.map rereadChar) ((chars.flatMap escape).map some) := by
  induction chars with
  | nil => exact .nil
  | cons c chars ih => simpa using charsText_escape c ih

/-- A text is understood as it was written. -/
theorem decode_reread (chars : List Char) : decode (chars.map rereadChar) = some chars := by
  induction chars with
  | nil => rfl
  | cons c chars ih =>
    rw [List.map_cons, rereadChar]
    split
    · rename_i hcontrol
      have hsingle : c.toNat < 0xD800 := by omega
      simp [decode.eq_def (.unit c.toNat :: _), hsingle, ih]
    · rw [decode, ih, Option.map_some]

/-! ## Values -/

mutual

/-- A value made of texts and integers, and the value that is read when it was printed. -/
inductive ReadBack : Json → Json → Prop
  | null : ReadBack .null .null
  | bool (b : Bool) : ReadBack (.bool b) (.bool b)
  | int (n : Int) : ReadBack (.ofInt n) (.ofInt n)
  | text (chars : List Char) :
      ReadBack (.string (chars.map .char)) (.string (chars.map rereadChar))
  | array {items items' : List Json} (h : ItemsBack items items') :
      ReadBack (.array items) (.array items')
  | object {members members' : List (List Piece × Json)} (h : MembersBack members members') :
      ReadBack (.object members) (.object members')

/-- Items, and what is read back for them. -/
inductive ItemsBack : List Json → List Json → Prop
  | nil : ItemsBack [] []
  | cons {item item' : Json} {items items' : List Json} (h : ReadBack item item')
      (hmore : ItemsBack items items') : ItemsBack (item :: items) (item' :: items')

/-- Members, and what is read back for them. -/
inductive MembersBack : List (List Piece × Json) → List (List Piece × Json) → Prop
  | nil : MembersBack [] []
  | cons {value value' : Json} {members members' : List (List Piece × Json)} (key : List Char)
      (h : ReadBack value value') (hmore : MembersBack members members') :
      MembersBack ((key.map .char, value) :: members) ((key.map rereadChar, value') :: members')

end

lemma ValueText.padded {value : Json} {before s behind : Source} (h : ValueText value s)
    (hbefore : IsBlanks before) (hbehind : IsBlanks behind) :
    PaddedText value (before ++ (s ++ behind)) :=
  .intro hbefore h hbehind

lemma writeString_text (key : List Char) :
    (writeString (key.map .char)).map some =
      some '"' :: ((key.flatMap escape).map some ++ [some '"']) := by
  have hpieces : (key.map Piece.char).flatMap writePiece = key.flatMap escape := by
    rw [List.flatMap_map]
    rfl
  rw [writeString, hpieces]
  simp

mutual

/-- What is printed on one line is a text of what is read back. -/
theorem valueText_compact {value value' : Json} (h : ReadBack value value') :
    ValueText value' (value.compact.map some) := by
  match h with
  | .null => exact .null
  | .bool Bool.true => exact .yes
  | .bool Bool.false => exact .no
  | .int n => exact .number (numberText_ofInt n)
  | .text chars =>
    rw [compact, writeString_text]
    exact .string (charsText_flatMap chars)
  | .array .nil => exact .noItems IsBlanks.nil
  | .array (.cons hitem hmore) =>
    simpa [compact] using ValueText.array (itemsText_compact (.cons hitem hmore) (by simp))
  | .object .nil => exact .noMembers IsBlanks.nil
  | .object (.cons key hvalue hmore) =>
    simpa [compact] using ValueText.object (membersText_compact (.cons key hvalue hmore) (by simp))

theorem itemsText_compact {items items' : List Json} (h : ItemsBack items items')
    (hne : items ≠ []) : ItemsText items' ((compactItems items).map some ++ [some ']']) := by
  match h with
  | .nil => exact absurd rfl hne
  | .cons hitem .nil =>
    have hitem := (valueText_compact hitem).padded IsBlanks.nil IsBlanks.nil
    simpa [compactItems] using ItemsText.last hitem
  | .cons hitem (.cons hnext hmore) =>
    have hitem := (valueText_compact hitem).padded IsBlanks.nil IsBlanks.nil
    have hmore := itemsText_compact (.cons hnext hmore) (by simp)
    simpa [compactItems] using ItemsText.cons hitem hmore

/-- The members of an object, printed on one line. -/
theorem membersText_compact {members members' : List (List Piece × Json)}
    (h : MembersBack members members') (hne : members ≠ []) :
    MembersText members' ((compactMembers members).map some ++ [some '\x7d']) := by
  match h with
  | .nil => exact absurd rfl hne
  | .cons key hvalue .nil =>
    have hkey := charsText_flatMap key
    have hvalue := (valueText_compact hvalue).padded IsBlanks.nil IsBlanks.nil
    simpa [compactMembers, writeString_text] using
      MembersText.last IsBlanks.nil hkey IsBlanks.nil hvalue
  | .cons key hvalue (.cons key' hnext hmore) =>
    have hkey := charsText_flatMap key
    have hvalue := (valueText_compact hvalue).padded IsBlanks.nil IsBlanks.nil
    have hmore := membersText_compact (.cons key' hnext hmore) (by simp)
    simpa [compactMembers, writeString_text] using
      MembersText.cons IsBlanks.nil hkey IsBlanks.nil hvalue hmore

end

lemma isBlanks_newLine (depth : Nat) : IsBlanks ((newLine depth).map some) := by
  intro c hc
  obtain ⟨d, hd, rfl⟩ := List.mem_map.mp hc
  refine ⟨d, rfl, ?_⟩
  rcases List.mem_cons.mp hd with rfl | hd
  · decide
  · rw [List.eq_of_mem_replicate hd]
    decide

lemma isBlanks_space : IsBlanks [some ' '] := by
  simp [IsBlanks, isBlank]

mutual

/-- What is printed over several lines is a text of what is read back. -/
theorem valueText_pretty {value value' : Json} (h : ReadBack value value') (depth : Nat) :
    ValueText value' ((value.prettyAt depth).map some) := by
  match h with
  | .null => exact .null
  | .bool Bool.true => exact .yes
  | .bool Bool.false => exact .no
  | .int n => exact .number (numberText_ofInt n)
  | .text chars =>
    rw [prettyAt, writeString_text]
    exact .string (charsText_flatMap chars)
  | .array .nil => exact .noItems IsBlanks.nil
  | .array (.cons hitem hmore) =>
    simpa [prettyAt] using ValueText.array (itemsText_pretty (.cons hitem hmore) (by simp) depth)
  | .object .nil => exact .noMembers IsBlanks.nil
  | .object (.cons key hvalue hmore) =>
    simpa [prettyAt] using
      ValueText.object (membersText_pretty (.cons key hvalue hmore) (by simp) depth)

theorem itemsText_pretty {items items' : List Json} (h : ItemsBack items items')
    (hne : items ≠ []) (depth : Nat) :
    ItemsText items' ((prettyItems (depth + 1) items).map some ++
      ((newLine depth).map some ++ [some ']'])) := by
  match h with
  | .nil => exact absurd rfl hne
  | .cons hitem .nil =>
    have hitem := (valueText_pretty hitem (depth + 1)).padded (isBlanks_newLine (depth + 1))
      (isBlanks_newLine depth)
    simpa [prettyItems] using ItemsText.last hitem
  | .cons hitem (.cons hnext hmore) =>
    have hitem := (valueText_pretty hitem (depth + 1)).padded (isBlanks_newLine (depth + 1))
      IsBlanks.nil
    have hmore := itemsText_pretty (.cons hnext hmore) (by simp) depth
    simpa [prettyItems] using ItemsText.cons hitem hmore

/-- The members of an object, printed over several lines. -/
theorem membersText_pretty {members members' : List (List Piece × Json)}
    (h : MembersBack members members') (hne : members ≠ []) (depth : Nat) :
    MembersText members' ((prettyMembers (depth + 1) members).map some ++
      ((newLine depth).map some ++ [some '\x7d'])) := by
  match h with
  | .nil => exact absurd rfl hne
  | .cons key hvalue .nil =>
    have hkey := charsText_flatMap key
    have hvalue := (valueText_pretty hvalue (depth + 1)).padded isBlanks_space
      (isBlanks_newLine depth)
    simpa [prettyMembers, writeString_text] using
      MembersText.last (isBlanks_newLine (depth + 1)) hkey IsBlanks.nil hvalue
  | .cons key hvalue (.cons key' hnext hmore) =>
    have hkey := charsText_flatMap key
    have hvalue := (valueText_pretty hvalue (depth + 1)).padded isBlanks_space IsBlanks.nil
    have hmore := membersText_pretty (.cons key' hnext hmore) (by simp) depth
    simpa [prettyMembers, writeString_text] using
      MembersText.cons (isBlanks_newLine (depth + 1)) hkey IsBlanks.nil hvalue hmore

end

theorem parse?_compact {value value' : Json} (h : ReadBack value value') :
    parse? (value.compact.map some) = some value' := by
  have htext := (valueText_compact h).padded IsBlanks.nil IsBlanks.nil
  rw [List.nil_append, List.append_nil] at htext
  exact parse?_of_text htext

theorem parse?_pretty {value value' : Json} (h : ReadBack value value') :
    parse? (value.pretty.map some) = some value' := by
  have htext := (valueText_pretty h 0).padded IsBlanks.nil IsBlanks.nil
  rw [List.nil_append, List.append_nil] at htext
  exact parse?_of_text htext

/-! ## Records -/

lemma ofNat_eq_ofInt (n : Nat) : ofNat n = ofInt n := by
  simp [ofNat, ofInt, Number.ofNat, Number.ofInt]

lemma readBack_ofNat (n : Nat) : ReadBack (ofNat n) (ofNat n) := by
  rw [ofNat_eq_ofInt]
  exact .int n

lemma readBack_ofString (text : String) :
    ReadBack (ofString text) (.string (text.toList.map rereadChar)) :=
  .text text.toList

/-- The text of a printed string is understood. -/
lemma text?_reread (text : String) : text? (.string (text.toList.map rereadChar)) = some text := by
  rw [text?, decode_reread, Option.map_some, String.ofList_toList]

/-- The integer that was written is the one that is denoted. -/
lemma int?_ofInt (n : Int) : int? (ofInt n) = some n := by
  simp only [int?, ofInt, Number.toInt?, Number.ofInt, Text.ofDecimal_decimal]
  by_cases hsign : n < 0
  · have hne : n.natAbs ≠ 0 := by omega
    have hvalue : -(n.natAbs : Int) = n := by omega
    rw [if_pos ⟨trivial, trivial⟩, if_pos (decide_eq_true hsign), if_neg hne, hvalue]
  · have hvalue : (n.natAbs : Int) = n := by omega
    rw [if_pos ⟨trivial, trivial⟩, if_neg (by simpa using hsign), hvalue]

/-- The members of a printed object come back under their names. -/
theorem namedMembers?_of_readBack {members members' : List (String × Json)}
    (h : List.Forall₂ (fun m m' => m.1 = m'.1 ∧ ReadBack m.2 m'.2) members members') :
    ∃ pieces, ReadBack (ofMembers members) (.object pieces) ∧
      namedMembers? pieces = some members' := by
  suffices hback : ∃ pieces,
      MembersBack (members.map fun m => (m.1.toList.map .char, m.2)) pieces ∧
        namedMembers? pieces = some members' by
    obtain ⟨pieces, hmembers, hnamed⟩ := hback
    exact ⟨pieces, .object hmembers, hnamed⟩
  induction h with
  | nil => exact ⟨[], .nil, rfl⟩
  | @cons m m' _ _ hfirst _ ih =>
    obtain ⟨pieces, hmembers, hnamed⟩ := ih
    refine ⟨(m.1.toList.map rereadChar, m'.2) :: pieces, .cons _ hfirst.2 hmembers, ?_⟩
    rw [namedMembers?_cons, decode_reread, Option.bind_some, hnamed, String.ofList_toList, hfirst.1,
      Option.map_some]

end Json

end CommitStore
