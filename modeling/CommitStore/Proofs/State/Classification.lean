import CommitStore.Proofs.Json.Soundness
import CommitStore.Proofs.State.ReadBack

/-!
# What a state file says

The bytes of a state file are nothing but white space, or they are a text that a version can be read
from, or neither; and which of these they are decides what is read, as `StateFile.Classifies` has
it.  A version is read from an object with one member of that name or from an array with one item,
and it is an integer that is written as integers are (`CommitState.IsToldBy`).

What was written for a state ends with the brace that closes it, so no part of it up to an earlier
place is such a text (`StateFile.read_of_truncated`).
-/

namespace CommitStore

/-! ## Bytes of ASCII -/

/-- A byte of ASCII is the character with its code. -/
lemma Text.utf8EncodeChar_ofNat {b : UInt8} (h : b < 128) :
    String.utf8EncodeChar (Char.ofNat b.toNat) = [b] := by
  have hall : ∀ n < 128, String.utf8EncodeChar (Char.ofNat n) = [n.toUInt8] := by decide
  simpa using hall b.toNat (by simpa [UInt8.lt_iff_toNat_lt] using h)

/-- Bytes of ASCII are read one by one. -/
lemma Source.ofBytes_of_ascii {content : ByteArray} (h : ∀ b ∈ content.data, b < 128) :
    ofBytes content = content.data.toList.map fun b => some (Char.ofNat b.toNat) := by
  have hbytes : ∀ bytes : List UInt8, (∀ b ∈ bytes, b < 128) →
      (bytes.map fun b => Char.ofNat b.toNat).flatMap String.utf8EncodeChar = bytes := by
    intro bytes hbytes
    induction bytes with
    | nil => rfl
    | cons b bytes ih =>
      rw [List.map_cons, List.flatMap_cons, Text.utf8EncodeChar_ofNat (hbytes b List.mem_cons_self),
        ih fun b hb => hbytes b (List.mem_cons_of_mem _ hb), List.singleton_append]
  have hcontent : content =
      (String.ofList (content.data.toList.map fun b => Char.ofNat b.toNat)).toUTF8 := by
    apply ByteArray.ext
    rw [String.toUTF8, String.toByteArray_ofList, List.utf8Encode, List.data_toByteArray,
      hbytes _ fun b hb => h b (Array.mem_toList_iff.mp hb), Array.toArray_toList]
  conv_lhs => rw [hcontent]
  rw [ofBytes_toUTF8, ofString, String.toList_ofList, List.map_map]
  rfl

/-- So a character that is read is one of the bytes. -/
lemma Source.mem_of_mem_ofBytes {content : ByteArray} (h : ∀ b ∈ content.data, b < 128) {c : Char}
    (hc : some c ∈ ofBytes content) : ∃ b ∈ content.data, c = Char.ofNat b.toNat := by
  rw [ofBytes_of_ascii h, List.mem_map] at hc
  obtain ⟨b, hb, hc⟩ := hc
  exact ⟨b, Array.mem_toList_iff.mp hb, (Option.some.inj hc).symm⟩

namespace CommitState

variable {state : CommitState} {value : Json} {members : List (List Json.Piece × Json)} {s : Source}

/-! ## Values and texts -/

/-- A value that tells the version of a state: an object in which one member has that name, or an
array with one item. -/
inductive IsToldBy : CommitState → Json → Prop
  | object {state : CommitState} {members : List (List Json.Piece × Json)}
      (h : Json.valuesOf "version" members = [.ofInt state.version.toInt]) :
        IsToldBy state (.object members)
  | array (state : CommitState) : IsToldBy state (.array [.ofInt state.version.toInt])

/-- A text of such a value, with nothing but white space around it. -/
def IsWrittenIn (state : CommitState) (s : Source) : Prop :=
  ∃ value, Json.PaddedText value s ∧ state.IsToldBy value

/-- The bounds are those of the integers that fit. -/
lemma version_of_intWithin? {n : Int}
    (h : value.intWithin? Int64.minValue.toInt Int64.maxValue.toInt = some n) :
    value.int? = some n ∧ (Int64.ofInt n).toInt = n := by
  obtain ⟨hint, hlow, hhigh⟩ := Json.intWithin?_eq_some_iff.mp h
  have hmin : Int64.minValue.toInt = -2 ^ 63 := by decide
  have hmax : Int64.maxValue.toInt = 2 ^ 63 - 1 := by decide
  exact ⟨hint, Int64.toInt_ofInt_of_le (by omega) (by omega)⟩

/-- A value from which a state is decoded has one field, with the version in it. -/
lemma ofJson?_eq_some_iff : ofJson? value = some state ↔ ∃ version,
    value.fields? ["version"] = some [some version] ∧
      version.intWithin? Int64.minValue.toInt Int64.maxValue.toInt = some state.version.toInt := by
  constructor
  · intro h
    obtain ⟨fields, hfields, h⟩ := Option.bind_eq_some_iff.mp h
    split at h
    · rename_i version
      obtain ⟨n, hn, h⟩ := Option.bind_eq_some_iff.mp h
      obtain rfl := Option.some.inj h
      exact ⟨version, hfields, by rw [(version_of_intWithin? hn).2, hn]⟩
    · cases h
  · rintro ⟨version, hfields, hversion⟩
    rw [ofJson?, hfields]
    simp only [Option.bind_eq_bind, Option.bind_some, hversion, Int64.ofInt_toInt]
    rfl

/-- A value from which a state is decoded tells its version, if it has a text at all. -/
lemma isToldBy_of_ofJson? (htext : Json.ValueText value s) (h : ofJson? value = some state) :
    state.IsToldBy value := by
  obtain ⟨version, hfields, hversion⟩ := ofJson?_eq_some_iff.mp h
  have hint := (version_of_intWithin? hversion).1
  cases value with
  | object members =>
    obtain ⟨hvalues, -⟩ := List.forall₂_cons.mp (Json.valuesOf_of_fields? hfields)
    have hmem : version ∈ Json.valuesOf "version" members := by simp [hvalues]
    obtain ⟨member, hmember, hname⟩ := List.mem_filterMap.mp hmem
    obtain ⟨t, ht⟩ := htext.exists_text_members member hmember
    split at hname
    · rw [Option.some.inj hname] at ht
      rw [Json.eq_ofInt_of_text ht hint] at hvalues
      exact .object hvalues
    · cases hname
  | array items =>
    obtain rfl : items = [version] := by
      match items with
      | [] => cases hfields
      | [item] => simpa [Json.fields?, Json.fillFields] using hfields
      | _ :: _ :: _ => cases hfields
    obtain ⟨t, ht⟩ := htext.exists_text_items version (List.mem_singleton_self version)
    rw [Json.eq_ofInt_of_text ht hint]
    exact .array state
  | _ => cases hfields

lemma ofJson?_of_valuesOf (hnames : ∀ member ∈ members, Json.decode member.1 ≠ none)
    (hvalues : Json.valuesOf "version" members = [.ofInt state.version.toInt]) :
    ofJson? (.object members) = some state :=
  ofJson?_eq_some_iff.mpr ⟨_, Json.fields?_of_valuesOf hnames (.cons hvalues .nil),
    state.intWithin?_version⟩

/-! ## Plain objects -/

/-- A member beside the version: its name is another one, written in plain characters, and its value
is a string of plain characters, a truth value or null. -/
inductive IsBeside : List Json.Piece × Json → Prop
  | null {name : List Char} (hname : name ≠ "version".toList) : IsBeside (name.map .char, .null)
  | bool {name : List Char} (hname : name ≠ "version".toList) (b : Bool) :
      IsBeside (name.map .char, .bool b)
  | string {name : List Char} (hname : name ≠ "version".toList) (text : List Char) :
      IsBeside (name.map .char, .string (text.map .char))

/-- The members are the version of a state, under a name that stands for the right one, and plain
members beside it, in any order. -/
def StandsPlainlyIn (state : CommitState) (members : List (List Json.Piece × Json)) : Prop :=
  ∃ before key behind, members = before ++ (key, .ofInt state.version.toInt) :: behind ∧
    Json.decode key = some "version".toList ∧ ∀ member ∈ before ++ behind, IsBeside member

lemma IsBeside.decode_name {member : List Json.Piece × Json} (h : IsBeside member) :
    ∃ name, Json.decode member.1 = some name ∧ name ≠ "version".toList := by
  cases h <;> exact ⟨_, Json.decode_chars _, by assumption⟩

lemma ofJson?_of_plain (h : state.StandsPlainlyIn members) :
    ofJson? (.object members) = some state := by
  obtain ⟨before, key, behind, rfl, hkey, hbeside⟩ := h
  have hunnamed : ∀ part : List (List Json.Piece × Json),
      (∀ member ∈ part, member ∈ before ++ behind) →
      Json.valuesOf "version" part = [] := fun part hpart =>
    Json.valuesOf_of_unnamed fun member hmember => by
      obtain ⟨name, hname, hne⟩ := (hbeside member (hpart member hmember)).decode_name
      simpa [hname] using hne
  refine ofJson?_of_valuesOf (fun member hmember => ?_) ?_
  · rw [List.mem_append, List.mem_cons] at hmember
    rcases hmember with hmember | rfl | hmember
    · obtain ⟨name, hname, -⟩ := (hbeside member (List.mem_append_left _ hmember)).decode_name
      simp [hname]
    · simp [hkey]
    · obtain ⟨name, hname, -⟩ := (hbeside member (List.mem_append_right _ hmember)).decode_name
      simp [hname]
  · rw [Json.valuesOf_append, Json.valuesOf_cons, if_pos hkey,
      hunnamed before fun _ => List.mem_append_left _,
      hunnamed behind fun _ => List.mem_append_right _]
    rfl

end CommitState

namespace StateFile

variable {f : StateFile} {content rest : ByteArray} {state : CommitState}

/-! ## Reading -/

/-- Nothing but white space, byte by byte. -/
def IsBlankContent (content : ByteArray) : Prop := ∀ b ∈ content.data, Text.isBlankByte b = true

lemma all_isBlankByte_iff : content.data.all Text.isBlankByte = true ↔ IsBlankContent content :=
  Array.all_eq_true_iff_forall_mem

/-- A content that is not blank is read as a value, and that is decoded. -/
lemma read_of_not_blank (h : ¬ IsBlankContent content) : read content =
    match (Json.parse? (.ofBytes content)).bind CommitState.ofJson? with
    | some state => .ok state
    | none => .error .unreadable :=
  if_neg (mt all_isBlankByte_iff.mp h)

lemma read_eq_empty_iff : read content = .error .empty ↔ IsBlankContent content := by
  by_cases h : IsBlankContent content
  · exact iff_of_true (if_pos (all_isBlankByte_iff.mpr h)) h
  · rw [read_of_not_blank h]
    split <;> simp [h]

lemma isWrittenIn_of_read (h : read content = .ok state) :
    state.IsWrittenIn (.ofBytes content) := by
  have hblank : ¬ IsBlankContent content := fun hblank => by
    rw [read_eq_empty_iff.mpr hblank] at h
    cases h
  rw [read_of_not_blank hblank] at h
  split at h
  · rename_i state' hstate
    obtain rfl := Except.ok.inj h
    obtain ⟨value, hvalue, hdecode⟩ := Option.bind_eq_some_iff.mp hstate
    have htext := Json.parse?_eq_some_iff.mp hvalue
    obtain ⟨t, ht⟩ := htext.exists_text
    exact ⟨value, htext, CommitState.isToldBy_of_ofJson? ht hdecode⟩
  · cases h

/-- A content that is neither blank nor has a state written in it cannot be read. -/
lemma read_of_neither (hblank : ¬ IsBlankContent content)
    (hnone : ∀ state : CommitState, ¬ state.IsWrittenIn (.ofBytes content)) :
    read content = .error .unreadable := by
  cases hread : read content with
  | ok state => exact absurd (isWrittenIn_of_read hread) (hnone state)
  | error e =>
    rw [read_of_not_blank hblank] at hread
    split at hread
    · cases hread
    · exact hread.symm

lemma ascii_of_blank {b : UInt8} (h : Text.isBlankByte b = true) :
    b < 128 ∧ Char.ofNat b.toNat ≠ '\x7b' := by
  simp only [Text.isBlankByte, Bool.or_eq_true, decide_eq_true_eq] at h
  rcases h with (((rfl | rfl) | rfl) | rfl) | rfl <;> decide

/-- A text of an object is more than white space. -/
lemma not_isBlankContent_of_object {members : List (List Json.Piece × Json)}
    (h : Json.PaddedText (.object members) (.ofBytes content)) : ¬ IsBlankContent content := by
  intro hblank
  obtain ⟨b, hb, hbrace⟩ := Source.mem_of_mem_ofBytes (fun b hb => (ascii_of_blank (hblank b hb)).1)
    h.braces_mem.1
  exact (ascii_of_blank (hblank b hb)).2 hbrace.symm

/-- From the text of a plain object the version is read. -/
lemma read_of_plain {members : List (List Json.Piece × Json)}
    (htext : Json.PaddedText (.object members) (.ofBytes content))
    (hplain : state.StandsPlainlyIn members) : read content = .ok state := by
  rw [read_of_not_blank (not_isBlankContent_of_object htext), Json.parse?_of_text htext,
    Option.bind_some, CommitState.ofJson?_of_plain hplain]

/-! ## Parts of what was written -/

/-- A byte of ASCII that is no closing brace or bracket. -/
def isOpenByte (b : UInt8) : Bool := b < 128 && b != 125 && b != 93

lemma ascii_of_isOpenByte {b : UInt8} (h : isOpenByte b = true) :
    b < 128 ∧ Char.ofNat b.toNat ≠ '\x7d' ∧ Char.ofNat b.toNat ≠ ']' := by
  have hall : ∀ n < 128, n ≠ 125 → n ≠ 93 → Char.ofNat n ≠ '\x7d' ∧ Char.ofNat n ≠ ']' := by decide
  simp only [isOpenByte, Bool.and_eq_true, decide_eq_true_eq, bne_iff_ne] at h
  obtain ⟨⟨hascii, hbrace⟩, hbracket⟩ := h
  refine ⟨hascii, hall b.toNat (by simpa [UInt8.lt_iff_toNat_lt] using hascii) ?_ ?_⟩
  · exact fun hsame => hbrace (UInt8.toNat_inj.mp hsame)
  · exact fun hsame => hbracket (UInt8.toNat_inj.mp hsame)

lemma all_isOpenByte_write (n : Int) :
    ((Json.Number.ofInt n).write.flatMap String.utf8EncodeChar).all isOpenByte = true := by
  have hdigit : ∀ d < 10, (String.utf8EncodeChar d.digitChar).all isOpenByte = true := by
    decide +kernel
  rw [List.all_flatMap, List.all_eq_true]
  intro c hc
  obtain ⟨-, rfl⟩ | hc : n < 0 ∧ c = '-' ∨ c ∈ Text.decimal n.natAbs := by
    simpa [Json.Number.write, Json.Number.ofInt] using hc
  · decide +kernel
  · obtain ⟨d, hd, rfl⟩ := Text.exists_digitChar (Text.isDigit_of_mem_decimal hc)
    exact hdigit d hd

/-- What is written for a state begins with a brace and closes at its end only. -/
lemma exists_write (state : CommitState) : ∃ inside : List UInt8,
    (write state).data.toList = 123 :: inside ++ [125] ∧ (123 :: inside).all isOpenByte = true := by
  have hcompact : state.toJson.compact =
      '\x7b' :: ("\"version\":".toList ++ (Json.Number.ofInt state.version.toInt).write) ++
      ['\x7d'] := by
    simp [CommitState.toJson, Json.ofMembers, Json.compact, Json.compactMembers, Json.writeString,
      Json.writePiece, Json.escape, Json.ofInt]
  have hname : ("\"version\":".toList.flatMap String.utf8EncodeChar).all isOpenByte = true := by
    decide +kernel
  refine ⟨("\"version\":".toList ++ (Json.Number.ofInt state.version.toInt).write).flatMap
    String.utf8EncodeChar, ?_, ?_⟩
  · rw [write, String.toUTF8, String.toByteArray_ofList, List.utf8Encode,
      List.data_toByteArray, hcompact, List.flatMap_append, List.flatMap_cons]
    rfl
  · rw [List.flatMap_append, List.all_cons, List.all_append, hname, all_isOpenByte_write]
    rfl

/-- A part of what was written for a state cannot be read, unless it is all or nothing of it. -/
lemma read_of_truncated (h : content ++ rest = write state) (hcontent : content ≠ .empty)
    (hrest : rest ≠ .empty) : read content = .error .unreadable := by
  obtain ⟨inside, hwrite, hopen⟩ := exists_write state
  have hne : content.data.toList ≠ [] := fun hnil => hcontent (ByteArray.ext (by simpa using hnil))
  have hne' : rest.data.toList ≠ [] := fun hnil => hrest (ByteArray.ext (by simpa using hnil))
  -- Something is missing at the end, so at least the closing brace is.
  have hpart : content.data.toList <+: 123 :: inside := by
    have hwhole : content.data.toList ++ rest.data.toList = 123 :: inside ++ [125] := by
      rw [← hwrite, ← h, ByteArray.data_append, Array.toList_append]
    refine (List.prefix_concat_iff.mp ⟨_, hwhole⟩).resolve_left fun hall => hne' ?_
    rwa [hall, List.append_right_eq_self] at hwhole
  have hbytes : ∀ b ∈ content.data, isOpenByte b = true := fun b hb =>
    List.all_eq_true.mp hopen b (hpart.subset (Array.mem_toList_iff.mpr hb))
  have hclosed : ∀ c : Char, some c ∈ Source.ofBytes content → c ≠ '\x7d' ∧ c ≠ ']' := by
    intro c hc
    obtain ⟨b, hb, rfl⟩ :=
      Source.mem_of_mem_ofBytes (fun b hb => (ascii_of_isOpenByte (hbytes b hb)).1) hc
    exact (ascii_of_isOpenByte (hbytes b hb)).2
  refine read_of_neither (fun hblank => ?_) fun state' hwritten => ?_
  · obtain ⟨b, more, hcons⟩ := List.exists_cons_of_ne_nil hne
    rw [hcons, List.cons_prefix_cons] at hpart
    have := hblank b (Array.mem_toList_iff.mp (by simp [hcons]))
    rw [hpart.1] at this
    cases this
  · obtain ⟨value, htext, htold⟩ := hwritten
    cases htold with
    | object => exact (hclosed _ htext.braces_mem.2).1 rfl
    | array => exact (hclosed _ htext.closingBracket_mem).2 rfl

/-! ## The state file -/

/-- What is read from a slot whose file has the given content. -/
structure Classifies (f : StateFile) (content : ByteArray) : Prop where
  /-- The slot is empty exactly when the content is nothing but white space. -/
  empty_iff : f.get = .error .empty ↔ IsBlankContent content
  /-- A version that is read is written in the content. -/
  written : ∀ state, f.get = .ok state → state.IsWrittenIn (.ofBytes content)
  /-- A version in a plain object is read, whatever the order and the white space. -/
  plain : ∀ state members, CommitState.StandsPlainlyIn state members →
    Json.PaddedText (.object members) (.ofBytes content) → f.get = .ok state
  /-- A content that is neither of these cannot be read. -/
  neither : ¬ IsBlankContent content →
    (∀ state : CommitState, ¬ state.IsWrittenIn (.ofBytes content)) → f.get = .error .unreadable
  /-- Nor can a part of what was written for a state, unless it is all or nothing of it. -/
  truncated : ∀ state rest, content ++ rest = write state → content ≠ .empty → rest ≠ .empty →
    f.get = .error .unreadable

/-- What a state file says is decided by its content: it is blank, or a version is written in it, or
it cannot be read.  The source of a text is its characters. -/
theorem get_classifies (hcontent : f.host.fileContent f.path = .ok content) :
    f.Classifies content := by
  have hget : f.get = read content := by rw [get, hcontent]
  exact ⟨hget ▸ read_eq_empty_iff, fun state h => isWrittenIn_of_read (hget ▸ h),
    fun state members hplain htext => hget ▸ read_of_plain htext hplain,
    fun hblank hnone => hget ▸ read_of_neither hblank hnone,
    fun state rest h hne hrest => hget ▸ read_of_truncated h hne hrest⟩

/-- A state file in which the version stands behind another member, with white space around
everything. -/
def spacedContent : ByteArray := "\n\x7b \"note\" : null , \"version\": -7\t\x7d ".toUTF8

/-- The slot in this file. -/
def spacedFile : StateFile := ⟨⟨.file "state.json" spacedContent .empty, []⟩, ⟨"state.json"⟩⟩

theorem spacedFile_classifies :
    spacedFile.host.fileContent spacedFile.path = .ok spacedContent ∧
      spacedFile.Classifies spacedContent ∧
      spacedFile.get = .ok ⟨-7⟩ :=
  have hcontent : spacedFile.host.fileContent spacedFile.path = .ok spacedContent := by
    decide +kernel
  ⟨hcontent, get_classifies hcontent, by decide +kernel⟩

end StateFile

end CommitStore
