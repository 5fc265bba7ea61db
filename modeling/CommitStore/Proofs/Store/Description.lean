import CommitStore.Store.ObjectMeta
import CommitStore.Proofs.Json.Printing
import CommitStore.Proofs.Location.Text
import CommitStore.Proofs.Time.Writing

/-!
# Descriptions as JSON

A description is read back from what is written for it, on one line or over several
(`ObjectMeta.read?_write`).  Conversely a text may say a description in many ways: its members may
stand in any order, with others between them, and its time may be spelled with another clock.
Values that differ in nothing else are related by `ObjectMeta.Variant`, texts by
`ObjectMeta.Respelled`, and they are read as one description.
-/

namespace CommitStore

namespace ObjectMeta

/-- The description that a JSON text denotes. -/
def read? (s : Source) : Option ObjectMeta := (Json.parse? s).bind ofJson?

/-- The JSON text of a description on one line. -/
def write (m : ObjectMeta) : Source := .ofString (String.ofList m.toJson.compact)

/-- The JSON text of a description over several lines. -/
def writePretty (m : ObjectMeta) : Source := .ofString (String.ofList m.toJson.pretty)

/-! ## What is taken from a value -/

/-- The names of the fields of a description. -/
abbrev fieldNames : List String := ["location", "size", "last_modified"]

/-- What a description is read from: the values of its three fields. -/
structure IsReadFrom (m : ObjectMeta) (location size time : Json) : Prop where
  location : Location.ofJson? location = some m.location
  size : size.intWithin? 0 (UInt64.size - 1 : Nat) = some (m.size : Int)
  time : ∃ text, time.text? = some text ∧ Instant.read? text.toList = some m.lastModified

lemma ofJson?_of_isReadFrom {m : ObjectMeta} {value location size time : Json}
    (hfields : value.fields? fieldNames = some [some location, some size, some time])
    (h : IsReadFrom m location size time) : ofJson? value = some m := by
  obtain ⟨hlocation, hsize, text, htext, htime⟩ := h
  rw [ofJson?, hfields]
  simp only [Option.bind_eq_bind, Option.bind_some, hlocation, hsize, htext, htime]
  rfl

lemma exists_isReadFrom {m : ObjectMeta} {value : Json} (h : ofJson? value = some m) :
    ∃ location size time, value.fields? fieldNames = some [some location, some size, some time] ∧
      IsReadFrom m location size time := by
  obtain ⟨fields, hfields, h⟩ := Option.bind_eq_some_iff.mp h
  split at h
  · rename_i location size time
    simp only [Option.bind_eq_bind, Option.bind_eq_some_iff, Option.pure_def,
      Option.some.injEq] at h
    obtain ⟨l, hlocation, n, hsize, text, htext, t, htime, rfl⟩ := h
    refine ⟨location, size, time, hfields, hlocation, ?_, text, htext, htime⟩
    have hbounds := (Json.intWithin?_eq_some_iff.mp hsize).2
    rwa [Int.toNat_of_nonneg hbounds.1]
  · cases h

/-! ## What is written is read back -/

lemma intWithin?_ofNat {n : Nat} (h : n < UInt64.size) :
    (Json.ofNat n).intWithin? 0 (UInt64.size - 1 : Nat) = some (n : Int) := by
  rw [Json.intWithin?_eq_some_iff, Json.ofNat_eq_ofInt, Json.int?_ofInt]
  exact ⟨rfl, by omega⟩

lemma exists_readBack_toJson (m : ObjectMeta) (hsize : m.size < UInt64.size) :
    ∃ value, Json.ReadBack m.toJson value ∧ ofJson? value = some m := by
  let location := Json.string (m.location.text.toList.map Json.rereadChar)
  let time := Json.string ((String.ofList m.lastModified.write).toList.map Json.rereadChar)
  obtain ⟨pieces, hback, hnamed⟩ : ∃ pieces, Json.ReadBack m.toJson (.object pieces) ∧
      Json.namedMembers? pieces =
        some [("location", location), ("size", .ofNat m.size), ("last_modified", time)] := by
    refine Json.namedMembers?_of_readBack (.cons ⟨rfl, ?_⟩ (.cons ⟨rfl, ?_⟩ (.cons ⟨rfl, ?_⟩ .nil)))
    · exact Json.readBack_ofString _
    · exact Json.readBack_ofNat _
    · exact Json.readBack_ofString _
  have hfields : (Json.object pieces).fields? fieldNames =
      some [some location, some (.ofNat m.size), some time] := by
    simp [Json.fields?, hnamed, Json.single?]
  refine ⟨.object pieces, hback, ofJson?_of_isReadFrom hfields ⟨?_, intWithin?_ofNat hsize, ?_⟩⟩
  · rw [Location.ofJson?, Json.text?_reread, Option.map_some, Location.ofText_text]
  · exact ⟨_, Json.text?_reread _, by rw [String.toList_ofList, TimeText.read?_write]⟩

lemma read?_write {m : ObjectMeta} (hsize : m.size < UInt64.size) :
    read? m.write = some m ∧ read? m.writePretty = some m := by
  obtain ⟨value, hback, hm⟩ := exists_readBack_toJson m hsize
  constructor
  · rw [read?, write, Source.ofString, String.toList_ofList, Json.parse?_compact hback,
      Option.bind_some, hm]
  · rw [read?, writePretty, Source.ofString, String.toList_ofList, Json.parse?_pretty hback,
      Option.bind_some, hm]

/-! ## What is read can be written again -/

lemma size_lt_of_read? {m : ObjectMeta} {s : Source} (h : read? s = some m) :
    m.size < UInt64.size := by
  obtain ⟨value, -, hvalue⟩ := Option.bind_eq_some_iff.mp h
  obtain ⟨location, size, time, -, hread⟩ := exists_isReadFrom hvalue
  have hbounds := (Json.intWithin?_eq_some_iff.mp hread.size).2
  have hpositive : 0 < UInt64.size := by decide
  omega

/-! ## Variants -/

/-- Two JSON strings that spell the same time. -/
def SameTime (time time' : Json) : Prop :=
  ∃ text text' : String, time.text? = some text ∧ time'.text? = some text' ∧
    TimeText.SameInstant text.toList text'.toList

/-- Two members that are the same, or that are the time, spelled in two ways. -/
inductive SameMember : List Json.Piece × Json → List Json.Piece × Json → Prop
  | same (member : List Json.Piece × Json) : SameMember member member
  | time {key : List Json.Piece} {time time' : Json}
      (hkey : Json.decode key = some "last_modified".toList) (h : SameTime time time') :
      SameMember (key, time) (key, time')

/-- A member that is not the location, the size or the time. -/
def IsForeign (member : List Json.Piece × Json) : Prop :=
  ∀ name ∈ fieldNames, Json.decode member.1 ≠ some name.toList

/-- Two JSON values that differ only in the order of their members, in members that are not asked
for, and in how the time is spelled. -/
inductive Variant : Json → Json → Prop
  | object {members members' kept kept' foreign foreign' : List (List Json.Piece × Json)}
      (hmembers : members.Perm (kept ++ foreign)) (hmembers' : members'.Perm (kept' ++ foreign'))
      (hkept : List.Forall₂ SameMember kept kept') (hforeign : ∀ member ∈ foreign, IsForeign member)
      (hforeign' : ∀ member ∈ foreign', IsForeign member) :
      Variant (.object members) (.object members')
  | array {location size time time' : Json} (h : SameTime time time') :
      Variant (.array [location, size, time]) (.array [location, size, time'])

/-- The same location and size, and the same time or two spellings of it, denote one description. -/
lemma eq_of_isReadFrom {m m' : ObjectMeta} {location size time time' : Json}
    (h : IsReadFrom m location size time) (h' : IsReadFrom m' location size time')
    (htime : time = time' ∨ SameTime time time') : m = m' := by
  obtain ⟨text, htext, hread⟩ := h.time
  obtain ⟨text', htext', hread'⟩ := h'.time
  have hlocation : m.location = m'.location :=
    Option.some.inj (h.location.symm.trans h'.location)
  have hsize : m.size = m'.size :=
    Int.ofNat.inj (Option.some.inj (h.size.symm.trans h'.size))
  have hinstant : m.lastModified = m'.lastModified := by
    rcases htime with rfl | ⟨s, s', hs, hs', hsame⟩
    · obtain rfl : text = text' := Option.some.inj (htext.symm.trans htext')
      exact Option.some.inj (hread.symm.trans hread')
    · obtain rfl : s = text := Option.some.inj (hs.symm.trans htext)
      obtain rfl : s' = text' := Option.some.inj (hs'.symm.trans htext')
      exact TimeText.eq_of_sameInstant hsame hread hread'
  exact ObjectMeta.ext hlocation hsize hinstant

lemma valuesOf_kept {members kept foreign : List (List Json.Piece × Json)} {name : String}
    {value : Json} (hmembers : members.Perm (kept ++ foreign))
    (hforeign : ∀ member ∈ foreign, IsForeign member)
    (hname : name ∈ fieldNames) (h : Json.valuesOf name members = [value]) :
    Json.valuesOf name kept = [value] := by
  have hvalues := Json.valuesOf_perm_of_unnamed hmembers
    fun member hmember => hforeign member hmember name hname
  rw [h] at hvalues
  exact List.perm_singleton.mp hvalues.symm

/-- Corresponding members give the same values, but for two spellings of the time. -/
lemma forall₂_valuesOf {kept kept' : List (List Json.Piece × Json)} (name : String)
    (h : List.Forall₂ SameMember kept kept') :
    List.Forall₂
      (fun value value' => value = value' ∨ name = "last_modified" ∧ SameTime value value')
      (Json.valuesOf name kept) (Json.valuesOf name kept') := by
  induction h with
  | nil => exact .nil
  | cons hmember _ ih =>
    rw [Json.valuesOf_cons, Json.valuesOf_cons]
    cases hmember with
    | same member =>
      split
      · exact .cons (.inl rfl) ih
      · exact ih
    | time hkey h =>
      split
      · rename_i hname
        have hlast : name = "last_modified" := by
          rw [← String.toList_inj]
          exact (Option.some.inj (hkey.symm.trans hname)).symm
        exact .cons (.inr ⟨hlast, h⟩) ih
      · exact ih

/-- Each field has one value in both of two variants, or two spellings of the time. -/
lemma value_of_variant {members members' : List (List Json.Piece × Json)} {name : String}
    {value value' : Json} (h : Variant (.object members) (.object members'))
    (hname : name ∈ fieldNames) (hvalue : Json.valuesOf name members = [value])
    (hvalue' : Json.valuesOf name members' = [value']) :
    value = value' ∨ name = "last_modified" ∧ SameTime value value' := by
  cases h with
  | object hmembers hmembers' hkept hforeign hforeign' =>
    have hvalues := forall₂_valuesOf name hkept
    rw [valuesOf_kept hmembers hforeign hname hvalue,
      valuesOf_kept hmembers' hforeign' hname hvalue'] at hvalues
    exact (List.forall₂_cons.mp hvalues).1

lemma fields_of_variant {value value' location location' size size' time time' : Json}
    (h : Variant value value')
    (hfields : value.fields? fieldNames = some [some location, some size, some time])
    (hfields' : value'.fields? fieldNames = some [some location', some size', some time']) :
    location = location' ∧ size = size' ∧ (time = time' ∨ SameTime time time') := by
  cases h with
  | object hmembers hmembers' hkept hforeign hforeign' =>
    have h := Variant.object hmembers hmembers' hkept hforeign hforeign'
    obtain ⟨hl, hs, ht⟩ : _ ∧ _ ∧ _ := by simpa using Json.valuesOf_of_fields? hfields
    obtain ⟨hl', hs', ht'⟩ : _ ∧ _ ∧ _ := by simpa using Json.valuesOf_of_fields? hfields'
    have hlocation := value_of_variant h (by simp) hl hl'
    have hsize := value_of_variant h (by simp) hs hs'
    have htime := value_of_variant h (by simp) ht ht'
    exact ⟨by simpa using hlocation, by simpa using hsize, by simpa using htime⟩
  | array hsame =>
    simp only [Json.fields?, Json.fillFields, Option.map_some, Option.some.injEq, List.cons.injEq,
      and_true] at hfields hfields'
    obtain ⟨rfl, rfl, rfl⟩ := hfields
    obtain ⟨rfl, rfl, rfl⟩ := hfields'
    exact ⟨rfl, rfl, .inr hsame⟩

theorem eq_of_variant {value value' : Json} {m m' : ObjectMeta} (h : Variant value value')
    (hm : ofJson? value = some m) (hm' : ofJson? value' = some m') : m = m' := by
  obtain ⟨l, s, t, hfields, hread⟩ := exists_isReadFrom hm
  obtain ⟨l', s', t', hfields', hread'⟩ := exists_isReadFrom hm'
  obtain ⟨rfl, rfl, htime⟩ := fields_of_variant h hfields hfields'
  exact eq_of_isReadFrom hread hread' htime

/-! ## Texts -/

/-- Two texts of JSON values that differ only in the order of their members, in members that are not
asked for, and in how the time is spelled. -/
def Respelled (s s' : Source) : Prop :=
  ∃ value value', Json.parse? s = some value ∧ Json.parse? s' = some value' ∧ Variant value value'

lemma read?_eq_of_respelled {s s' : Source} {m : ObjectMeta} (hm : read? s = some m)
    (haccepted : (read? s').isSome) (h : Respelled s s') : read? s' = some m := by
  obtain ⟨m', hm'⟩ := Option.isSome_iff_exists.mp haccepted
  obtain ⟨value, value', hvalue, hvalue', hvariant⟩ := h
  have hread := hm
  have hread' := hm'
  rw [read?, hvalue, Option.bind_some] at hread
  rw [read?, hvalue', Option.bind_some] at hread'
  rw [hm', eq_of_variant hvariant hread hread']

/-- A description whose size has 64 bits is read back from what is written for it.  One that was
read from a text is such a description.  And an accepted text that differs from another only in the
order of its members, in members that are not asked for and in how the time is spelled denotes the
same. -/
theorem survives_json :
    (∀ m : ObjectMeta, m.size < UInt64.size →
      read? m.write = some m ∧ read? m.writePretty = some m) ∧
    (∀ (s : Source) (m : ObjectMeta), read? s = some m →
      read? m.write = some m ∧ read? m.writePretty = some m) ∧
    ∀ (s s' : Source) (m : ObjectMeta), read? s = some m → (read? s').isSome → Respelled s s' →
      read? s' = some m :=
  ⟨fun _ hsize => read?_write hsize, fun _ _ hm => read?_write (size_lt_of_read? hm),
    fun _ _ _ hm haccepted h => read?_eq_of_respelled hm haccepted h⟩

/-! ### A sample -/

/-- An object of one byte, written at the start of 1970. -/
def sample : ObjectMeta := ⟨.ofText "a", 1, .epoch⟩

/-- The sample on one line. -/
def sampleText : Source := .ofString
  "\x7b\"location\":\"a\",\"size\":1,\"last_modified\":\"1970-01-01T00:00:00Z\"\x7d"

/-- The sample in another order, with another member, and with a clock two hours ahead. -/
def respelledText : Source := .ofString
  ("\x7b\"x\":null,\"last_modified\":\"1970-01-01t02:00:00.000+02:00\"," ++
    "\"size\":1,\"location\":\"a\"\x7d")

/-- A string of a printed text, as it is read back. -/
def reread (text : String) : Json := .string (text.toList.map Json.rereadChar)

/-- A member of a printed object, as it is read back. -/
def member (name : String) (value : Json) : List Json.Piece × Json :=
  (name.toList.map Json.rereadChar, value)

lemma sameInstant_sample :
    TimeText.SameInstant "1970-01-01T00:00:00Z".toList "1970-01-01t02:00:00.000+02:00".toList := by
  have hutc : TimeText.Spells ⟨⟨1970, 1, 1⟩, 0, 0, 0, [], 0⟩ _ :=
    TimeText.spells_shown (by decide) (by decide) (by decide) (by decide) (by decide) (.inl rfl)
      .absent (.letter (.inl rfl))
  have hspan := TimeText.spanText_colon (show 2 < 100 by decide) (show 0 ≤ 59 by decide)
  have hahead : TimeText.Spells ⟨⟨1970, 1, 1⟩, 2, 0, 0, ['0', '0', '0'], 7200⟩ _ :=
    TimeText.spells_shown (by decide) (by decide) (by decide) (by decide) (by decide)
      (.inr (.inl rfl)) (.present ⟨by simp, by simp⟩) (.ahead hspan)
  have hagrees : TimeText.Parts.Agrees ⟨⟨1970, 1, 1⟩, 0, 0, 0, [], 0⟩
      ⟨⟨1970, 1, 1⟩, 2, 0, 0, ['0', '0', '0'], 7200⟩ :=
    ⟨by decide +kernel, by decide +kernel, 3, 0, rfl⟩
  refine ⟨_, _, ?_, ?_, hagrees⟩
  · convert hutc using 1
    decide +kernel
  · convert hahead using 1
    decide +kernel

lemma respelled_sample : Respelled sampleText respelledText := by
  let location := member "location" (reread "a")
  let size := member "size" (.ofNat 1)
  let time := member "last_modified" (reread "1970-01-01T00:00:00Z")
  let time' := member "last_modified" (reread "1970-01-01t02:00:00.000+02:00")
  let foreign := member "x" .null
  have hback : Json.ReadBack (.ofMembers [("location", .ofString "a"), ("size", .ofNat 1),
      ("last_modified", .ofString "1970-01-01T00:00:00Z")]) (.object [location, size, time]) :=
    .object (.cons _ (Json.readBack_ofString _) (.cons _ (Json.readBack_ofNat 1)
      (.cons _ (Json.readBack_ofString _) .nil)))
  have hback' : Json.ReadBack (.ofMembers [("x", .null),
      ("last_modified", .ofString "1970-01-01t02:00:00.000+02:00"), ("size", .ofNat 1),
      ("location", .ofString "a")]) (.object [foreign, time', size, location]) :=
    .object (.cons _ .null (.cons _ (Json.readBack_ofString _) (.cons _ (Json.readBack_ofNat 1)
      (.cons _ (Json.readBack_ofString _) .nil))))
  have hvalue : Json.parse? sampleText = some (.object [location, size, time]) := by
    convert Json.parse?_compact hback using 2
    decide +kernel
  have hvalue' : Json.parse? respelledText = some (.object [foreign, time', size, location]) := by
    convert Json.parse?_compact hback' using 2
    decide +kernel
  have htime : SameMember time time' :=
    .time (Json.decode_reread _)
      ⟨_, _, Json.text?_reread _, Json.text?_reread _, sameInstant_sample⟩
  have hforeign : ∀ m ∈ [foreign], IsForeign m := by
    simp only [List.mem_singleton, IsForeign]
    rintro m rfl name hname
    rw [show Json.decode foreign.1 = some _ from Json.decode_reread _]
    revert name
    decide +kernel
  exact ⟨_, _, hvalue, hvalue', .object (.refl _) (List.reverse_perm _).symm
    (.cons (.same _) (.cons (.same _) (.cons htime .nil))) (by simp) hforeign⟩

theorem sample_survives_json :
    (sample.size < UInt64.size ∧ read? sample.write = some sample) ∧
    (read? sampleText = some sample ∧ read? sample.writePretty = some sample) ∧
    Respelled sampleText respelledText ∧ read? respelledText = some sample := by
  have hsize : sample.size < UInt64.size := by decide
  have hread : read? sampleText = some sample := by decide +kernel
  obtain ⟨hwritten, hread', hrespelled⟩ := survives_json
  exact ⟨⟨hsize, (hwritten _ hsize).1⟩, ⟨hread, (hread' _ _ hread).2⟩, respelled_sample,
    hrespelled _ _ _ hread (by decide +kernel) respelled_sample⟩

end ObjectMeta

end CommitStore
