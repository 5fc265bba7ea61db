import CommitStore.Command.Listing
import CommitStore.Proofs.Store.Description

/-!
# Listings as JSON

A listing in JSON is an array over several lines, with a line break behind it.  Its bytes say what
is listed and in which order: they are a text of one value and nothing else, and `Listing.read?`, a
reader of arrays of descriptions, finds in it the descriptions that were listed, whatever stands in
their locations.
-/

namespace CommitStore

namespace Listing

variable {entries : List ObjectMeta}

/-- The descriptions that the bytes of a JSON listing denote. -/
def read? (bytes : ByteArray) : Option (List ObjectMeta) :=
  (Json.parse? (.ofBytes bytes)).bind ofJson?

lemma exists_itemsBack (hsize : ∀ m ∈ entries, m.size < UInt64.size) :
    ∃ items, Json.ItemsBack (entries.map ObjectMeta.toJson) items ∧
      items.mapM ObjectMeta.ofJson? = some entries := by
  induction entries with
  | nil => exact ⟨[], .nil, rfl⟩
  | cons m entries ih =>
    obtain ⟨item, hback, hm⟩ := m.exists_readBack_toJson (hsize m List.mem_cons_self)
    obtain ⟨items, hmore, hentries⟩ := ih fun m hm => hsize m (List.mem_cons_of_mem _ hm)
    exact ⟨item :: items, .cons hback hmore, by simp [hm, hentries]⟩

lemma exists_valueText (hsize : ∀ m ∈ entries, m.size < UInt64.size) :
    ∃ value, Json.ValueText value ((Json.array (entries.map ObjectMeta.toJson)).pretty.map some) ∧
      ofJson? value = some entries := by
  obtain ⟨items, hback, hentries⟩ := exists_itemsBack hsize
  exact ⟨.array items, Json.valueText_pretty (.array hback) 0, hentries⟩

lemma read?_render (color : Bool) (hsize : ∀ m ∈ entries, m.size < UInt64.size) :
    read? (render .json color entries).toUTF8 = some entries := by
  obtain ⟨value, htext, hread⟩ := exists_valueText hsize
  -- The line break at the end is white space behind the value.
  have hline : Json.IsBlanks [some '\n'] := by simp [Json.IsBlanks, Json.isBlank]
  have hpadded := htext.padded .nil hline
  rw [read?, Source.ofBytes_toUTF8, render, Source.ofString, String.toList_ofList, List.map_append,
    List.map_singleton, Json.parse?_of_text (by simpa using hpadded), Option.bind_some, hread]

/-- The bytes of a JSON listing are UTF-8, they are the text of one value and a line break, with
colour or without, and they are read back as the descriptions that were listed. -/
theorem render_lossless (color : Bool) (hsize : ∀ m ∈ entries, m.size < UInt64.size) :
    (∃ value text, String.fromUTF8? (render .json color entries).toUTF8 =
        some (String.ofList (text ++ ['\n'])) ∧
      Json.ValueText value (text.map some) ∧ ofJson? value = some entries) ∧
    read? (render .json color entries).toUTF8 = some entries := by
  obtain ⟨value, htext, hread⟩ := exists_valueText hsize
  exact ⟨⟨value, _, Source.fromUTF8?_toUTF8 _, htext, hread⟩, read?_render color hsize⟩

/-- A directory whose name has a quotation mark, a line break and a control character in it, and an
object of the greatest size in a leap second. -/
def sampleOfOdd : List ObjectMeta :=
  [.ofDirectory (.ofText "a\"]\n\x01") .epoch,
    ⟨.ofText "é/b", 18446744073709551615, ⟨59, 1500000000, by decide⟩⟩]

theorem sampleOfOdd_lossless :
    (∀ m ∈ sampleOfOdd, m.size < UInt64.size) ∧
    (∃ value text, String.fromUTF8? (render .json true sampleOfOdd).toUTF8 =
        some (String.ofList (text ++ ['\n'])) ∧
      Json.ValueText value (text.map some) ∧ ofJson? value = some sampleOfOdd) ∧
    read? (render .json true sampleOfOdd).toUTF8 = some sampleOfOdd :=
  have hsize : ∀ m ∈ sampleOfOdd, m.size < UInt64.size := by decide +kernel
  ⟨hsize, render_lossless true hsize⟩

end Listing

end CommitStore
