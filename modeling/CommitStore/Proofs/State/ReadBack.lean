import CommitStore.State.Slot
import CommitStore.Proofs.Json.Printing

/-!
# What was written for a state is read back as that state

A state is written as a JSON object with one member, whose value is an integer.  The reader takes
what the printer writes, and what it finds under the one name is the integer of the state
(`StateFile.read_write`).
-/

namespace CommitStore

lemma CommitState.intWithin?_version (state : CommitState) :
    Json.intWithin? Int64.minValue.toInt Int64.maxValue.toInt (.ofInt state.version.toInt) =
      some state.version.toInt :=
  Json.intWithin?_eq_some_iff.mpr
    ⟨Json.int?_ofInt _, Int64.minValue_le_toInt _, Int64.toInt_le _⟩

namespace StateFile

/-- The brace at the beginning is no white space. -/
lemma not_blank_write (state : CommitState) : (write state).data.all Text.isBlankByte ≠ true := by
  intro hblank
  have hbrace : (123 : UInt8) ∈ (write state).data := by
    have hdata : (write state).data =
        (state.toJson.compact.flatMap String.utf8EncodeChar).toArray := by
      rw [write, String.toUTF8, String.toByteArray_ofList, List.utf8Encode, List.data_toByteArray]
    rw [hdata, List.mem_toArray, List.mem_flatMap]
    exact ⟨'\x7b', by simp [CommitState.toJson, Json.ofMembers, Json.compact], by decide⟩
  have := Array.all_eq_true_iff_forall_mem.mp hblank _ hbrace
  simp [Text.isBlankByte] at this

lemma exists_readBack_toJson (state : CommitState) :
    ∃ value, Json.ReadBack state.toJson value ∧ CommitState.ofJson? value = some state := by
  obtain ⟨pieces, hback, hnamed⟩ : ∃ pieces, Json.ReadBack state.toJson (.object pieces) ∧
      Json.namedMembers? pieces = some [("version", .ofInt state.version.toInt)] :=
    Json.namedMembers?_of_readBack (.cons ⟨rfl, .int _⟩ .nil)
  refine ⟨.object pieces, hback, ?_⟩
  have hfields : Json.fields? ["version"] (.object pieces) =
      some [some (.ofInt state.version.toInt)] := by
    simp [Json.fields?, hnamed, Json.single?]
  rw [CommitState.ofJson?, hfields]
  simp only [bind, Option.bind, state.intWithin?_version]
  rw [Int64.ofInt_toInt]
  rfl

theorem read_write (state : CommitState) : read (write state) = .ok state := by
  have hsource : Source.ofBytes (write state) = state.toJson.compact.map some := by
    rw [write, Source.ofBytes_toUTF8, Source.ofString, String.toList_ofList]
  obtain ⟨value, hback, hstate⟩ := exists_readBack_toJson state
  rw [read, if_neg (not_blank_write state), hsource, Json.parse?_compact hback, Option.bind_some,
    hstate]

end StateFile

end CommitStore
