import CommitStore.Proofs.Json.Printing

/-!
# Objects whose members stand in any order

The members of an object may come in any order, with others between them that say nothing, the ones
with `Json.IsIdle`.  `Json.StandIn` is such an object.  Under the name of each field there is then
exactly one value, the one that was put there, and under every other name that is asked for there is
none.  The members of a printed object stand in what is read back (`Json.exists_standIn`).
-/

namespace CommitStore

namespace Json

/-- A string that is a text, a truth value or null. -/
inductive IsPlain : Json → Prop
  | null : IsPlain .null
  | bool (b : Bool) : IsPlain (.bool b)
  | text {value : Json} {text : String} (h : value.text? = some text) : IsPlain value

/-- A member with a plain value under none of the names. -/
def IsIdle (names : List String) (member : List Piece × Json) : Prop :=
  ∃ name ∉ names, decode member.1 = some name.toList ∧ IsPlain member.2

/-- A field, given by its name and by what its value has to be, and a member that fills it. -/
def Fills (field : String × (Json → Prop)) (member : List Piece × Json) : Prop :=
  decode member.1 = some field.1.toList ∧ field.2 member.2

/-- The members are one for each field, and idle ones for those who ask for the names, in any
order. -/
def StandIn (names : List String) (fields : List (String × (Json → Prop)))
    (members : List (List Piece × Json)) : Prop :=
  ∃ own idle, members.Perm (own ++ idle) ∧ List.Forall₂ Fills fields own ∧
    ∀ member ∈ idle, IsIdle names member

variable {names : List String} {name : String} {field : String × (Json → Prop)}
  {fields : List (String × (Json → Prop))} {member : List Piece × Json}
  {own members : List (List Piece × Json)}

lemma IsIdle.decode_ne (h : IsIdle names member) (hname : name ∈ names) :
    decode member.1 ≠ some name.toList := by
  obtain ⟨other, hother, hkey, -⟩ := h
  rw [hkey, ne_eq, Option.some.injEq, String.toList_inj]
  rintro rfl
  exact hother hname

/-! ## Members that fill fields -/

lemma Fills.decode_eq_iff (h : Fills field member) :
    decode member.1 = some name.toList ↔ field.1 = name := by
  rw [h.1, Option.some.injEq, String.toList_inj]

lemma exists_field_of_mem (h : List.Forall₂ Fills fields own) (hmember : member ∈ own) :
    ∃ field ∈ fields, Fills field member := by
  induction h with
  | nil => cases hmember
  | cons hfirst _ ih =>
    rcases List.mem_cons.mp hmember with rfl | hmore
    · exact ⟨_, List.mem_cons_self, hfirst⟩
    · obtain ⟨field, hfield, hfills⟩ := ih hmore
      exact ⟨field, List.mem_cons_of_mem _ hfield, hfills⟩

lemma valuesOf_of_no_field (h : List.Forall₂ Fills fields own)
    (hname : name ∉ fields.map Prod.fst) : valuesOf name own = [] := by
  refine valuesOf_of_unnamed fun member hmember hkey => ?_
  obtain ⟨field, hfield, hfills⟩ := exists_field_of_mem h hmember
  exact hname (List.mem_map.mpr ⟨field, hfield, hfills.decode_eq_iff.mp hkey⟩)

lemma exists_value_of_field (h : List.Forall₂ Fills fields own)
    (hnodup : (fields.map Prod.fst).Nodup) (hfield : field ∈ fields) :
    ∃ value, valuesOf field.1 own = [value] ∧ field.2 value := by
  induction h with
  | nil => cases hfield
  | @cons first member fields own hfirst hmore ih =>
    rw [List.map_cons, List.nodup_cons] at hnodup
    rw [valuesOf_cons]
    rcases List.mem_cons.mp hfield with rfl | hin
    · rw [if_pos hfirst.1, valuesOf_of_no_field hmore hnodup.1]
      exact ⟨member.2, rfl, hfirst.2⟩
    · have hother : first.1 ≠ field.1 := fun hsame =>
        hnodup.1 (hsame ▸ List.mem_map_of_mem hin)
      rw [if_neg (mt hfirst.decode_eq_iff.mp hother)]
      exact ih hnodup.2 hin

/-! ## The values under the names that are asked for -/

namespace StandIn

/-- Under the name of a field there is one value, and it is as it has to be. -/
theorem exists_value (h : StandIn names fields members) (hnodup : (fields.map Prod.fst).Nodup)
    (hfield : field ∈ fields) (hname : field.1 ∈ names) :
    ∃ value, valuesOf field.1 members = [value] ∧ field.2 value := by
  obtain ⟨own, idle, hperm, hown, hidle⟩ := h
  obtain ⟨value, hvalue, hholds⟩ := exists_value_of_field hown hnodup hfield
  refine ⟨value, ?_, hholds⟩
  rw [← List.perm_singleton, ← hvalue]
  exact valuesOf_perm_of_unnamed hperm fun member hmember => (hidle member hmember).decode_ne hname

/-- Under every other name that is asked for there is no value. -/
theorem valuesOf_eq_nil (h : StandIn names fields members) (hname : name ∈ names)
    (habsent : name ∉ fields.map Prod.fst) : valuesOf name members = [] := by
  obtain ⟨own, idle, hperm, hown, hidle⟩ := h
  rw [← List.perm_nil, ← valuesOf_of_no_field hown habsent]
  exact valuesOf_perm_of_unnamed hperm fun member hmember => (hidle member hmember).decode_ne hname

/-- Every member has a name, and it fills a field or is plain. -/
lemma of_mem (h : StandIn names fields members) (hmember : member ∈ members) :
    decode member.1 ≠ none ∧ ((∃ field ∈ fields, field.2 member.2) ∨ IsPlain member.2) := by
  obtain ⟨own, idle, hperm, hown, hidle⟩ := h
  rcases List.mem_append.mp (hperm.subset hmember) with hin | hin
  · obtain ⟨field, hfield, hkey, hholds⟩ := exists_field_of_mem hown hin
    exact ⟨by simp [hkey], .inl ⟨field, hfield, hholds⟩⟩
  · obtain ⟨_, -, hkey, hplain⟩ := hidle member hin
    exact ⟨by simp [hkey], .inr hplain⟩

end StandIn

/-! ## Printed objects -/

/-- When the members of an object have the names of fields, and their values come back as they have
to be, then the object comes back with members that fill the fields. -/
theorem exists_standIn {printed : List (String × Json)}
    (h : List.Forall₂ (fun field m => field.1 = m.1 ∧ ∃ value, ReadBack m.2 value ∧ field.2 value)
      fields printed) (names : List String) :
    ∃ members, ReadBack (ofMembers printed) (.object members) ∧ StandIn names fields members := by
  suffices hback : ∃ members,
      MembersBack (printed.map fun m => (m.1.toList.map .char, m.2)) members ∧
      List.Forall₂ Fills fields members by
    obtain ⟨members, hmembers, hfills⟩ := hback
    exact ⟨members, .object hmembers, members, [], by rw [List.append_nil], hfills, by simp⟩
  induction h with
  | nil => exact ⟨[], .nil, .nil⟩
  | @cons field m _ _ hfirst _ ih =>
    obtain ⟨hname, value, hvalue, hholds⟩ := hfirst
    obtain ⟨members, hmembers, hfills⟩ := ih
    refine ⟨(m.1.toList.map rereadChar, value) :: members, .cons _ hvalue hmembers,
      .cons ⟨?_, hholds⟩ hfills⟩
    rw [decode_reread, hname]

end Json

end CommitStore
