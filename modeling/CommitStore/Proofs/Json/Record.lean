import CommitStore.Json.Record
import Mathlib.Data.List.Forall2

/-!
# What a record takes from an object

A record takes from an object, for each of its fields, the only value under the name of the field.
With `Json.valuesOf` for all values under a name, this says that there is no more than one
(`Json.valuesOf_of_fields?`), and that it is taken as soon as all members have names
(`Json.fields?_of_valuesOf`).  So a record does not depend on the order of the members, and not on
members under other names.
-/

namespace CommitStore

namespace Json

lemma decode_chars (chars : List Char) : decode (chars.map .char) = some chars := by
  induction chars with
  | nil => rfl
  | cons c chars ih => rw [List.map_cons, decode, ih, Option.map_some]

/-- The values of the members called `name`, in their order. -/
def valuesOf (name : String) (members : List (List Piece × Json)) : List Json :=
  members.filterMap fun member => if decode member.1 = some name.toList then some member.2 else none

lemma valuesOf_cons (name : String) (member : List Piece × Json)
    (members : List (List Piece × Json)) : valuesOf name (member :: members) =
      if decode member.1 = some name.toList then member.2 :: valuesOf name members
      else valuesOf name members := by
  by_cases hname : decode member.1 = some name.toList <;> simp [valuesOf, hname]

lemma valuesOf_perm (name : String) {members members' : List (List Piece × Json)}
    (h : members.Perm members') : (valuesOf name members).Perm (valuesOf name members') :=
  h.filterMap _

lemma valuesOf_append (name : String) (members members' : List (List Piece × Json)) :
    valuesOf name (members ++ members') = valuesOf name members ++ valuesOf name members' :=
  List.filterMap_append

lemma valuesOf_of_unnamed {name : String} {members : List (List Piece × Json)}
    (h : ∀ member ∈ members, decode member.1 ≠ some name.toList) : valuesOf name members = [] :=
  List.filterMap_eq_nil_iff.mpr fun member hmember => if_neg (h member hmember)

/-- Members under other names do not matter. -/
lemma valuesOf_perm_of_unnamed {name : String} {members own beside : List (List Piece × Json)}
    (h : members.Perm (own ++ beside))
    (hbeside : ∀ member ∈ beside, decode member.1 ≠ some name.toList) :
    (valuesOf name members).Perm (valuesOf name own) := by
  have hvalues := valuesOf_perm name h
  rwa [valuesOf_append, valuesOf_of_unnamed hbeside, List.append_nil] at hvalues

lemma namedMembers?_cons (member : List Piece × Json) (members : List (List Piece × Json)) :
    namedMembers? (member :: members) = (decode member.1).bind fun name =>
      (namedMembers? members).map ((String.ofList name, member.2) :: ·) := by
  cases hname : decode member.1 <;> cases hmore : namedMembers? members <;>
    rw [namedMembers?] at hmore ⊢ <;> simp [List.mapM_cons, hname, hmore]

lemma map_filter_namedMembers? {members : List (List Piece × Json)} {named : List (String × Json)}
    (h : namedMembers? members = some named) (name : String) :
    (named.filter fun member => member.1 = name).map Prod.snd = valuesOf name members := by
  induction members generalizing named with
  | nil =>
    obtain rfl : [] = named := Option.some.inj h
    rfl
  | cons member members ih =>
    rw [namedMembers?_cons, Option.bind_eq_some_iff] at h
    obtain ⟨key, hkey, h⟩ := h
    obtain ⟨more, hmore, rfl⟩ := Option.map_eq_some_iff.mp h
    have hname : String.ofList key = name ↔ key = name.toList := by
      rw [← String.toList_inj, String.toList_ofList]
    rw [valuesOf_cons, ← ih hmore]
    by_cases hsame : key = name.toList <;> simp [hkey, hname, hsame]

/-! ## The only value under a name -/

section Single

variable {α : Type} {named : List (String × α)} {name : String}

lemma single?_eq_some_iff {value : Option α} : single? named name = some value ↔
    (named.filter fun member => member.1 = name).map Prod.snd = value.toList := by
  rw [single?]
  generalize named.filter (fun member => member.1 = name) = found
  rcases found with _ | ⟨first, _ | ⟨second, more⟩⟩ <;> cases value <;> simp

lemma single?_eq_none_iff : single? named name = none ↔
    2 ≤ ((named.filter fun member => member.1 = name).map Prod.snd).length := by
  rw [single?]
  generalize named.filter (fun member => member.1 = name) = found
  rcases found with _ | ⟨first, _ | ⟨second, more⟩⟩ <;> simp

end Single

/-- The only value of a field, or none when there is none. -/
lemma valuesOf_of_single? {members : List (List Piece × Json)} {named : List (String × Json)}
    {name : String} {value : Option Json} (h : namedMembers? members = some named)
    (hsingle : single? named name = some value) : valuesOf name members = value.toList := by
  rw [← map_filter_namedMembers? h, single?_eq_some_iff.mp hsingle]

lemma exists_namedMembers? {members : List (List Piece × Json)}
    (h : ∀ member ∈ members, decode member.1 ≠ none) :
    ∃ named, namedMembers? members = some named := by
  induction members with
  | nil => exact ⟨[], rfl⟩
  | cons member members ih =>
    obtain ⟨name, hname⟩ := Option.ne_none_iff_exists'.mp (h member List.mem_cons_self)
    obtain ⟨named, hnamed⟩ := ih fun member hmember => h member (List.mem_cons_of_mem _ hmember)
    exact ⟨_, by rw [namedMembers?_cons, hname, hnamed]; rfl⟩

/-! ## The fields of a record -/

lemma mapM_eq_some_iff {α β : Type} {f : α → Option β} {items : List α} {results : List β} :
    items.mapM f = some results ↔ List.Forall₂ (fun a b => f a = some b) items results := by
  induction items generalizing results with
  | nil => simp [List.forall₂_nil_left_iff, eq_comm]
  | cons item items ih =>
    simp only [List.mapM_cons, Option.bind_eq_bind, Option.bind_eq_some_iff, Option.pure_def,
      Option.some.injEq, List.forall₂_cons_left_iff]
    constructor
    · rintro ⟨result, hresult, more, hmore, rfl⟩
      exact ⟨result, more, hresult, ih.mp hmore, rfl⟩
    · rintro ⟨result, more, hresult, hmore, rfl⟩
      exact ⟨result, hresult, more, ih.mpr hmore, rfl⟩

lemma mapM_eq_none {α β : Type} {f : α → Option β} {items : List α} {item : α}
    (hitem : item ∈ items) (h : f item = none) : items.mapM f = none := by
  induction items with
  | nil => cases hitem
  | cons first items ih =>
    rw [List.mapM_cons]
    rcases List.mem_cons.mp hitem with rfl | hmore
    · rw [h]
      rfl
    · rw [ih hmore]
      cases f first <;> rfl

/-- Where all members have names, the only value under the name of a field is taken for it. -/
lemma fields?_of_valuesOf {members : List (List Piece × Json)} {names : List String}
    {values : List (Option Json)} (hnames : ∀ member ∈ members, decode member.1 ≠ none)
    (hvalues : List.Forall₂ (fun name value => valuesOf name members = value.toList) names values) :
    fields? names (.object members) = some values := by
  obtain ⟨named, hnamed⟩ := exists_namedMembers? hnames
  refine Option.bind_eq_some_iff.mpr ⟨named, hnamed, mapM_eq_some_iff.mpr (hvalues.imp ?_)⟩
  intro name value hvalue
  rw [single?_eq_some_iff, map_filter_namedMembers? hnamed, hvalue]

/-- What a record takes for each field from an object is the only value under the name of the
field. -/
theorem valuesOf_of_fields? {names : List String} {members : List (List Piece × Json)}
    {values : List (Option Json)} (h : fields? names (.object members) = some values) :
    List.Forall₂ (fun name value => valuesOf name members = value.toList) names values := by
  obtain ⟨named, hnamed, hvalues⟩ := Option.bind_eq_some_iff.mp h
  exact (mapM_eq_some_iff.mp hvalues).imp fun _ _ hsingle => valuesOf_of_single? hnamed hsingle

lemma intWithin?_eq_some_iff {low high n : Int} {value : Json} :
    value.intWithin? low high = some n ↔ value.int? = some n ∧ low ≤ n ∧ n ≤ high := by
  rw [intWithin?, Option.bind_eq_bind, Option.bind_eq_some_iff]
  constructor
  · rintro ⟨k, hk, h⟩
    split at h
    · rename_i hbounds
      obtain rfl := Option.some.inj h
      exact ⟨hk, hbounds⟩
    · cases h
  · rintro ⟨hn, hbounds⟩
    exact ⟨n, hn, if_pos hbounds⟩

end Json

end CommitStore
