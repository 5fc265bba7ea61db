import CommitStore.Config.Content
import CommitStore.Proofs.Json.MemberOrder

/-!
# Contents of objects

An object has a content when all its members have, and the contents under a name are then those of
the values under it (`Content.mapM_valuesOf`).  So a table gives for a setting what the object
gives: nothing for a name without values, the content of the only value, and a refusal where a name
is repeated.

This is used for objects with a tag.  The tag and settings that are texts are taken from wherever
they stand in the object (`Content.tagged?_of_standIn`), but no more than once.
-/

namespace CommitStore

namespace Content

variable {depth : Nat} {members : List (List Json.Piece × Json)}
  {contents : List (String × Content)} {content : Content} {name : String}

/-- A string that is a text has it as its content, at any depth. -/
lemma ofJson?_of_text? {value : Json} {text : String} (h : value.text? = some text) :
    ofJson? depth value = some (.text text) := by
  cases value with
  | string pieces =>
    obtain ⟨chars, hchars, rfl⟩ := Option.map_eq_some_iff.mp h
    rw [ofJson?, hchars, Option.map_some]
  | _ => cases h

lemma ofJson?_of_isPlain {value : Json} (h : value.IsPlain) : ofJson? depth value ≠ none := by
  cases h with
  | null => simp [ofJson?]
  | bool => simp [ofJson?]
  | text htext => simp [ofJson?_of_text? htext]

/-! ## The members of an object -/

lemma ofMembers?_cons (member : List Json.Piece × Json) (members : List (List Json.Piece × Json)) :
    ofMembers? depth (member :: members) = (Json.decode member.1).bind fun name =>
      (ofJson? depth member.2).bind fun content =>
        (ofMembers? depth members).map ((String.ofList name, content) :: ·) := by
  obtain ⟨key, value⟩ := member
  rw [ofMembers?]
  simp only [Option.bind_eq_bind, Option.pure_def, Option.map_eq_bind, Function.comp_def]

lemma exists_ofMembers?
    (h : ∀ member ∈ members, Json.decode member.1 ≠ none ∧ ofJson? depth member.2 ≠ none) :
    ∃ contents, ofMembers? depth members = some contents := by
  induction members with
  | nil => exact ⟨[], by rw [ofMembers?]⟩
  | cons member members ih =>
    obtain ⟨hname, hcontent⟩ := h member List.mem_cons_self
    obtain ⟨name, hname⟩ := Option.ne_none_iff_exists'.mp hname
    obtain ⟨content, hcontent⟩ := Option.ne_none_iff_exists'.mp hcontent
    obtain ⟨contents, hcontents⟩ :=
      ih fun member hmember => h member (List.mem_cons_of_mem _ hmember)
    exact ⟨_, by rw [ofMembers?_cons, hname, hcontent, hcontents]; rfl⟩

/-- The contents under a name are those of the values under it. -/
theorem mapM_valuesOf (h : ofMembers? depth members = some contents) (name : String) :
    (Json.valuesOf name members).mapM (ofJson? depth) =
      some ((contents.filter fun member => member.1 = name).map Prod.snd) := by
  induction members generalizing contents with
  | nil =>
    rw [ofMembers?] at h
    obtain rfl := Option.some.inj h
    rfl
  | cons member members ih =>
    rw [ofMembers?_cons] at h
    obtain ⟨key, hkey, h⟩ := Option.bind_eq_some_iff.mp h
    obtain ⟨content, hcontent, h⟩ := Option.bind_eq_some_iff.mp h
    obtain ⟨more, hmore, rfl⟩ := Option.map_eq_some_iff.mp h
    have hname : String.ofList key = name ↔ key = name.toList := by
      rw [← String.toList_inj, String.toList_ofList]
    rw [Json.valuesOf_cons]
    by_cases hsame : key = name.toList
    · simp [hkey, hsame, List.mapM_cons, hcontent, ih hmore]
    · simpa [hkey, hname, hsame] using ih hmore

/-- The only value under a name gives its content, and no value gives none. -/
lemma single?_of_valuesOf (h : ofMembers? depth members = some contents) {values : List Json}
    {content? : Option Content} (hvalues : Json.valuesOf name members = values)
    (hcontent : values.mapM (ofJson? depth) = some content?.toList) :
    Json.single? contents name = some content? := by
  rw [Json.single?_eq_some_iff]
  have hall := mapM_valuesOf h name
  rw [hvalues, hcontent] at hall
  exact (Option.some.inj hall).symm

lemma single?_eq_none (h : ofMembers? depth members = some contents)
    (hvalues : 2 ≤ (Json.valuesOf name members).length) : Json.single? contents name = none := by
  rw [Json.single?_eq_none_iff]
  rwa [← (Json.mapM_eq_some_iff.mp (mapM_valuesOf h name)).length_eq]

/-- The content of an object is the table of its members' contents. -/
lemma ofJson?_object_eq_some_iff {content : Content} :
    ofJson? depth (.object members) = some content ↔
    1 < depth ∧ ∃ contents, ofMembers? (depth - 1) members = some contents ∧
      table contents = content := by
  rw [ofJson?]
  split
  · exact iff_of_false (by simp) fun h => by omega
  · rw [Option.map_eq_some_iff]
    exact (and_iff_right (by omega)).symm

/-! ## Tagged tables -/

section Tagged

variable {tag kind : String} {settingsOf : String → Option (List String)} {names : List String}

/-- A tag that is repeated is refused. -/
lemma tagged?_of_repeated_tag (h : ofJson? depth (.object members) = some content)
    (hrepeated : 2 ≤ (Json.valuesOf tag members).length) :
    content.tagged? tag settingsOf = none := by
  obtain ⟨-, contents, hcontents, rfl⟩ := ofJson?_object_eq_some_iff.mp h
  simp [tagged?, single?_eq_none hcontents hrepeated]

/-- A setting that is repeated is refused, if it is one of the kind that the tag names. -/
lemma tagged?_of_repeated_setting (h : ofJson? depth (.object members) = some content)
    {value : Json} (hvalue : value ∈ Json.valuesOf tag members) (hkind : value.text? = some kind)
    (hnames : settingsOf kind = some names) (hname : name ∈ names)
    (hrepeated : 2 ≤ (Json.valuesOf name members).length) :
    content.tagged? tag settingsOf = none := by
  -- With two tags it is refused for the tag, so that there is only the one that names the kind.
  by_cases htag : 2 ≤ (Json.valuesOf tag members).length
  · exact tagged?_of_repeated_tag h htag
  obtain ⟨-, contents, hcontents, rfl⟩ := ofJson?_object_eq_some_iff.mp h
  obtain ⟨only, honly⟩ : ∃ only, Json.valuesOf tag members = [only] := by
    rw [← List.length_eq_one_iff]
    have := List.length_pos_of_mem hvalue
    omega
  rw [honly, List.mem_singleton] at hvalue
  have hsingle : Json.single? contents tag = some (some (.text kind)) :=
    single?_of_valuesOf hcontents honly (by simp [← hvalue, ofJson?_of_text? hkind])
  have hnone : names.mapM (Json.single? contents) = none :=
    Json.mapM_eq_none hname (single?_eq_none hcontents hrepeated)
  simp [tagged?, hsingle, text?, hnames, hnone]

end Tagged

/-! ## Settings that are texts -/

/-- Fields whose values have to be the given texts. -/
def sayings (settings : List (String × String)) : List (String × (Json → Prop)) :=
  settings.map fun setting => (setting.1, fun value => value.text? = some setting.2)

lemma map_fst_sayings (settings : List (String × String)) :
    (sayings settings).map Prod.fst = settings.map Prod.fst := by
  simp [sayings, Function.comp_def]

section Settings

variable {names : List String} {settings : List (String × String)}

/-- Plain members and settings that are texts have contents. -/
lemma exists_ofMembers?_of_standIn (depth : Nat)
    (h : Json.StandIn names (sayings settings) members) :
    ∃ contents, ofMembers? depth members = some contents := by
  refine exists_ofMembers? fun member hmember => ?_
  obtain ⟨hkey, ⟨field, hfield, htext⟩ | hplain⟩ := h.of_mem hmember
  · obtain ⟨setting, -, rfl⟩ := List.mem_map.mp hfield
    exact ⟨hkey, by simp [ofJson?_of_text? htext]⟩
  · exact ⟨hkey, ofJson?_of_isPlain hplain⟩

/-- For each name that is asked for, a table gives the text of the setting with that name. -/
lemma single?_of_standIn (h : Json.StandIn names (sayings settings) members)
    (hnodup : (settings.map Prod.fst).Nodup) (hcontents : ofMembers? depth members = some contents)
    (hname : name ∈ names) :
    Json.single? contents name = some ((settings.lookup name).map .text) := by
  rw [← map_fst_sayings] at hnodup
  cases hsetting : settings.lookup name with
  | none =>
    have habsent : name ∉ (sayings settings).map Prod.fst := by
      rw [List.lookup_eq_none_iff] at hsetting
      rw [map_fst_sayings, List.mem_map]
      rintro ⟨setting, hin, rfl⟩
      simpa using hsetting setting hin
    exact single?_of_valuesOf hcontents (h.valuesOf_eq_nil hname habsent) rfl
  | some text =>
    have hfield : (name, fun value : Json => value.text? = some text) ∈ sayings settings := by
      obtain ⟨before, behind, rfl, -⟩ := List.lookup_eq_some_iff.mp hsetting
      simp [sayings]
    obtain ⟨value, hvalue, htext⟩ := h.exists_value hnodup hfield hname
    exact single?_of_valuesOf hcontents hvalue (by simp [ofJson?_of_text? htext])

/-- A tag and settings that are texts are taken from wherever they stand in an object. -/
theorem tagged?_of_standIn {tag kind : String} {settingsOf : String → Option (List String)}
    (hdepth : 1 < depth)
    (h : Json.StandIn (tag :: names) (sayings ((tag, kind) :: settings)) members)
    (hnodup : (((tag, kind) :: settings).map Prod.fst).Nodup)
    (hnames : settingsOf kind = some names) :
    ∃ content, ofJson? depth (.object members) = some content ∧ content.tagged? tag settingsOf =
      some (kind, names.map fun name => (((tag, kind) :: settings).lookup name).map .text) := by
  obtain ⟨contents, hcontents⟩ := exists_ofMembers?_of_standIn (depth - 1) h
  have hsingle : ∀ name ∈ tag :: names, Json.single? contents name =
      some ((((tag, kind) :: settings).lookup name).map .text) :=
    fun name hname => single?_of_standIn h hnodup hcontents hname
  have hkind : Json.single? contents tag = some (some (.text kind)) := by
    simp [hsingle tag List.mem_cons_self]
  have hvalues : names.mapM (Json.single? contents) =
      some (names.map fun name => (((tag, kind) :: settings).lookup name).map .text) := by
    rw [Json.mapM_eq_some_iff, List.forall₂_map_right_iff, List.forall₂_same]
    exact fun name hname => hsingle name (List.mem_cons_of_mem _ hname)
  refine ⟨.table contents, ofJson?_object_eq_some_iff.mpr ⟨hdepth, contents, hcontents, rfl⟩, ?_⟩
  simp [tagged?, hkind, text?, hnames, hvalues]

lemma exists_standIn_sayings (settings : List (String × String)) (names : List String) :
    ∃ members,
      Json.ReadBack (.ofMembers (settings.map fun setting => (setting.1, .ofString setting.2)))
      (.object members) ∧ Json.StandIn names (sayings settings) members := by
  refine Json.exists_standIn ?_ names
  rw [sayings, List.forall₂_map_left_iff, List.forall₂_map_right_iff, List.forall₂_same]
  exact fun setting _ => ⟨rfl, _, Json.readBack_ofString _, Json.text?_reread _⟩

end Settings

end Content

end CommitStore
