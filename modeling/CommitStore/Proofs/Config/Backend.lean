import CommitStore.Config.Backend
import CommitStore.Proofs.Config.Content

/-!
# Configurations as JSON

A configuration is read back from what is written for it, on one line or over several.  Conversely
an object may tell a configuration in many ways, which is what `IsToldBy` says for each kind of
configuration: its members may stand in any order, the backend behind the settings that it governs,
with idle members between them, and the strategy that is taken by default may be left out.  What may
not happen is that the backend or the root is told twice, which is `Repeats`.

`SurvivesJson` is what all kinds have in common.  For each of them it is enough to show that the
decoder takes what is told and refuses what repeats itself, and that what is written is told.
-/

namespace CommitStore

open Content (sayings)

variable {depth : Nat} {value : Json}

/-! ## Where objects are kept -/

lemma ClaimStrategy.ofName?_name (strategy : ClaimStrategy) :
    ofName? strategy.name = some strategy := by
  cases strategy <;> rfl

namespace StoreConfig

/-- An object that tells where objects are kept: the backend and its settings once, in any order,
among idle members.  Linking is the strategy when none is told. -/
inductive IsToldBy : StoreConfig → Json → Prop
  | memory {members : List (List Json.Piece × Json)}
      (h : Json.StandIn ["backend"] (sayings [("backend", "memory")]) members) :
      IsToldBy .memory (.object members)
  | disk {root : HostPath} {strategy : ClaimStrategy} {members : List (List Json.Piece × Json)}
      (h : Json.StandIn ["backend", "root", "rename_strategy"]
        (sayings [("backend", "local"), ("root", root.text), ("rename_strategy", strategy.name)])
        members) :
      IsToldBy (.disk root strategy) (.object members)
  | linking {root : HostPath} {members : List (List Json.Piece × Json)}
      (h : Json.StandIn ["backend", "root", "rename_strategy"]
        (sayings [("backend", "local"), ("root", root.text)]) members) :
      IsToldBy (.disk root .hardLink) (.object members)

/-- An object in which the backend is repeated, or the root beside a local backend. -/
inductive Repeats : Json → Prop
  | backend {members : List (List Json.Piece × Json)}
      (h : 2 ≤ (Json.valuesOf "backend" members).length) : Repeats (.object members)
  | root {members : List (List Json.Piece × Json)} {backend : Json}
      (hbackend : backend ∈ Json.valuesOf "backend" members) (hlocal : backend.text? = some "local")
      (h : 2 ≤ (Json.valuesOf "root" members).length) : Repeats (.object members)

/-- What is told is read, as a whole value or as a part of one. -/
lemma ofContent?_of_isToldBy {c : StoreConfig} (hdepth : 1 < depth) (h : c.IsToldBy value) :
    (Content.ofJson? depth value).bind ofContent? = some c := by
  cases h with
  | memory h =>
    obtain ⟨content, hcontent, htagged⟩ := Content.tagged?_of_standIn hdepth h (by simp)
      (show settingsOf "memory" = some [] from rfl)
    rw [hcontent, Option.bind_some]
    simp [ofContent?, htagged]
  | disk h =>
    obtain ⟨content, hcontent, htagged⟩ := Content.tagged?_of_standIn hdepth h (by simp)
      (show settingsOf "local" = some ["root", "rename_strategy"] from rfl)
    rw [hcontent, Option.bind_some]
    simp [ofContent?, htagged, List.lookup_cons, Content.text?, Content.choice?,
      ClaimStrategy.ofName?_name]
  | linking h =>
    obtain ⟨content, hcontent, htagged⟩ := Content.tagged?_of_standIn hdepth h (by simp)
      (show settingsOf "local" = some ["root", "rename_strategy"] from rfl)
    rw [hcontent, Option.bind_some]
    simp [ofContent?, htagged, List.lookup_cons, Content.text?]

/-- Nothing is read from an object that repeats itself. -/
lemma ofContent?_of_repeats (depth : Nat) (h : Repeats value) :
    (Content.ofJson? depth value).bind ofContent? = none := by
  cases hcontent : Content.ofJson? depth value with
  | none => rfl
  | some content =>
    have htagged : content.tagged? "backend" settingsOf = none := by
      cases h with
      | backend h => exact Content.tagged?_of_repeated_tag hcontent h
      | root hbackend hlocal h =>
        exact Content.tagged?_of_repeated_setting hcontent hbackend hlocal rfl (by simp) h
    rw [Option.bind_some, ofContent?, htagged]
    rfl

lemma exists_isToldBy (c : StoreConfig) :
    ∃ value, Json.ReadBack c.toJson value ∧ c.IsToldBy value := by
  cases c with
  | memory =>
    obtain ⟨members, hback, hstand⟩ :=
      Content.exists_standIn_sayings [("backend", "memory")] ["backend"]
    exact ⟨_, hback, .memory hstand⟩
  | disk root strategy =>
    obtain ⟨members, hback, hstand⟩ := Content.exists_standIn_sayings
      [("backend", "local"), ("root", root.text), ("rename_strategy", strategy.name)]
      ["backend", "root", "rename_strategy"]
    exact ⟨_, hback, .disk hstand⟩

end StoreConfig

/-! ## Where the commit state is kept -/

namespace StateConfig

/-- An object that tells where the commit state is kept: the backend and its settings once, in any
order, among idle members. -/
inductive IsToldBy : StateConfig → Json → Prop
  | memory {members : List (List Json.Piece × Json)}
      (h : Json.StandIn ["backend"] (sayings [("backend", "memory")]) members) :
      IsToldBy .memory (.object members)
  | file {path : HostPath} {members : List (List Json.Piece × Json)}
      (h : Json.StandIn ["backend", "path"] (sayings [("backend", "file"), ("path", path.text)])
        members) :
      IsToldBy (.file path) (.object members)

/-- An object in which the backend is repeated. -/
inductive Repeats : Json → Prop
  | backend {members : List (List Json.Piece × Json)}
      (h : 2 ≤ (Json.valuesOf "backend" members).length) : Repeats (.object members)

lemma ofContent?_of_isToldBy {c : StateConfig} (hdepth : 1 < depth) (h : c.IsToldBy value) :
    (Content.ofJson? depth value).bind ofContent? = some c := by
  cases h with
  | memory h =>
    obtain ⟨content, hcontent, htagged⟩ := Content.tagged?_of_standIn hdepth h (by simp)
      (show settingsOf "memory" = some [] from rfl)
    rw [hcontent, Option.bind_some]
    simp [ofContent?, htagged]
  | file h =>
    obtain ⟨content, hcontent, htagged⟩ := Content.tagged?_of_standIn hdepth h (by simp)
      (show settingsOf "file" = some ["path"] from rfl)
    rw [hcontent, Option.bind_some]
    simp [ofContent?, htagged, List.lookup_cons, Content.text?]

lemma ofContent?_of_repeats (depth : Nat) (h : Repeats value) :
    (Content.ofJson? depth value).bind ofContent? = none := by
  cases hcontent : Content.ofJson? depth value with
  | none => rfl
  | some content =>
    obtain ⟨h⟩ := h
    rw [Option.bind_some, ofContent?, Content.tagged?_of_repeated_tag hcontent h]
    rfl

lemma exists_isToldBy (c : StateConfig) :
    ∃ value, Json.ReadBack c.toJson value ∧ c.IsToldBy value := by
  cases c with
  | memory =>
    obtain ⟨members, hback, hstand⟩ :=
      Content.exists_standIn_sayings [("backend", "memory")] ["backend"]
    exact ⟨_, hback, .memory hstand⟩
  | file path =>
    obtain ⟨members, hback, hstand⟩ := Content.exists_standIn_sayings
      [("backend", "file"), ("path", path.text)] ["backend", "path"]
    exact ⟨_, hback, .file hstand⟩

end StateConfig

/-! ## Both -/

namespace ToolConfig

/-- An object that tells both choices, each once, in any order, among idle members. -/
inductive IsToldBy : ToolConfig → Json → Prop
  | both {c : ToolConfig} {members : List (List Json.Piece × Json)}
      (h : Json.StandIn ["store", "state"] [("store", c.store.IsToldBy),
        ("state", c.state.IsToldBy)] members) : IsToldBy c (.object members)

/-- An object with a choice that repeats itself. -/
inductive Repeats : Json → Prop
  | store {members : List (List Json.Piece × Json)} {part : Json}
      (hpart : part ∈ Json.valuesOf "store" members) (h : StoreConfig.Repeats part) :
      Repeats (.object members)
  | state {members : List (List Json.Piece × Json)} {part : Json}
      (hpart : part ∈ Json.valuesOf "state" members) (h : StateConfig.Repeats part) :
      Repeats (.object members)

/-- What is told is read. -/
lemma ofJson?_of_isToldBy {c : ToolConfig} (h : c.IsToldBy value) : ofJson? value = some c := by
  cases h with | @both members h
  obtain ⟨store, hstore, htold⟩ := h.exists_value (by simp) List.mem_cons_self List.mem_cons_self
  obtain ⟨state, hstate, htold'⟩ :=
    h.exists_value (by simp) (List.mem_cons_of_mem _ List.mem_cons_self) (by simp)
  have hfields : (Json.object members).fields? ["store", "state"] = some [some store, some state] :=
    Json.fields?_of_valuesOf (fun member hmember => (h.of_mem hmember).1)
      (.cons hstore (.cons hstate .nil))
  have hdepth : 1 < Content.depthLimit - 1 := by decide
  rw [ofJson?, hfields]
  simp [ofParts?, StoreConfig.ofContent?_of_isToldBy hdepth htold,
    StateConfig.ofContent?_of_isToldBy hdepth htold']

lemma exists_parts {members : List (List Json.Piece × Json)} {fields : List (Option Json)}
    (h : (Json.object members).fields? ["store", "state"] = some fields) :
    ∃ store state : Option Json, fields = [store, state] ∧
      Json.valuesOf "store" members = store.toList ∧
      Json.valuesOf "state" members = state.toList := by
  have hfields := Json.valuesOf_of_fields? h
  simp only [List.forall₂_cons_left_iff, List.forall₂_nil_left_iff] at hfields
  obtain ⟨store, _, hstore, ⟨state, _, hstate, rfl, rfl⟩, rfl⟩ := hfields
  exact ⟨store, state, rfl, hstore, hstate⟩

/-- Nothing is read from an object with a choice that repeats itself. -/
lemma ofJson?_of_repeats (h : Repeats value) : ofJson? value = none := by
  rw [ofJson?]
  cases hfields : value.fields? ["store", "state"] with
  | none => rfl
  | some fields =>
    cases h with
    | store hpart h =>
      obtain ⟨store, state, rfl, hstore, -⟩ := exists_parts hfields
      rw [hstore, Option.mem_toList] at hpart
      obtain rfl := Option.mem_def.mp hpart
      simp [ofParts?, StoreConfig.ofContent?_of_repeats _ h]
    | state hpart h =>
      obtain ⟨store, state, rfl, -, hstate⟩ := exists_parts hfields
      rw [hstate, Option.mem_toList] at hpart
      obtain rfl := Option.mem_def.mp hpart
      simp [ofParts?, StateConfig.ofContent?_of_repeats _ h]

lemma exists_isToldBy (c : ToolConfig) :
    ∃ value, Json.ReadBack c.toJson value ∧ c.IsToldBy value := by
  obtain ⟨store, hstore, htold⟩ := c.store.exists_isToldBy
  obtain ⟨state, hstate, htold'⟩ := c.state.exists_isToldBy
  have hfields : List.Forall₂ (fun field m => field.1 = m.1 ∧ ∃ value, Json.ReadBack m.2 value ∧
      field.2 value) [("store", c.store.IsToldBy), ("state", c.state.IsToldBy)]
      [("store", c.store.toJson), ("state", c.state.toJson)] :=
    .cons ⟨rfl, store, hstore, htold⟩ (.cons ⟨rfl, state, hstate, htold'⟩ .nil)
  obtain ⟨members, hback, hstand⟩ := Json.exists_standIn hfields ["store", "state"]
  exact ⟨_, hback, .both hstand⟩

end ToolConfig

/-! ## Texts -/

/-- What a kind of configuration has to do with JSON texts, if some values tell a configuration and
some repeat themselves: what is written for a configuration, on one line or over several, is read
back, and it is a text of a value that tells it; from every text of a value that tells a
configuration that one is read; and from a text of a value that repeats itself nothing is. -/
structure SurvivesJson {Config : Type} (toJson : Config → Json) (ofJson? : Json → Option Config)
    (IsToldBy : Config → Json → Prop) (Repeats : Json → Prop) : Prop where
  read_of_written (c : Config) : ∀ text ∈ [(toJson c).compact, (toJson c).pretty],
    (Json.parse? (.ofString (String.ofList text))).bind ofJson? = some c
  told_of_written (c : Config) : ∀ text ∈ [(toJson c).compact, (toJson c).pretty],
    ∃ value, Json.parse? (.ofString (String.ofList text)) = some value ∧ IsToldBy c value
  read_of_told (c : Config) (s : Source) (value : Json) (htext : Json.parse? s = some value)
    (h : IsToldBy c value) : (Json.parse? s).bind ofJson? = some c
  refused (s : Source) (value : Json) (htext : Json.parse? s = some value) (h : Repeats value) :
    (Json.parse? s).bind ofJson? = none

/-- It is enough to know about values what the decoder takes and what is read back. -/
lemma SurvivesJson.of_values {Config : Type} {toJson : Config → Json}
    {ofJson? : Json → Option Config} {IsToldBy : Config → Json → Prop} {Repeats : Json → Prop}
    (hback : ∀ c, ∃ value, Json.ReadBack (toJson c) value ∧ IsToldBy c value)
    (htold : ∀ c value, IsToldBy c value → ofJson? value = some c)
    (hrepeats : ∀ value, Repeats value → ofJson? value = none) :
    SurvivesJson toJson ofJson? IsToldBy Repeats := by
  have hwritten : ∀ c, ∀ text ∈ [(toJson c).compact, (toJson c).pretty],
      ∃ value, Json.parse? (.ofString (String.ofList text)) = some value ∧ IsToldBy c value := by
    intro c text htext
    obtain ⟨value, hvalue, h⟩ := hback c
    refine ⟨value, ?_, h⟩
    rw [Source.ofString, String.toList_ofList]
    rcases List.mem_pair.mp htext with rfl | rfl
    · exact Json.parse?_compact hvalue
    · exact Json.parse?_pretty hvalue
  refine ⟨fun c text htext => ?_, hwritten, fun c s value htext h => ?_, fun s value htext h => ?_⟩
  · obtain ⟨value, hparse, h⟩ := hwritten c text htext
    rw [hparse, Option.bind_some, htold c value h]
  · rw [htext, Option.bind_some, htold c value h]
  · rw [htext, Option.bind_some, hrepeats value h]

/-- Configurations are read back from the JSON texts that are written for them, and from all texts
that tell them in another order, with idle members or without the strategy that is taken by default;
but the backend must not be repeated, nor the root of a local store. -/
theorem configurations_survive_json :
    SurvivesJson StoreConfig.toJson StoreConfig.ofJson? StoreConfig.IsToldBy StoreConfig.Repeats ∧
    SurvivesJson StateConfig.toJson StateConfig.ofJson? StateConfig.IsToldBy StateConfig.Repeats ∧
    SurvivesJson ToolConfig.toJson ToolConfig.ofJson? ToolConfig.IsToldBy ToolConfig.Repeats := by
  have hdepth : 1 < Content.depthLimit := by decide
  refine ⟨.of_values StoreConfig.exists_isToldBy ?_ ?_,
    .of_values StateConfig.exists_isToldBy ?_ ?_, .of_values ToolConfig.exists_isToldBy ?_ ?_⟩
  · exact fun _ _ => StoreConfig.ofContent?_of_isToldBy hdepth
  · exact fun _ => StoreConfig.ofContent?_of_repeats Content.depthLimit
  · exact fun _ _ => StateConfig.ofContent?_of_isToldBy hdepth
  · exact fun _ => StateConfig.ofContent?_of_repeats Content.depthLimit
  · exact fun _ _ => ToolConfig.ofJson?_of_isToldBy
  · exact fun _ => ToolConfig.ofJson?_of_repeats

/-! ### Samples -/

/-- The backend behind the root that it governs, a member that says nothing in front of both, and no
strategy. -/
def sampleOfNote : Json :=
  .ofMembers [("note", .null), ("root", .ofString "d"), ("backend", .ofString "local")]

/-- The root told twice, even if the same is told. -/
def sampleOfRoots : Json :=
  .ofMembers [("root", .ofString "d"), ("backend", .ofString "local"), ("root", .ofString "d")]

/-- A member as it is read back. -/
def rereadMember (name text : String) : List Json.Piece × Json :=
  (name.toList.map Json.rereadChar, .string (text.toList.map Json.rereadChar))

lemma isToldBy_sampleOfNote : StoreConfig.IsToldBy (.disk ⟨"d"⟩ .hardLink) (.object
    [("note".toList.map Json.rereadChar, .null), rereadMember "root" "d",
      rereadMember "backend" "local"]) := by
  refine .linking ⟨[rereadMember "backend" "local", rereadMember "root" "d"],
    [("note".toList.map Json.rereadChar, .null)], ?_, ?_, ?_⟩
  · exact (List.reverse_perm _).symm
  · exact .cons ⟨Json.decode_reread _, Json.text?_reread _⟩
      (.cons ⟨Json.decode_reread _, Json.text?_reread _⟩ .nil)
  · intro member hmember
    obtain rfl := List.mem_singleton.mp hmember
    exact ⟨"note", by decide, Json.decode_reread _, .null⟩

lemma valuesOf_rereadMember (name other text : String) (members : List (List Json.Piece × Json)) :
    Json.valuesOf name (rereadMember other text :: members) =
      if other = name then (rereadMember other text).2 :: Json.valuesOf name members
      else Json.valuesOf name members := by
  rw [Json.valuesOf_cons]
  simp only [rereadMember, Json.decode_reread, Option.some.injEq, String.toList_inj]

lemma repeats_sampleOfRoots : StoreConfig.Repeats (.object
    [rereadMember "root" "d", rereadMember "backend" "local", rereadMember "root" "d"]) := by
  have hlocal : (rereadMember "backend" "local").2.text? = some "local" := Json.text?_reread _
  refine .root ?_ hlocal ?_ <;> simp [valuesOf_rereadMember]

/-- The first is read as if it said `hard_link`, and the second is not read. -/
theorem sampleOfNote_survives_json :
    (Json.parse? (.ofString (String.ofList sampleOfNote.compact))).bind StoreConfig.ofJson? =
        some (.disk ⟨"d"⟩ .hardLink) ∧
      (Json.parse? (.ofString (String.ofList sampleOfRoots.compact))).bind StoreConfig.ofJson? =
      none := by
  constructor
  · refine configurations_survive_json.1.read_of_told _ _ _ ?_ isToldBy_sampleOfNote
    rw [Source.ofString, String.toList_ofList]
    exact Json.parse?_compact (.object (.cons _ .null (.cons _ (Json.readBack_ofString _)
      (.cons _ (Json.readBack_ofString _) .nil))))
  · refine configurations_survive_json.1.refused _ _ ?_ repeats_sampleOfRoots
    rw [Source.ofString, String.toList_ofList]
    exact Json.parse?_compact (.object (.cons _ (Json.readBack_ofString _)
      (.cons _ (Json.readBack_ofString _) (.cons _ (Json.readBack_ofString _) .nil))))

end CommitStore
