import CommitStore.Config.Content
import CommitStore.Host.Path
import CommitStore.Store.Disk

/-!
# Choosing stores

A configuration chooses where objects are kept, in a `StoreConfig`, and where the commit state is
kept, in a `StateConfig`; a `ToolConfig` holds both.  Each choice names a backend and gives its
settings.  All of them have defaults and are written with `toJson` and read with `ofJson?`, and
`ToolConfig.ofMembers?` reads what a configuration file says.
-/

namespace CommitStore

/-- The name of a claim strategy. -/
def ClaimStrategy.name : ClaimStrategy → String
  | .hardLink => "hard_link"
  | .checkThenRename => "check_then_rename"

/-- The claim strategy with a name. -/
def ClaimStrategy.ofName? (name : String) : Option ClaimStrategy :=
  if name = "hard_link" then some .hardLink
  else if name = "check_then_rename" then some .checkThenRename
  else none

/-- Where objects are kept. -/
inductive StoreConfig
  | memory
  /-- In a directory of the host. -/
  | disk (root : HostPath) (strategy : ClaimStrategy)
  deriving DecidableEq

/-- Where the commit state is kept. -/
inductive StateConfig
  | memory
  /-- In a file of the host. -/
  | file (path : HostPath)
  deriving DecidableEq

/-- Where both are kept. -/
structure ToolConfig where
  store : StoreConfig
  state : StateConfig
  deriving DecidableEq

namespace StoreConfig

/-- Objects are kept in the working directory unless something else is said. -/
instance : Inhabited StoreConfig := ⟨.disk ⟨"."⟩ .hardLink⟩

/-- The settings of a backend. -/
def settingsOf (kind : String) : Option (List String) :=
  if kind = "local" then some ["root", "rename_strategy"]
  else if kind = "memory" then some []
  else none

/-- The choice that a content makes.  The strategy may be left out. -/
def ofContent? (content : Content) : Option StoreConfig := do
  match ← content.tagged? "backend" settingsOf with
  | (_, []) => return .memory
  | (_, [some root, none]) => return .disk ⟨← root.text?⟩ .hardLink
  | (_, [some root, some strategy]) =>
    return .disk ⟨← root.text?⟩ (← strategy.choice?.bind ClaimStrategy.ofName?)
  | _ => none

/-- The choice that a JSON value makes. -/
def ofJson? (value : Json) : Option StoreConfig :=
  (Content.ofJson? Content.depthLimit value).bind ofContent?

/-- The JSON object of a choice. -/
def toJson : StoreConfig → Json
  | .memory => .ofMembers [("backend", .ofString "memory")]
  | .disk root strategy =>
    .ofMembers [("backend", .ofString "local"), ("root", .ofString root.text),
      ("rename_strategy", .ofString strategy.name)]

end StoreConfig

namespace StateConfig

/-- The commit state is kept in memory unless something else is said. -/
instance : Inhabited StateConfig := ⟨.memory⟩

/-- The settings of a backend. -/
def settingsOf (kind : String) : Option (List String) :=
  if kind = "file" then some ["path"] else if kind = "memory" then some [] else none

/-- The choice that a content makes. -/
def ofContent? (content : Content) : Option StateConfig := do
  match ← content.tagged? "backend" settingsOf with
  | (_, []) => return .memory
  | (_, [some path]) => return .file ⟨← path.text?⟩
  | _ => none

/-- The choice that a JSON value makes. -/
def ofJson? (value : Json) : Option StateConfig :=
  (Content.ofJson? Content.depthLimit value).bind ofContent?

/-- The JSON object of a choice. -/
def toJson : StateConfig → Json
  | .memory => .ofMembers [("backend", .ofString "memory")]
  | .file path => .ofMembers [("backend", .ofString "file"), ("path", .ofString path.text)]

end StateConfig

namespace ToolConfig

instance : Inhabited ToolConfig := ⟨⟨default, default⟩⟩

/-- The configuration whose parts are read from two optional values. -/
def ofParts? {α : Type} (store? : α → Option StoreConfig) (state? : α → Option StateConfig) :
    List (Option α) → Option ToolConfig
  | [store, state] => do
    let store ← store.elim (some default) store?
    let state ← state.elim (some default) state?
    return ⟨store, state⟩
  | _ => none

/-- The configuration that the members of a file give.  What is left out has its default. -/
def ofMembers? (members : List (String × Content)) : Option ToolConfig := do
  ofParts? StoreConfig.ofContent? StateConfig.ofContent?
    (← ["store", "state"].mapM (Json.single? members))

/-- The configuration that a JSON value gives.  What is left out has its default. -/
def ofJson? (value : Json) : Option ToolConfig := do
  ofParts? (fun part => (Content.ofJson? (Content.depthLimit - 1) part).bind StoreConfig.ofContent?)
    (fun part => (Content.ofJson? (Content.depthLimit - 1) part).bind StateConfig.ofContent?)
    (← value.fields? ["store", "state"])

/-- The JSON object of a configuration. -/
def toJson (c : ToolConfig) : Json :=
  .ofMembers [("store", c.store.toJson), ("state", c.state.toJson)]

end ToolConfig

end CommitStore
