import CommitStore.Command.Line
import CommitStore.State.Slot
import CommitStore.Store.Backend
import CommitStore.Toml.Document

/-!
# Running commands

A command takes the host and what is on standard input, and gives what it writes to standard output
together with the host after it.  A command that fails writes nothing; its failure says
what was being done and, where a store or a state slot refused, what it said.
-/

namespace CommitStore

/-- What a command is doing when something goes wrong. -/
inductive Task
  | readConfig (path : String)
  | parseConfig (path : String)
  | openStore
  | openState
  | readFile (path : String)
  | write (location : Location)
  | read (location : Location)
  | inspect (location : Location)
  | list (location : Location)
  | delete (location : Location)
  | move (source target : Location)
  | readState
  | writeState
  deriving DecidableEq

/-- Why a command failed. -/
inductive Failure
  /-- The host refused, or a file makes no sense. -/
  | host (task : Task)
  | store (task : Task) (cause : StoreError)
  | state (task : Task) (cause : StateError)
  /-- A move that must not replace anything found its destination taken. -/
  | taken (source target : Location)
  deriving DecidableEq

/-- What was being done, in words. -/
def Task.message : Task → String
  | .readConfig path => "reading config " ++ path
  | .parseConfig path => "parsing config " ++ path
  | .openStore => "opening object store"
  | .openState => "opening state store"
  | .readFile path => "reading " ++ path
  | .write location => "writing " ++ location.text
  | .read location => "reading " ++ location.text
  | .inspect location => "inspecting " ++ location.text
  | .list location => "listing '" ++ location.text ++ "'"
  | .delete location => "deleting " ++ location.text
  | .move source target => "moving " ++ source.text ++ " to " ++ target.text
  | .readState => "reading commit state"
  | .writeState => "writing commit state"

/-- The messages of a failure, from the outermost on. -/
def Failure.messages : Failure → List String
  | .host task => [task.message]
  | .store task cause => [task.message, cause.message]
  | .state task cause => [task.message, cause.message]
  | .taken source target =>
    [target.text ++ " already exists; " ++ source.text ++ " was left in place"]

/-! ## Configuration -/

namespace ToolConfig

/-- The configuration in a file. -/
def load (host : Host) (path : String) : Except Failure ToolConfig :=
  match (host.fileContent ⟨path⟩).toOption.bind String.fromUTF8? with
  | none => .error (.host (.readConfig path))
  | some text =>
    match (Toml.parse? text).bind ofMembers? with
    | none => .error (.host (.parseConfig path))
    | some config => .ok config

/-- The claim strategy of a configured store, if it has one. -/
def strategy (c : ToolConfig) : ClaimStrategy :=
  match c.store with
  | .disk _ strategy => strategy
  | .memory => .hardLink

/-- The configuration for an invocation: that of its file, or the default, with the store and the
state slot that the command line puts in their place.  A root directory from the command line keeps
the claim strategy of the file. -/
def resolve (host : Host) (i : Invocation) : Except Failure ToolConfig := do
  let config ← i.config.elim (.ok default) (load host)
  return {
    store := i.root.elim config.store fun root => .disk ⟨root⟩ config.strategy
    state := i.state.elim config.state fun path => .file ⟨path⟩ }

end ToolConfig

/-! ## Commands -/

/-- What the commands find when they run. -/
structure Environment where
  host : Host
  standardInput : ByteArray
  /-- Whether output is coloured. -/
  color : Bool
  now : Instant

/-- The end of a command: what it wrote or why it failed, and the host after it. -/
structure Outcome where
  result : Except Failure ByteArray
  host : Host

namespace Environment

variable (env : Environment)

/-- Coloured text, if output is coloured. -/
def paint (style : Style) (text : String) : String :=
  String.ofList (style.paint env.color text.toList)

/-- A line of output. -/
def line (parts : List String) : ByteArray := (String.join parts ++ "\n").toUTF8

/-- The mark of success. -/
def tick : String := env.paint .green "✓"

/-- The end of a command that changed the store: `written` if it succeeded. -/
def changed (outcome : Except StoreError Unit × Backend) (task : Task) (written : ByteArray) :
    Outcome where
  result := match outcome.1 with
    | .ok () => .ok written
    | .error e => .error (.store task e)
  host := outcome.2.hostAfter env.host

/-- The end of a command that changed nothing. -/
def unchanged (result : Except Failure ByteArray) : Outcome := ⟨result, env.host⟩

/-- The content for a new object. -/
def contentFrom : PutSource → Except Failure ByteArray
  | .standardInput => .ok env.standardInput
  | .data text => .ok text.toUTF8
  | .file path => (env.host.fileContent ⟨path⟩).mapError fun _ => .host (.readFile path)

/-- Write an object. -/
def put (store : Backend) (location : Location) (source : PutSource) : Outcome :=
  match env.contentFrom source with
  | .error e => env.unchanged (.error e)
  | .ok content =>
    env.changed (ObjectStore.put store location content env.now) (.write location)
      (line [env.tick, " Wrote ", env.paint .bold location.text, " (",
        String.ofList (Text.decimal content.size), " bytes)"])

/-- Show the description of an object or of a directory. -/
def head (store : Backend) (location : Location) (format : OutputFormat) :
    Except Failure ByteArray :=
  match ObjectStore.head store location with
  | .ok m => .ok (Listing.render format env.color [m]).toUTF8
  | .error (.isDirectory m) => .ok (Listing.render format env.color [m]).toUTF8
  | .error e => .error (.store (.inspect location) e)

/-- Show what a store holds. -/
def list (store : Backend) (location : Location) (format : OutputFormat) :
    Except Failure ByteArray :=
  match ObjectStore.sortedList store location with
  | .ok entries => .ok (Listing.render format env.color entries).toUTF8
  | .error e => .error (.store (.list location) e)

/-- Move an object over whatever is at its destination. -/
def move (store : Backend) (source target : Location) : Outcome :=
  env.changed (ObjectStore.rename store source target) (.move source target)
    (line ["Moved ", env.paint .bold source.text, " → ", env.paint .bold target.text])

/-- Move an object to a free destination. -/
def claim (store : Backend) (source target : Location) : Outcome :=
  let outcome := ObjectStore.claim store source target
  match outcome.1 with
  | .error (.alreadyExists _) =>
    ⟨.error (.taken source target), outcome.2.hostAfter env.host⟩
  | _ =>
    env.changed outcome (.move source target)
      (line [env.tick, " Claimed ", env.paint .bold target.text, " from ", source.text])

/-- Show the commit state. -/
def stateGet (slot : StateSlot) (format : OutputFormat) : Except Failure ByteArray :=
  match slot.get, format with
  | .ok state, .json => .ok (line [String.ofList state.toJson.compact])
  | .ok state, .text => .ok (line [env.paint .yellow (String.ofList state.digits)])
  | .error .empty, .json => .ok (line ["null"])
  | .error .empty, .text => .ok (line [env.paint .dimmed "no commit state recorded"])
  | .error e, _ => .error (.state .readState e)

/-- Record a commit state. -/
def statePut (slot : StateSlot) (state : CommitState) : Outcome :=
  let (result, slot) := slot.put state
  { result := match result with
      | .ok () =>
        .ok (line [env.tick, " Recorded version ",
          env.paint .yellow (String.ofList state.digits)])
      | .error e => .error (.state .writeState e)
    host := slot.hostAfter env.host }

/-- Do something with the configured store. -/
def onStore (config : ToolConfig) (command : Backend → Outcome) : Outcome :=
  match Backend.openChecked config.store env.host env.now with
  | .error e => env.unchanged (.error (.store .openStore e))
  | .ok store => command store

/-- Do something with the configured state slot. -/
def onState (config : ToolConfig) (command : StateSlot → Outcome) : Outcome :=
  match StateSlot.openChecked config.state env.host with
  | .error e => env.unchanged (.error (.state .openState e))
  | .ok slot => command slot

/-- Run an action with its configuration. -/
def perform (config : ToolConfig) (format : OutputFormat) : Action → Outcome
  | .put path source => env.onStore config fun store => env.put store (.ofText path) source
  | .get path =>
    env.onStore config fun store =>
      env.unchanged ((ObjectStore.get store (.ofText path)).mapError
        (.store (.read (.ofText path))))
  | .head path =>
    env.onStore config fun store => env.unchanged (env.head store (.ofText path) format)
  | .list start =>
    env.onStore config fun store => env.unchanged (env.list store (.ofText start) format)
  | .delete path =>
    env.onStore config fun store =>
      let location := Location.ofText path
      env.changed (ObjectStore.delete store location) (.delete location)
        (line ["Deleted ", env.paint .bold location.text])
  | .move source target false =>
    env.onStore config fun store => env.move store (.ofText source) (.ofText target)
  | .move source target true =>
    env.onStore config fun store => env.claim store (.ofText source) (.ofText target)
  | .stateGet => env.onState config fun slot => env.unchanged (env.stateGet slot format)
  | .statePut version => env.onState config fun slot => env.statePut slot ⟨version⟩

/-- Run an invocation. -/
def run (i : Invocation) : Outcome :=
  match ToolConfig.resolve env.host i with
  | .error e => env.unchanged (.error e)
  | .ok config => env.perform config i.format i.action

end Environment

end CommitStore
