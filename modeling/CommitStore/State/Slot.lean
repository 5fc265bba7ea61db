import CommitStore.Config.Backend
import CommitStore.State.CommitState
import CommitStore.Text.Blank
import CommitStore.Text.Quoted

/-!
# Where the commit state is kept

A state slot, `StateSlot`, holds at most one commit state, and each `put` replaces what the slot
holds.  A slot in memory holds it as a value.  A slot in a file holds it as one JSON object; the
object is written to a temporary file in the same directory first, which is then moved over the
target, so the file always holds a whole state.

The steps of this are data, `StateFile.Step`, because a failure of any of them is answered alike:
the temporary file is removed.
-/

namespace CommitStore

/-- The ways in which a state slot fails. -/
inductive StateError
  /-- No state was put yet. -/
  | empty
  /-- What is in the place of the state is no state, or cannot be read. -/
  | unreadable
  | unwritable
  /-- The configured path is empty or leads to a directory. -/
  | badPath (path : HostPath)
  deriving DecidableEq

namespace StateError

/-- The message of a failure. -/
def message : StateError → String
  | .empty => "the state is empty"
  | .unreadable => "the state could not be read"
  | .unwritable => "the state could not be written"
  | .badPath path =>
    "invalid state store configuration: state file path " ++ Text.quoted path.text
      ++ " is not a file location"

end StateError

/-! ## Slots in a file -/

/-- A state slot in a file, with the host that keeps it. -/
structure StateFile where
  host : Host
  /-- The path of the file. -/
  path : HostPath
  deriving DecidableEq

namespace StateFile

/-- The state that the bytes of a file stand for.  Nothing but white space is an empty slot. -/
def read (content : ByteArray) : Except StateError CommitState :=
  if content.data.all Text.isBlankByte then .error .empty
  else
    match (Json.parse? (.ofBytes content)).bind CommitState.ofJson? with
    | some state => .ok state
    | none => .error .unreadable

/-- The bytes that stand for a state. -/
def write (state : CommitState) : ByteArray := (String.ofList state.toJson.compact).toUTF8

/-- The state in the slot. -/
def get (f : StateFile) : Except StateError CommitState :=
  match f.host.fileContent f.path with
  | .ok content => read content
  | .error .missing => .error .empty
  | .error _ => .error .unreadable

/-- The directory of the file. -/
def directory (f : StateFile) : HostPath :=
  match f.path.parent? with
  | some parent => if parent.text = "" then ⟨"."⟩ else parent
  | none => ⟨"."⟩

/-- A name for a temporary file. -/
def temporaryName (n : Nat) : String := ".tmp" ++ String.ofList (Text.zeroPadded 6 n)

/-- A name for a temporary file that is not among the taken ones. -/
def freshName (taken : List String) : String :=
  temporaryName
    (((List.range (taken.length + 1)).find? fun n => !taken.contains (temporaryName n)).getD 0)

/-- The names in the directory at a path. -/
def namesIn (host : Host) (path : HostPath) : List String :=
  match host.lookup path with
  | .ok (.folder entries) => entries.names
  | _ => []

/-- A step of putting a state into a file, once there is a temporary file. -/
inductive Step
  /-- Write the bytes of the state. -/
  | encode
  /-- Hand on what is buffered. -/
  | flush
  /-- Have the host keep what it was given. -/
  | sync
  /-- Move the temporary file over the target. -/
  | persist
  deriving DecidableEq

/-- The steps in their order. -/
def steps : List Step := [.encode, .flush, .sync, .persist]

/-- Take a step.  What is written goes to the host at once, and the host keeps it, so nothing is
left to do for a flush or a sync. -/
def Step.run (temporary target : HostPath) (state : CommitState) (host : Host) :
    Step → Except HostError Host
  | .encode => host.writeFile temporary (write state)
  | .flush => .ok host
  | .sync => .ok host
  | .persist => host.move temporary target

/-- Remove a temporary file, as far as it can be removed. -/
def discard (host : Host) (temporary : HostPath) : Host :=
  (host.removeFile temporary).toOption.getD host

/-- Take some steps one after the other.  When one fails, the temporary file is removed. -/
def takeSteps (temporary target : HostPath) (state : CommitState) :
    List Step → Host → Except StateError Unit × Host
  | [], host => (.ok (), host)
  | step :: rest, host =>
    match step.run temporary target state host with
    | .error _ => (.error .unwritable, discard host temporary)
    | .ok after => takeSteps temporary target state rest after

/-- Create a temporary file and put it, with a state in it, in the place of the target. -/
def replace (host : Host) (temporary target : HostPath) (state : CommitState) :
    Except StateError Unit × Host :=
  match host.writeFile temporary .empty with
  | .error _ => (.error .unwritable, host)
  | .ok created => takeSteps temporary target state steps created

/-- Put a state into the slot.  Missing directories are made first, and stay.  The temporary file is
named from the top, so a path that is just short enough for the target may be too long for it. -/
def put (f : StateFile) (state : CommitState) : Except StateError Unit × StateFile :=
  match f.host.makeDirectories f.directory with
  | (.error _, host) => (.error .unwritable, { f with host })
  | (.ok (), host) =>
    let temporary :=
      host.absolute (f.directory.push (freshName (namesIn host f.directory)))
    let (result, host) := replace host temporary f.path state
    (result, { f with host })

end StateFile

/-! ## Slots of either kind -/

/-- A place that holds at most one commit state. -/
inductive StateSlot
  | memory (state : Option CommitState)
  | file (slot : StateFile)
  deriving DecidableEq

namespace StateSlot

/-- The slot that a configuration chooses.  A path that is empty or leads to a directory cannot be
the path of a state file. -/
def openChecked (config : StateConfig) (host : Host) : Except StateError StateSlot :=
  match config with
  | .memory => .ok (.memory none)
  | .file path =>
    if path.text = "" ∨ host.isFolder path then .error (.badPath path)
    else .ok (.file ⟨host, path⟩)

/-- The state in the slot. -/
def get : StateSlot → Except StateError CommitState
  | .memory state => state.elim (.error .empty) .ok
  | .file slot => slot.get

/-- Put a state into the slot. -/
def put (state : CommitState) : StateSlot → Except StateError Unit × StateSlot
  | .memory _ => (.ok (), .memory (some state))
  | .file slot =>
    let (result, slot) := slot.put state
    (result, .file slot)

/-- The slot on another host. -/
def onHost (host : Host) : StateSlot → StateSlot
  | .memory state => .memory state
  | .file slot => .file { slot with host }

/-- The host after what was done to the slot; `host` for a slot in memory. -/
def hostAfter (host : Host) : StateSlot → Host
  | .memory _ => host
  | .file slot => slot.host

end StateSlot

end CommitStore
