import CommitStore.Command.Run
import Std.Time.DateTime.Timestamp

/-!
# The program

The parts of the host that a command looks at are read, the command runs on them, and what it
changed is written back.  Entries that are neither files nor directories are left alone.
-/

namespace CommitStore

namespace Main

/-! ## Reading the host -/

/-- The path of what some names lead to from the top. -/
def pathOf (names : List String) :=
  IO.currentDir >>= fun here => pure (here / (HostPath.ofNames names).text)

/-- Read a directory with everything below it. -/
partial def load (names : List String) : IO Directory := do
  let mut entries : Directory := .empty
  for entry in ← (← pathOf names).readDir do
    let name := entry.fileName
    match (← entry.path.symlinkMetadata).type with
    | .file => entries := entries.insert name (.file (← IO.FS.readBinFile entry.path))
    | .dir => entries := entries.insert name (.folder (← load (names ++ [name])))
    | _ => pure ()
  return entries

/-- Add what some names lead to from the directory at `above`, and the way to it.  A directory is
read with everything below it if `deep` holds. -/
def reach (deep : Bool) (above : List String) (entries : Directory) : List String → IO Directory
  | [] => if deep then load above else pure entries
  | name :: names => do
    let path ← pathOf (above ++ [name])
    if ← path.isDir then
      let known := match entries.find? name with
        | some (.folder below) => below
        | _ => .empty
      return entries.insert name (.folder (← reach deep (above ++ [name]) known names))
    else if ← path.pathExists then
      return entries.insert name (.file (← IO.FS.readBinFile path))
    else return entries

/-- The names from the top that some components lead to, if all of them are directories. -/
def namesAlong (start components : List String) : List String :=
  components.foldl
    (fun names c => if c = "." then names else if c = ".." then names.dropLast else names ++ [c])
    start

/-- Add what a path leads to, and every directory on the way. -/
def addPath (deep : Bool) (host : Host) (p : HostPath) : IO Host := do
  let mut tree := host.tree
  for count in List.range p.components.length do
    tree ← reach false [] tree (namesAlong (host.start p) (p.components.take count))
  return { host with tree := ← reach deep [] tree (namesAlong (host.start p) p.components) }

/-- The host with its working directory and the files that an invocation names. -/
def loadFiles (i : Invocation) : IO Host := do
  let here := HostPath.components ⟨(← IO.currentDir).toString⟩
  let files := i.config.toList ++ match i.action with
    | .put _ (.file path) => [path]
    | _ => []
  files.foldlM (fun host path => addPath false host ⟨path⟩) (.bare here)

/-- The host with the directories in which a configuration keeps objects and commit state. -/
def loadStores (host : Host) (config : ToolConfig) : IO Host := do
  let host ← match config.store with
    | .disk root _ => addPath true host root
    | .memory => pure host
  match config.state with
  | .file path => addPath true (← addPath false host path) (StateFile.directory ⟨host, path⟩)
  | .memory => pure host

/-! ## Writing the host -/

/-- Remove what stands under some names. -/
def remove (names : List String) : Node → IO Unit
  | .file _ => do IO.FS.removeFile (← pathOf names)
  | .folder _ => do IO.FS.removeDirAll (← pathOf names)

/-- Write the differences between two trees. -/
partial def save (names : List String) (before after : Directory) : IO Unit := do
  for name in before.names do
    match before.find? name, after.find? name with
    | some node, none => remove (names ++ [name]) node
    | some (.file content), some (.folder _) => remove (names ++ [name]) (.file content)
    | some (.folder entries), some (.file _) => remove (names ++ [name]) (.folder entries)
    | _, _ => pure ()
  for name in after.names do
    let path ← pathOf (names ++ [name])
    match before.find? name, after.find? name with
    | some (.folder old), some (.folder new) => save (names ++ [name]) old new
    | _, some (.folder new) =>
      IO.FS.createDirAll path
      save (names ++ [name]) .empty new
    | some (.file old), some (.file new) => if old != new then IO.FS.writeBinFile path new
    | _, some (.file new) => IO.FS.writeBinFile path new
    | _, none => pure ()

/-! ## Running -/

/-- Read standard input to its end. -/
partial def readAll (stream : IO.FS.Stream) (content : ByteArray) : IO ByteArray := do
  let block ← stream.read 65536
  if block.isEmpty then return content else readAll stream (content ++ block)

/-- Whether an action takes its content from standard input. -/
def needsInput : Action → Bool
  | .put _ .standardInput => true
  | _ => false

/-- The current time. -/
def now : IO Instant := do
  let time ← Std.Time.Timestamp.now
  return (Instant.ofUnix? time.toSecondsSinceUnixEpoch.val 0).getD default

/-- Run an invocation. -/
def execute (i : Invocation) : IO UInt32 := do
  let output ← IO.getStdout
  let input ← if needsInput i.action then readAll (← IO.getStdin) .empty else pure .empty
  let files ← loadFiles i
  let host ← match ToolConfig.resolve files i with
    | .ok config => loadStores files config
    | .error _ => pure files
  let outcome := ({ host, standardInput := input, color := ← output.isTty, now := ← now } :
    Environment).run i
  save [] host.tree outcome.host.tree
  match outcome.result with
  | .ok written =>
    output.write written
    output.flush
    return 0
  | .error failure =>
    IO.eprintln ("Error: " ++ String.intercalate ": " failure.messages)
    return 1

/-- How the program is called. -/
def usage : String :=
  "usage: [-c FILE] [--root DIR] [--state FILE] [-v] [--format text|json] COMMAND\n"
    ++ "commands: put PATH [-f FILE | -d TEXT], get PATH, head PATH, ls [PREFIX], rm PATH,\n"
    ++ "          mv FROM TO [--if-not-exists], state get, state put VERSION"

end Main

end CommitStore

open CommitStore in
def main (args : List String) : IO UInt32 := do
  match Invocation.parse args with
  | .ok i => Main.execute i
  | .error .helpRequested => IO.println Main.usage; return 0
  | .error e => IO.eprintln Main.usage; return e.exitStatus.toUInt32
