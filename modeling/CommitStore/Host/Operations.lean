import CommitStore.Host.Basic

/-!
# Operations of the host

What the operating system does with paths.  Above the top of the tree, `..` stays where it is.
There are no symbolic links and no permissions, names have at most 255 bytes, and paths have fewer
than 4096.

`Host.locate` says what a path leads to, and all operations start from it.  Every operation that
changes the tree gives the host after it or the reason why nothing was changed.  Only
`Host.makeDirectories`, which makes several directories, may stop half-way.
-/

namespace CommitStore

/-- Why the host refuses. -/
inductive HostError
  /-- Nothing is there, or a directory on the way is missing. -/
  | missing
  /-- Something on the way, or what is asked to be a directory, is a file. -/
  | notDirectory
  /-- A directory is where a file is asked for. -/
  | isDirectory
  /-- The place of a new entry is taken. -/
  | occupied
  /-- A directory that has entries cannot be replaced. -/
  | notEmpty
  /-- A directory cannot be moved below itself. -/
  | intoItself
  /-- A directory cannot be linked. -/
  | notPermitted
  /-- The path ends with `.` or `..`, which cannot be moved. -/
  | busy
  /-- A name or the whole path is too long. -/
  | tooLong
  /-- The path holds a NUL character. -/
  | badCharacter
  deriving DecidableEq

/-- The number of bytes from which on a path is too long. -/
def HostPath.limit : Nat := 4096

/-- The largest number of bytes of a name. -/
def HostPath.nameLimit : Nat := 255

/-- Whether a name is too long for the host. -/
def isLongName (name : String) : Bool := HostPath.nameLimit < name.utf8ByteSize

/-- Whether a path is too long for the host. -/
def HostPath.isLong (p : HostPath) : Bool := HostPath.limit ≤ p.text.utf8ByteSize

/-- Whether a path holds a NUL character. -/
def HostPath.hasNul (p : HostPath) : Bool := p.text.toList.contains '\x00'

/-- What is wrong with a path before anything is looked up. -/
def HostPath.check (p : HostPath) : Except HostError Unit :=
  if p.hasNul then .error .badCharacter
  else if p.text = "" then .error .missing
  else if p.isLong then .error .tooLong
  else .ok ()

namespace Host

/-! ## Resolving paths -/

/-- Follow the components of a path from the directory that `names` leads to; the answer is the
names that lead to the end of the path from the top. -/
def follow (h : Host) (names : List String) : List String → Except HostError (List String)
  | [] => .ok names
  | c :: rest =>
    match h.get? names with
    | some (.folder entries) =>
      if c = "." then follow h names rest
      else if c = ".." then follow h names.dropLast rest
      else if isLongName c then .error .tooLong
      else
        match entries.find? c with
        | some _ => follow h (names ++ [c]) rest
        | none => .error .missing
    | _ => .error .notDirectory

/-- The names from the top to what a path leads to, and what is there. -/
def locate (h : Host) (p : HostPath) : Except HostError (List String × Node) := do
  p.check
  let names ← h.follow (h.start p) p.components
  match h.get? names with
  | some (.folder entries) => .ok (names, .folder entries)
  | some (.file content) =>
    if p.asksDirectory then .error .notDirectory else .ok (names, .file content)
  | none => .error .missing

/-- What a path leads to. -/
def lookup (h : Host) (p : HostPath) : Except HostError Node :=
  (h.locate p).map (·.2)

/-- Whether a path leads to anything. -/
def isPresent (h : Host) (p : HostPath) : Bool := (h.lookup p).isOk

/-- Whether a path leads to a directory. -/
def isFolder (h : Host) (p : HostPath) : Bool :=
  match h.lookup p with
  | .ok (.folder _) => true
  | _ => false

/-- The names from the top to the directory in which the last component of a path is to be found,
and that component; a path that ends with `.` or `..`, or at the top, has none. -/
def place (h : Host) (p : HostPath) : Except HostError (List String × Option String) := do
  p.check
  match p.components.getLast? with
  | none => .ok ([], none)
  | some last =>
    let names ← h.follow (h.start p) p.components.dropLast
    match h.get? names with
    | some (.folder _) =>
      if last = "." ∨ last = ".." then .ok (names, none)
      else if isLongName last then .error .tooLong
      else .ok (names, some last)
    | _ => .error .notDirectory

/-! ## One path -/

/-- The bytes of a file. -/
def fileContent (h : Host) (p : HostPath) : Except HostError ByteArray := do
  match ← h.lookup p with
  | .file content => .ok content
  | .folder _ => .error .isDirectory

/-- Write a file, over a file that is there. -/
def writeFile (h : Host) (p : HostPath) (content : ByteArray) : Except HostError Host := do
  match ← h.place p with
  | (_, none) => .error .isDirectory
  | (names, some last) =>
    if p.asksDirectory then .error .isDirectory
    else
      match h.get? (names ++ [last]) with
      | some (.folder _) => .error .isDirectory
      | _ => .ok (h.alter (.insert last (.file content)) names)

/-- Remove a file. -/
def removeFile (h : Host) (p : HostPath) : Except HostError Host := do
  match ← h.place p with
  | (_, none) => .error .isDirectory
  | (names, some last) =>
    match h.get? (names ++ [last]) with
    | none => .error .missing
    | some (.folder _) => .error .isDirectory
    | some (.file _) =>
      if p.asksDirectory then .error .notDirectory
      else .ok (h.alter (.erase last) names)

/-- Make an empty directory. -/
def makeDirectory (h : Host) (p : HostPath) : Except HostError Host := do
  match ← h.place p with
  | (_, none) => .error .occupied
  | (names, some last) =>
    match h.get? (names ++ [last]) with
    | some _ => .error .occupied
    | none => .ok (h.alter (.insert last (.folder .empty)) names)

/-- Make the first of some directories, each of which is the parent of the one before it, after
making its parents as far as they are missing.  A directory that is there already will do. -/
def makeChain (h : Host) : List HostPath → Except HostError Unit × Host
  | [] => (.error .missing, h)
  | p :: parents =>
    if p.text = "" then (.ok (), h)
    else
      match h.makeDirectory p with
      | .ok made => (.ok (), made)
      | .error .missing =>
        match makeChain h parents with
        | (.error e, between) => (.error e, between)
        | (.ok (), between) =>
          match between.makeDirectory p with
          | .ok made => (.ok (), made)
          | .error e => if between.isFolder p then (.ok (), between) else (.error e, between)
      | .error e => if h.isFolder p then (.ok (), h) else (.error e, h)

/-- Make a directory and its missing parents.  Parents that were made stay, even if the directory
itself cannot be made. -/
def makeDirectories (h : Host) (p : HostPath) : Except HostError Unit × Host :=
  h.makeChain (p :: p.ancestors)

/-! ## Two paths -/

/-- Give a file a second name.  The source is resolved before the destination is looked at, but no
path may hold a NUL character.  The two names hold equal bytes from here on; nothing is written
through one of them while both stand. -/
def link (h : Host) (source target : HostPath) : Except HostError Host :=
  if target.hasNul then .error .badCharacter
  else do
    let (_, node) ← h.locate source
    match ← h.place target with
    | (_, none) => .error .occupied
    | (names, some last) =>
      if (h.get? (names ++ [last])).isSome then .error .occupied
      else if target.asksDirectory then .error .missing
      else
        match node with
        | .folder _ => .error .notPermitted
        | .file content => .ok (h.alter (.insert last (.file content)) names)

/-- Whether a node may take the place of another. -/
def replaces : Node → Option Node → Except HostError Unit
  | _, none => .ok ()
  | .file _, some (.file _) => .ok ()
  | .folder _, some (.folder .empty) => .ok ()
  | .folder _, some (.folder _) => .error .notEmpty
  | .file _, some (.folder _) => .error .isDirectory
  | .folder _, some (.file _) => .error .notDirectory

/-- Whether paths that ask for a directory may stand for the source and the destination of a
move. -/
def movesAs (source target : HostPath) : Node → Bool
  | .file _ => !source.asksDirectory && !target.asksDirectory
  | .folder _ => true

/-- Move a file over a file or to a free place, or a directory over an empty directory or to a free
place. -/
def move (h : Host) (source target : HostPath) : Except HostError Host := do
  let (sourceNames, sourceLast) ← h.place source
  let (targetNames, targetLast) ← h.place target
  match sourceLast, targetLast with
  | some s, some t =>
    match h.get? (sourceNames ++ [s]) with
    | none => .error .missing
    | some node =>
      if ¬movesAs source target node then .error .notDirectory
      else if (sourceNames ++ [s]).isPrefixOf targetNames then .error .intoItself
      else if (targetNames ++ [t]).isPrefixOf sourceNames then .error .notEmpty
      else if sourceNames ++ [s] = targetNames ++ [t] then .ok h
      else do
        replaces node (h.get? (targetNames ++ [t]))
        return (h.alter (.erase s) sourceNames).alter (.insert t node) targetNames
  | _, _ => .error .busy

end Host

end CommitStore
