import CommitStore.Host.Operations
import CommitStore.Store.Basic

/-!
# Object stores in a directory

A store in a directory keeps every object in a file of its own: the names of a location lead from
the root directory of the store down to the file.  Directories are those of the host, so an empty
one is listed too, and nothing can lie below an object.  `DiskStore.resolve` makes the host path of
a location; a location with the name `..` is refused, so no operation leaves the root.

A location is claimed in one of two ways, `DiskStore.claimByLink` or `DiskStore.claimByCheck`, as
the store is configured.
-/

namespace CommitStore

/-- How a store in a directory claims a location. -/
inductive ClaimStrategy
  /-- Link the source to the destination, which fails if anything is there, and then remove the
  source. -/
  | hardLink
  /-- Look at the destination and then move the source. -/
  | checkThenRename
  deriving DecidableEq

/-- A store in a directory, with the host that keeps it. -/
structure DiskStore where
  host : Host
  /-- The root directory of the store. -/
  root : HostPath
  strategy : ClaimStrategy
  /-- The time that is given as the last modification; the tree keeps none. -/
  stamp : Instant
  deriving DecidableEq

namespace DiskStore

/-! ## Locations on the host -/

/-- The host path of a location, if none of its names is `..`. -/
def resolve (s : DiskStore) (location : Location) : Except StoreError HostPath :=
  if location.hasParentName then .error (.invalidLocation location .parentName)
  else .ok (location.names.foldl HostPath.push s.root)

/-- The host path of a location that has to name an object. -/
def resolveObject (s : DiskStore) (location : Location) : Except StoreError HostPath :=
  if location.isObject then s.resolve location
  else .error (.invalidLocation location .notAnObject)

/-- The host path of a location other than the root of the store. -/
def resolveBelowRoot (s : DiskStore) (location : Location) : Except StoreError HostPath :=
  if location.isRoot then .error (.invalidLocation location .storeRoot)
  else s.resolve location

/-- What it means for a location that the host finds nothing to read there.  Below a file there is
nothing. -/
def absence (location : Location) : HostError → StoreError
  | .missing => .notFound location
  | .notDirectory => .notFound location
  | _ => .hostFailed location

/-- What stands at a location other than the root of the store. -/
def find (s : DiskStore) (location : Location) : Except StoreError Node := do
  let path ← s.resolveBelowRoot location
  (s.host.lookup path).mapError (absence location)

/-- Do something to the host, and keep the store as it is when that fails. -/
def change (s : DiskStore) (result : Except StoreError Host) :
    Except StoreError Unit × DiskStore :=
  match result with
  | .ok host => (.ok (), { s with host })
  | .error e => (.error e, s)

/-! ## Reading -/

/-- The bytes of an object. -/
def get (s : DiskStore) (location : Location) : Except StoreError ByteArray := do
  match ← s.find location with
  | .file content => .ok content
  | .folder _ => .error (.isDirectory (.ofDirectory location s.stamp))

/-- The description of an object.  A directory mark on the location of an object is dropped. -/
def head (s : DiskStore) (location : Location) : Except StoreError ObjectMeta := do
  match ← s.find location with
  | .file content => .ok (.ofObject location.asObject content.size s.stamp)
  | .folder _ => .error (.isDirectory (.ofDirectory location s.stamp))

/-! ## Changing the store -/

/-- Write an object and make the directories that it needs.  Directories that were made stay when
the object cannot be written. -/
def put (s : DiskStore) (location : Location) (content : ByteArray) (_now : Instant) :
    Except StoreError Unit × DiskStore :=
  match s.resolveObject location with
  | .error e => (.error e, s)
  | .ok path =>
    match path.parent?.elim (.ok (), s.host) s.host.makeDirectories with
    | (.error _, host) => (.error (.hostFailed location), { s with host })
    | (.ok (), host) =>
      let s := { s with host }
      s.change ((host.writeFile path content).mapError fun _ => .hostFailed location)

/-- Remove the file of an object. -/
def delete (s : DiskStore) (location : Location) : Except StoreError Unit × DiskStore :=
  s.change do
    let path ← s.resolve location
    (s.host.removeFile path).mapError fun _ => .deleteFailed location .host

/-- Move what is at a location, a directory as well as an object. -/
def rename (s : DiskStore) (source target : Location) : Except StoreError Unit × DiskStore :=
  s.change do
    let sourcePath ← s.resolve source
    let targetPath ← s.resolve target
    (s.host.move sourcePath targetPath).mapError fun _ => .notFound source

/-- What it means for a claim that the host does not link. -/
def claimError (source target : Location) : HostError → StoreError
  | .occupied => .alreadyExists target
  | .missing => .notFound source
  | _ => .hostFailed source

/-- Claim a location by linking the source to it and removing the source.  A source that cannot be
removed does no harm to the claim. -/
def claimByLink (s : DiskStore) (source target : Location) : Except StoreError Unit × DiskStore :=
  s.change do
    let sourcePath ← s.resolveObject source
    let targetPath ← s.resolveObject target
    let linked ← (s.host.link sourcePath targetPath).mapError (claimError source target)
    return (linked.removeFile sourcePath).toOption.getD linked

/-- Claim a location by looking at it and then moving the source.  Anything but a clear absence
counts as taken. -/
def claimByCheck (s : DiskStore) (source target : Location) : Except StoreError Unit × DiskStore :=
  match s.resolveObject target with
  | .error e => (.error e, s)
  | .ok _ =>
    match s.head target with
    | .error (.notFound _) => s.rename source target
    | _ => (.error (.alreadyExists target), s)

/-- Claim a location by the strategy of the store. -/
def claim (s : DiskStore) (source target : Location) : Except StoreError Unit × DiskStore :=
  match s.strategy with
  | .hardLink => s.claimByLink source target
  | .checkThenRename => s.claimByCheck source target

/-! ## Listing -/

/-- The description of what stands under some names. -/
def describe (s : DiskStore) (directory : Location) (names : List String) : Node → ObjectMeta
  | .file content => .ofObject (directory.join (.ofNames names false)) content.size s.stamp
  | .folder _ => .ofDirectory (directory.join (.ofNames names false)) s.stamp

/-- The entries at any depth of the directory at `path` whose first name begins with `name`. -/
def matching (entries : Directory) (name : String) : List (List String × Node) :=
  (entries.walk []).filter fun entry =>
    name.toList.isPrefixOf ((entry.1.head?.getD "").toList)

/-- The descriptions of all objects and directories whose location begins with the text of `query`:
the names in its directory part are compared with its name part, and everything below the ones that
match belongs to the listing, as does the directory itself if the name part is empty.  What is
missing or is an object has no entries; an entry that the host cannot reach makes the listing
fail. -/
def list (s : DiskStore) (query : Location) : Except StoreError (List ObjectMeta) := do
  let (directory, name) := query.splitLast
  let path ← s.resolve directory
  match s.host.lookup path with
  | .error .missing => .ok []
  | .error _ => .error (.listFailed query)
  | .ok (.file _) => .ok []
  | .ok (.folder entries) =>
    let found := matching entries name
    if found.any fun entry => (entry.1.foldl HostPath.push path).isLong then
      .error (.listFailed query)
    else
      .ok ((found.map fun (names, node) => s.describe directory names node)
        ++ if directory.isRoot || !name.isEmpty then [] else [.ofDirectory directory s.stamp])

instance : ObjectStore DiskStore where
  put := put
  get := get
  head := head
  delete := delete
  rename := rename
  claim := claim
  list := list

end DiskStore

end CommitStore
