import CommitStore.Store.Basic
import CommitStore.Store.SortedMap

/-!
# Object stores in memory

A store in memory is a map from the canonical texts of object locations to bytes and the time at
which they were put.  Directories are not kept: one exists as long as some key lies below it, and
its time is the newest below it (`MemoryStore.impliedDirectory?`).  An object `a` and objects below
`a/` may therefore stand side by side.
-/

namespace CommitStore

/-- An object in memory. -/
structure StoredObject where
  content : ByteArray
  lastModified : Instant
  deriving DecidableEq

/-- A store that keeps its objects in memory. -/
@[ext]
structure MemoryStore where
  /-- The objects under the canonical texts of their locations. -/
  objects : SortedMap StoredObject

namespace MemoryStore

/-- The store without objects. -/
def empty : MemoryStore := ⟨.empty⟩

instance : Inhabited MemoryStore := ⟨empty⟩

/-- The number of objects. -/
def size (s : MemoryStore) : Nat := s.objects.size

/-- The number of bytes in all objects. -/
def totalBytes (s : MemoryStore) : Nat :=
  s.objects.entries.foldr (fun entry bytes => entry.2.content.size + bytes) 0

/-- Remove all objects. -/
def clear (_ : MemoryStore) : MemoryStore := empty

/-- The store in one line. -/
def summary (s : MemoryStore) : String :=
  "InMemoryObjectStore \x7b object_count: " ++ String.ofList (Text.decimal s.size) ++ " \x7d"

/-! ## Directories -/

/-- The newest of some instants. -/
def newest? : List Instant → Option Instant
  | [] => none
  | t :: ts => some (ts.foldl Instant.later t)

/-- The directory at a location, if a key lies below it.  The root of the store has no
description. -/
def impliedDirectory? (s : MemoryStore) (location : Location) : Option ObjectMeta :=
  if location.isRoot then none
  else
    (newest? ((s.objects.below location.asDirectory.text).map (·.2.lastModified))).map
      (ObjectMeta.ofDirectory location)

/-- The object at a location; failing that, the directory there as the reason for its absence. -/
def find (s : MemoryStore) (location : Location) : Except StoreError StoredObject :=
  if location.isRoot then .error (.invalidLocation location .storeRoot)
  else
    match s.objects.get? location.text with
    | some object => .ok object
    | none =>
      match s.impliedDirectory? location with
      | some entry => .error (.isDirectory entry)
      | none => .error (.notFound location)

/-! ## Changing the store -/

/-- Put bytes at an object location. -/
def put (s : MemoryStore) (location : Location) (content : ByteArray) (now : Instant) :
    Except StoreError Unit × MemoryStore :=
  if location.isObject then (.ok (), ⟨s.objects.insert location.text ⟨content, now⟩⟩)
  else (.error (.invalidLocation location .notAnObject), s)

/-- Remove the object at a location. -/
def delete (s : MemoryStore) (location : Location) : Except StoreError Unit × MemoryStore :=
  if s.objects.contains location.text then (.ok (), ⟨s.objects.erase location.text⟩)
  else (.error (.deleteFailed location .noObject), s)

/-- Move the object at one location to another object location, whatever is there. -/
def moveOnto (s : MemoryStore) (source target : Location) : Except StoreError Unit × MemoryStore :=
  match s.objects.get? source.text with
  | some object => (.ok (), ⟨(s.objects.erase source.text).insert target.text object⟩)
  | none => (.error (.notFound source), s)

/-- Move an object over whatever is at its destination. -/
def rename (s : MemoryStore) (source target : Location) : Except StoreError Unit × MemoryStore :=
  if target.isObject then s.moveOnto source target
  else (.error (.invalidLocation target .notAnObject), s)

/-- Whether an object or a directory is at a location. -/
def isTaken (s : MemoryStore) (location : Location) : Bool :=
  s.objects.contains location.text || (s.impliedDirectory? location).isSome

/-- Move an object to a location where nothing is.  The destination is looked at first. -/
def claim (s : MemoryStore) (source target : Location) : Except StoreError Unit × MemoryStore :=
  if target.isObject then
    if s.isTaken target then (.error (.alreadyExists target), s) else s.moveOnto source target
  else (.error (.invalidLocation target .notAnObject), s)

/-! ## Listing -/

/-- The beginnings of a text that end with a separator. -/
def directoryTexts : List Char → List (List Char)
  | [] => []
  | c :: rest =>
    let deeper := (directoryTexts rest).map (c :: ·)
    if c = '/' then [c] :: deeper else deeper

/-- The entries below the directory text `start` whose first name below it begins with `name`. -/
def matching (s : MemoryStore) (start : String) (name : String) : List (String × StoredObject) :=
  (s.objects.below start).filter fun entry =>
    name.toList.isPrefixOf ((entry.1.toList.drop start.length).takeWhile (· ≠ '/'))

/-- The texts of the directories between the directory text `start` and some keys below it, and of
`start` itself if `self` holds and there is a key. -/
def listedDirectories (start : String) (self : Bool) (keys : List String) : List String :=
  let between := keys.flatMap fun key =>
    (directoryTexts (key.toList.drop start.length)).map fun d => start ++ String.ofList d
  (if self && !keys.isEmpty then start :: between else between).eraseDups

/-- The descriptions of all objects and directories whose location begins with the text of `query`:
the names right below its directory part are compared with its name part, and everything below the
ones that match belongs to the listing. -/
def list (s : MemoryStore) (query : Location) : List ObjectMeta :=
  let (directory, name) := query.splitLast
  let found := s.matching directory.text name
  let directories :=
    listedDirectories directory.text (!directory.isRoot && name.isEmpty) (found.map (·.1))
  (found.map fun entry =>
      ObjectMeta.ofObject (.ofText entry.1) entry.2.content.size entry.2.lastModified)
    ++ directories.filterMap fun d => s.impliedDirectory? (.ofText d)

instance : ObjectStore MemoryStore where
  put := put
  get s location := (s.find location).map (·.content)
  head s location := (s.find location).map fun object =>
    .ofObject location object.content.size object.lastModified
  delete := delete
  rename := rename
  claim := claim
  list s query := .ok (s.list query)

end MemoryStore

end CommitStore
