import CommitStore.Location.Json
import CommitStore.Time.Rfc3339

/-!
# What a store tells about an object

Looking at an object and listing a store give its location, its size in bytes and the time at which
it was last written.  A directory is described in the same way, with a directory's location and the
size zero.
-/

namespace CommitStore

/-- The description of an object or of a directory. -/
@[ext]
structure ObjectMeta where
  location : Location
  /-- The size in bytes; zero for a directory. -/
  size : Nat
  lastModified : Instant
  deriving DecidableEq

namespace ObjectMeta

/-- The description of an object. -/
def ofObject (location : Location) (size : Nat) (lastModified : Instant) : ObjectMeta :=
  ⟨location, size, lastModified⟩

/-- The description of a directory. -/
def ofDirectory (location : Location) (lastModified : Instant) : ObjectMeta :=
  ⟨location.asDirectory, 0, lastModified⟩

/-- Whether a directory is described. -/
def isDirectory (m : ObjectMeta) : Bool := m.location.directory

/-- The JSON object of a description. -/
def toJson (m : ObjectMeta) : Json :=
  .ofMembers [("location", m.location.toJson), ("size", .ofNat m.size),
    ("last_modified", .ofString (String.ofList m.lastModified.write))]

/-- The description that a JSON value denotes.  The size has to fit into 64 bits. -/
def ofJson? (value : Json) : Option ObjectMeta := do
  match ← value.fields? ["location", "size", "last_modified"] with
  | [some location, some size, some lastModified] =>
    let location ← Location.ofJson? location
    let size ← size.intWithin? 0 (UInt64.size - 1 : Nat)
    let lastModified ← lastModified.text?
    let lastModified ← Instant.read? lastModified.toList
    return ⟨location, size.toNat, lastModified⟩
  | _ => none

end ObjectMeta

end CommitStore
