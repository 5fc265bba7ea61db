import CommitStore.Config.Backend
import CommitStore.Store.Memory

/-!
# Stores of either kind

A configuration opens a store in memory or in a directory, and the store is then used without
looking at its kind.
-/

namespace CommitStore

/-- An object store of either kind. -/
inductive Backend
  | memory (store : MemoryStore)
  | disk (store : DiskStore)

namespace Backend

/-- The store that a configuration names, without a look at the host.  `stamp` is the time that a
store in a directory reports. -/
def ofConfig (config : StoreConfig) (host : Host) (stamp : Instant) : Backend :=
  match config with
  | .memory => .memory .empty
  | .disk root strategy => .disk ⟨host, root, strategy, stamp⟩

/-- The store that a configuration chooses.  The root directory may be missing but must be neither
the empty path nor something other than a directory. -/
def openChecked (config : StoreConfig) (host : Host) (stamp : Instant) :
    Except StoreError Backend :=
  match config with
  | .memory => .ok (ofConfig config host stamp)
  | .disk root _ =>
    if root.text = "" then .error (.badConfig .empty)
    else if host.isPresent root ∧ ¬host.isFolder root then
      .error (.badConfig (.notDirectory root.text))
    else .ok (ofConfig config host stamp)

/-- The store on another host. -/
def onHost (host : Host) : Backend → Backend
  | .memory store => .memory store
  | .disk store => .disk { store with host }

/-- The host after what was done to the store; `host` for a store in memory. -/
def hostAfter (host : Host) : Backend → Host
  | .memory _ => host
  | .disk store => store.host

/-- Do something to the store of whichever kind. -/
def change {α : Type} (b : Backend) (onMemory : MemoryStore → α × MemoryStore)
    (onDisk : DiskStore → α × DiskStore) : α × Backend :=
  match b with
  | .memory store =>
    let (result, store) := onMemory store
    (result, .memory store)
  | .disk store =>
    let (result, store) := onDisk store
    (result, .disk store)

instance : ObjectStore Backend where
  put b location content now :=
    b.change (ObjectStore.put · location content now) (ObjectStore.put · location content now)
  get
    | .memory store, location => ObjectStore.get store location
    | .disk store, location => ObjectStore.get store location
  head
    | .memory store, location => ObjectStore.head store location
    | .disk store, location => ObjectStore.head store location
  delete b location := b.change (ObjectStore.delete · location) (ObjectStore.delete · location)
  rename b source target :=
    b.change (ObjectStore.rename · source target) (ObjectStore.rename · source target)
  claim b source target :=
    b.change (ObjectStore.claim · source target) (ObjectStore.claim · source target)
  list
    | .memory store, location => ObjectStore.list store location
    | .disk store, location => ObjectStore.list store location

end Backend

end CommitStore
