import CommitStore.Store.Error

/-!
# Object stores

An object store keeps byte sequences under locations.  An operation that changes the store gives its
outcome together with the store after it; what a failed operation leaves behind is part of the
answer.

The one operation that several writers may rely on is `claim`: it moves an object to a location only
if nothing is there, so of several writers that claim one location a single one succeeds.
-/

namespace CommitStore

/-- The operations of an object store. -/
class ObjectStore (σ : Type) where
  /-- Store bytes at a location, over an object that is there, at the given time. -/
  put : σ → Location → ByteArray → Instant → Except StoreError Unit × σ
  /-- The bytes of an object. -/
  get : σ → Location → Except StoreError ByteArray
  /-- The description of an object; a directory is refused with its description. -/
  head : σ → Location → Except StoreError ObjectMeta
  /-- Remove an object. -/
  delete : σ → Location → Except StoreError Unit × σ
  /-- Move an object from the first location to the second, over an object that is there. -/
  rename : σ → Location → Location → Except StoreError Unit × σ
  /-- Move an object from the first location to the second only if nothing is there. -/
  claim : σ → Location → Location → Except StoreError Unit × σ
  /-- The descriptions of all objects and directories whose location begins with the text of the
  given one, in no particular order. -/
  list : σ → Location → Except StoreError (List ObjectMeta)

namespace ObjectStore

variable {σ : Type} [ObjectStore σ]

/-- Whether an object or a directory is at the location. -/
def exists? (store : σ) (location : Location) : Except StoreError Bool :=
  match head store location with
  | .ok _ => .ok true
  | .error (.isDirectory _) => .ok true
  | .error (.notFound _) => .ok false
  | .error e => .error e

/-- The order in which listings are shown: by location. -/
def comesBefore (a b : ObjectMeta) : Bool := a.location.text ≤ b.location.text

/-- A listing in the order in which it is shown. -/
def sortedList (store : σ) (location : Location) : Except StoreError (List ObjectMeta) :=
  (list store location).map (·.mergeSort comesBefore)

end ObjectStore

end CommitStore
