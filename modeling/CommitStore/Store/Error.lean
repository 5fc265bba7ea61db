import CommitStore.Store.ObjectMeta

/-!
# Why a store refuses

Every way in which an operation on a store can fail, with its message.  Where the host refused, its
own error lies behind the failure as well.  That one is for diagnostics only: it is shown below the
message and decides nothing, so it is not kept here.
-/

namespace CommitStore

/-- Why a location cannot be mapped onto a store. -/
inductive LocationFault
  /-- An object was asked for, and the location is the root or is written as a directory. -/
  | notAnObject
  /-- A name is `..`, which would lead out of the store. -/
  | parentName
  /-- The root of the store was asked for, and it is no object. -/
  | storeRoot
  deriving DecidableEq

/-- Why an object could not be deleted. -/
inductive DeleteFault
  /-- No object is there. -/
  | noObject
  /-- The host refused. -/
  | host
  deriving DecidableEq

/-- Why a configured store cannot be opened. -/
inductive RootFault
  /-- The root directory is the empty path. -/
  | empty
  /-- There is something at the root directory that is not a directory. -/
  | notDirectory (root : String)
  deriving DecidableEq

/-- The ways in which a store operation fails.  The errors of the host that lie behind `notFound`,
`deleteFailed`, `listFailed` and `hostFailed` are diagnostics and left out. -/
inductive StoreError
  /-- Nothing is stored at the location. -/
  | notFound (location : Location)
  /-- The location is a directory, which is described. -/
  | isDirectory (entry : ObjectMeta)
  /-- The destination of a claim is taken. -/
  | alreadyExists (location : Location)
  | deleteFailed (location : Location) (fault : DeleteFault)
  | listFailed (location : Location)
  | invalidLocation (location : Location) (fault : LocationFault)
  /-- The host refused to read or write. -/
  | hostFailed (location : Location)
  /-- The store is not configured properly. -/
  | badConfig (fault : RootFault)
  deriving DecidableEq

/-- The reason in words. -/
def LocationFault.message : LocationFault → String
  | .notAnObject => "expected an object location, got a directory"
  | .parentName => "parent directory components are not allowed"
  | .storeRoot => "the store root is not an object"

/-- The reason in words. -/
def RootFault.message : RootFault → String
  | .empty => "local store root is empty"
  | .notDirectory root => "local store root " ++ root ++ " is not a directory"

namespace StoreError

/-- The message of a failure. -/
def message : StoreError → String
  | .notFound location => "object does not exist: " ++ location.text
  | .isDirectory entry => "object is a directory: " ++ entry.location.text
  | .alreadyExists location =>
    "version already exists: object at " ++ location.text ++ " already exists"
  | .deleteFailed location _ => "failed to delete object " ++ location.text
  | .listFailed location => "failed to list objects under '" ++ location.text ++ "'"
  | .invalidLocation location fault =>
    "invalid path '" ++ location.text ++ "': " ++ fault.message
  | .hostFailed location => "I/O error on " ++ location.text
  | .badConfig fault => "invalid store configuration: " ++ fault.message

/-- What lies behind a failure, where the store itself knows it. -/
def cause? : StoreError → Option String
  | .deleteFailed _ .noObject => some "no object at location"
  | _ => none

/-- Whether nothing is stored at the location. -/
def isNotFound : StoreError → Bool
  | .notFound _ => true
  | _ => false

/-- Whether a claim was lost to what is already there. -/
def isConflict : StoreError → Bool
  | .alreadyExists _ => true
  | _ => false

/-- The directory that was found in place of an object. -/
def directory? : StoreError → Option ObjectMeta
  | .isDirectory entry => some entry
  | _ => none

end StoreError

end CommitStore
