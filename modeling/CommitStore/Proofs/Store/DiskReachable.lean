import CommitStore.Proofs.Host.Limits
import CommitStore.Proofs.Store.Presence
import CommitStore.Proofs.Store.Reachable

/-!
# Stores that can be reached

A store in a directory is opened on a host as it happens to be, and operations on any locations
follow; what they lead to has `DiskStore.Reachable`, or `Backend.Reachable` for a store of either
kind.  Whatever the operations do, and however they fail, the host stays one that can really be: no
operation brings a name into its tree that it could not store.
-/

namespace CommitStore

namespace DiskStore

variable {s : DiskStore} {source target l : Location}

/-- The stores that operations on any locations lead to from a sound host. -/
inductive Reachable : DiskStore → Prop
  | opened {s : DiskStore} (h : s.host.Sound) : Reachable s
  | attempt {s : DiskStore} (h : Reachable s) (op : Operation) : Reachable (op.attempt s).2

/-! ## One operation -/

lemma sound_change (hs : s.host.Sound) {result : Except StoreError Host}
    (hresult : ∀ host, result = .ok host → host.Sound) : (s.change result).2.host.Sound := by
  rcases s.change_cases result with ⟨e, -, hfailed⟩ | ⟨host, hok, hchanged⟩
  · rw [hfailed]
    exact hs
  · rw [hchanged]
    exact hresult host hok

lemma sound_put (hs : s.host.Sound) (l : Location) (content : ByteArray) (now : Instant) :
    (s.put l content now).2.host.Sound := by
  rw [put]
  cases s.resolveObject l with
  | error e => exact hs
  | ok path =>
    have hmid := hs.makeParents path
    rw [Host.makeParents] at hmid
    simp only
    split
    · rename_i e mid hmake
      rwa [hmake] at hmid
    · rename_i mid hmake
      rw [hmake] at hmid
      exact sound_change (s := { s with host := mid }) hmid fun host hhost =>
        hmid.writeFile (mapError_eq_ok.mp hhost)

lemma sound_delete (hs : s.host.Sound) (l : Location) : (s.delete l).2.host.Sound :=
  sound_change hs fun host hhost => by
    obtain ⟨path, -, hremove⟩ := exists_of_bind_eq_ok hhost
    exact hs.removeFile (mapError_eq_ok.mp hremove)

lemma sound_rename (hs : s.host.Sound) (source target : Location) :
    (s.rename source target).2.host.Sound :=
  sound_change hs fun host hhost => by
    obtain ⟨sourcePath, -, hhost⟩ := exists_of_bind_eq_ok hhost
    obtain ⟨targetPath, -, hmove⟩ := exists_of_bind_eq_ok hhost
    exact hs.move (mapError_eq_ok.mp hmove)

lemma sound_claimByLink (hs : s.host.Sound) (source target : Location) :
    (s.claimByLink source target).2.host.Sound :=
  sound_change hs fun host hhost => by
    obtain ⟨sourcePath, -, hhost⟩ := exists_of_bind_eq_ok hhost
    obtain ⟨targetPath, -, hhost⟩ := exists_of_bind_eq_ok hhost
    obtain ⟨linked, hlinked, hremove⟩ := exists_of_bind_eq_ok hhost
    have hsound := hs.link (mapError_eq_ok.mp hlinked)
    obtain rfl : (linked.removeFile sourcePath).toOption.getD linked = host := Except.ok.inj hremove
    cases hremoved : linked.removeFile sourcePath with
    | error e => exact hsound
    | ok removed => exact hsound.removeFile hremoved

lemma sound_claim (hs : s.host.Sound) (source target : Location) :
    (s.claim source target).2.host.Sound := by
  rw [claim]
  split
  · exact sound_claimByLink hs source target
  · rcases claimByCheck_effect (s := s) source target with ⟨e, hclaim⟩ | ⟨hclaim, -, -⟩
    all_goals rw [hclaim]
    · exact hs
    · exact sound_rename hs source target

lemma sound_attempt (hs : s.host.Sound) (op : Operation) : (op.attempt s).2.host.Sound := by
  cases op with
  | put location content now => exact sound_put hs location content now
  | delete location => exact sound_delete hs location
  | rename source target => exact sound_rename hs source target
  | claim source target => exact sound_claim hs source target
  | get location | head location | exists? location | list location => exact hs

lemma Reachable.sound (h : s.Reachable) : s.host.Sound := by
  induction h with
  | opened h => exact h
  | attempt h op ih => exact sound_attempt ih op

lemma Reachable.run (h : s.Reachable) (ops : List Operation) : (Operation.run s ops).Reachable := by
  induction ops generalizing s with
  | nil => exact h
  | cons op ops ih => exact ih (h.attempt op)

end DiskStore

/-- The stores of either kind that operations lead to. -/
def Backend.Reachable : Backend → Prop
  | .memory s => s.Reachable
  | .disk s => s.Reachable

end CommitStore
