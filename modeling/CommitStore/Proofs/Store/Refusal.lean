import CommitStore.Proofs.Store.Conservation

/-!
# Refused operations

Deleting, renaming and claiming look before they act: the arguments are checked, what is needed is
looked up, and the last thing that may fail is the change itself, which the host makes as a whole or
not at all.  So an operation that is refused has not begun, whatever the reason, and the two stores
are `Backend.Alike`.  Only putting an object is different, since it may make directories before it
fails.
-/

namespace CommitStore

/-! ## In a directory -/

namespace DiskStore

variable {s : DiskStore} {source target l : Location} {e : StoreError}

lemma change_of_error {result : Except StoreError Host} (h : (s.change result).1 = .error e) :
    (s.change result).2 = s := by
  rcases s.change_cases result with ⟨_, -, hchange⟩ | ⟨host, -, hchange⟩
  · rw [hchange]
  · rw [hchange] at h
    cases h

lemma delete_of_error (h : (s.delete l).1 = .error e) : (s.delete l).2 = s := change_of_error h

lemma rename_of_error (h : (s.rename source target).1 = .error e) :
    (s.rename source target).2 = s :=
  change_of_error h

/-- A claim that looks first is refused before anything is moved, or the move is refused. -/
lemma claimByCheck_of_error (h : (s.claimByCheck source target).1 = .error e) :
    (s.claimByCheck source target).2 = s := by
  rcases claimByCheck_effect (s := s) source target with ⟨_, hrefused⟩ | ⟨hmoves, -, -⟩
  · rw [hrefused]
  · rw [hmoves] at h ⊢
    exact rename_of_error h

/-- A claim whose link was made does not fail any more. -/
lemma claim_leaves_of_error (h : (s.claim source target).1 = .error e) :
    (s.claim source target).2 = s := by
  rw [claim] at h ⊢
  cases hstrategy : s.strategy with
  | hardLink =>
    rw [hstrategy] at h
    exact change_of_error h
  | checkThenRename =>
    rw [hstrategy] at h
    exact claimByCheck_of_error h

end DiskStore

/-! ## In memory -/

namespace MemoryStore

variable {s : MemoryStore} {source target l : Location} {e : StoreError}

lemma delete_of_error (h : (s.delete l).1 = .error e) : (s.delete l).2 = s := by
  rw [delete] at h ⊢
  split at h
  · cases h
  · rename_i hmissing
    rw [if_neg hmissing]

lemma moveOnto_of_error (h : (s.moveOnto source target).1 = .error e) :
    (s.moveOnto source target).2 = s := by
  rw [moveOnto] at h ⊢
  cases hobject : s.objects.get? source.text with
  | none => rfl
  | some object =>
    rw [hobject] at h
    cases h

lemma rename_of_error (h : (s.rename source target).1 = .error e) :
    (s.rename source target).2 = s := by
  rw [rename] at h ⊢
  by_cases hobject : target.isObject = true
  · rw [if_pos hobject] at h ⊢
    exact moveOnto_of_error h
  · rw [if_neg hobject]

/-- The destination of a claim is looked at before the source is moved. -/
lemma claim_leaves_of_error (h : (s.claim source target).1 = .error e) :
    (s.claim source target).2 = s := by
  rw [claim] at h ⊢
  by_cases hobject : target.isObject = true
  · rw [if_pos hobject] at h ⊢
    by_cases htaken : s.isTaken target = true
    · rw [if_pos htaken]
    · rw [if_neg htaken] at h ⊢
      exact moveOnto_of_error h
  · rw [if_neg hobject]

end MemoryStore

/-! ## In a store of either kind -/

namespace Backend

variable {b : Backend} {op : Operation} {e : StoreError}

/-- Two stores hold the same objects, give the same answers about every location, and leave the same
host. -/
structure Alike (b b' : Backend) : Prop where
  stored : b'.stored = b.stored
  object : ∀ l content, b'.HasObject l content ↔ b.HasObject l content
  get : ∀ l, ObjectStore.get b' l = ObjectStore.get b l
  head : ∀ l, ObjectStore.head b' l = ObjectStore.head b l
  list : ∀ query, ObjectStore.list b' query = ObjectStore.list b query
  host : ∀ host, b'.hostAfter host = b.hostAfter host

lemma Alike.refl (b : Backend) : b.Alike b :=
  ⟨rfl, fun _ _ => .rfl, fun _ => rfl, fun _ => rfl, fun _ => rfl, fun _ => rfl⟩

lemma attempt_of_error (hput : op.isPut = false) (h : (op.attempt b).1 = .error e) :
    (op.attempt b).2 = b := by
  cases op with
  | put location content now => cases hput
  | get location | head location | exists? location | list location => rfl
  | delete location =>
    cases b with
    | memory s => exact congrArg memory (MemoryStore.delete_of_error h)
    | disk s => exact congrArg disk (DiskStore.delete_of_error h)
  | rename source target =>
    cases b with
    | memory s => exact congrArg memory (MemoryStore.rename_of_error h)
    | disk s => exact congrArg disk (DiskStore.rename_of_error h)
  | claim source target =>
    cases b with
    | memory s => exact congrArg memory (MemoryStore.claim_leaves_of_error h)
    | disk s => exact congrArg disk (DiskStore.claim_leaves_of_error h)

/-- An operation that is refused, for whatever reason, leaves every object and every answer as it
was, unless it was to put an object. -/
theorem refused_leaves_alike (hput : op.isPut = false) (h : (op.attempt b).1 = .error e) :
    b.Alike (op.attempt b).2 := by
  rw [attempt_of_error hput h]
  exact .refl b

/-- To move the directory `d` below itself passes the look at the destination, and then the host
refuses. -/
theorem sampleOfClaims_alike :
    ((Operation.claim (.ofText "d") (.ofText "d/y")).attempt sampleOfClaims).1 =
        .error (.notFound (.ofText "d")) ∧
      sampleOfClaims.Alike
        ((Operation.claim (.ofText "d") (.ofText "d/y")).attempt sampleOfClaims).2 :=
  have hrefused : ((Operation.claim (.ofText "d") (.ofText "d/y")).attempt sampleOfClaims).1 =
      .error (.notFound (.ofText "d")) := by decide +kernel
  ⟨hrefused, refused_leaves_alike rfl hrefused⟩

end Backend

end CommitStore
