import CommitStore.Proofs.Store.DiskEffect
import CommitStore.Proofs.Store.MemoryView
import CommitStore.Store.Backend
import Mathlib.Control.Monad.Basic

/-!
# When a claim finds its target taken

A claim should be refused with `alreadyExists` exactly when something is at its target.  A store in
memory and a store that looks before it moves do so whatever the source is.  A store that claims by
linking asks the host first whether the source is there, so with a missing source it reports that
instead.  The exact condition is `Backend.claim_eq_alreadyExists_iff`.
-/

namespace CommitStore

/-! ## In a directory -/

namespace DiskStore

variable {s : DiskStore} {source target l : Location}

/-- A claim by a link is refused when the place of the link is occupied. -/
lemma claimByLink_refused_iff_link (hsourceObject : source.isObject = true)
    (htargetObject : target.isObject = true) (hsource : s.Admits source)
    (htarget : s.Admits target) :
    (s.claimByLink source target).1 = .error (.alreadyExists target) ↔
      s.host.link (s.path source) (s.path target) = .error .occupied := by
  have hclaim : s.claimByLink source target = s.change (do
      let linked ← (s.host.link (s.path source) (s.path target)).mapError (claimError source target)
      return (linked.removeFile (s.path source)).toOption.getD linked) := by
    rw [claimByLink, resolveObject_eq hsourceObject hsource.no_parent,
      resolveObject_eq htargetObject htarget.no_parent]
    rfl
  rw [hclaim]
  cases s.host.link (s.path source) (s.path target) with
  | error e => cases e <;> simp [change, claimError, Except.mapError, bind, Except.bind]
  | ok linked => simp [change, Except.mapError, bind, Except.bind, pure, Except.pure]

/-- In a directory the place of a link is occupied when something is there. -/
lemma link_occupied_iff {found : List String} {node : Node} (htarget : s.Admits target)
    (hopen : s.IsOpen) (hlocate : s.host.locate (s.path source) = .ok (found, node))
    (hparent : s.view target.names.dropLast = some .folder) :
    s.host.link (s.path source) (s.path target) = .error .occupied ↔
      s.view target.names ≠ none := by
  have hresolves := resolves_path htarget hparent
  have hview : s.view target.names = s.host.layout (s.host.goal (s.path target)) := by
    rw [goal_path htarget.no_parent, view_of_isOpen hopen]
  by_cases htaken : s.view target.names = none
  · have hfree : s.host.layout (s.host.goal (s.path target)) = none := hview ▸ htaken
    cases node with
    | folder entries =>
      rw [Host.link_of_folder hresolves hlocate hfree]
      simp [htaken]
    | file content =>
      obtain ⟨written, hwritten⟩ := Host.writeFile_of_resolves hresolves content (by simp [hfree])
      rw [Host.link_of_free hresolves hlocate hfree, hwritten]
      simp [htaken]
  · rw [Host.link_of_taken hresolves hlocate (hview ▸ htaken)]
    simp [htaken]

/-- An object is linked only from what is there to where nothing is, and what is there is looked at
first. -/
lemma claimByLink_refused_iff (hsourceObject : source.isObject = true)
    (htargetObject : target.isObject = true) (hsource : s.Admits source)
    (htarget : s.Admits target) :
    (s.claimByLink source target).1 = .error (.alreadyExists target) ↔
      s.view source.names ≠ none ∧ s.view target.names ≠ none := by
  rw [claimByLink_refused_iff_link hsourceObject htargetObject hsource htarget]
  have hnul := htarget.fits.1
  by_cases hthere : s.view source.names = none
  · obtain ⟨e, habsent, hlocate⟩ := locate_of_view_none hsource hthere
    have hne : e ≠ .occupied := by
      rcases habsent with rfl | rfl <;> simp
    simp [Host.link, hnul, hlocate, hthere, hne, bind, Except.bind]
  obtain ⟨node, hlocate, -⟩ := locate_of_view hsource hthere
  by_cases hparent : s.view target.names.dropLast = some .folder
  · rw [link_occupied_iff htarget (isOpen_of_view hthere) hlocate hparent, and_iff_right hthere]
  · -- Nothing stands where there is no directory to hold it.
    obtain ⟨e, habsent, hplace⟩ := place_path_error htarget hparent
    have hne : e ≠ .occupied := by
      rcases habsent with rfl | rfl <;> simp
    have hfree : s.view target.names = none := by
      by_contra htaken
      exact hparent (view_dropLast htarget htaken)
    simp [Host.link, hnul, hlocate, hplace, hfree, hne, bind, Except.bind]

lemma rename_ne_alreadyExists (s : DiskStore) (source target l : Location) :
    (s.rename source target).1 ≠ .error (.alreadyExists l) := by
  rw [rename]
  unfold resolve
  cases source.hasParentName with
  | true => simp [change, bind, Except.bind]
  | false =>
    cases target.hasParentName with
    | true => simp [change, bind, Except.bind]
    | false =>
      simp only [Bool.false_eq_true, if_false, bind, Except.bind]
      generalize s.host.move _ _ = moved
      cases moved <;> simp [change, Except.mapError]

/-- A claim with a check looks at its target first. -/
lemma claimByCheck_refused_iff (htargetObject : target.isObject = true)
    (htarget : s.Admits target) :
    (s.claimByCheck source target).1 = .error (.alreadyExists target) ↔
      s.view target.names ≠ none := by
  rw [claimByCheck, resolveObject_eq htargetObject htarget.no_parent]
  by_cases hfree : s.view target.names = none
  · have hhead : s.head target = .error (.notFound target) := by rw [head_eq htarget, hfree]
    simp [hhead, hfree, rename_ne_alreadyExists]
  · obtain ⟨entry, hentry⟩ := Option.ne_none_iff_exists'.mp hfree
    have hhead := head_eq htarget
    rw [hentry] at hhead
    cases entry <;> simp [hhead, hentry]

lemma claim_refused_iff (hsourceObject : source.isObject = true)
    (htargetObject : target.isObject = true) (hsource : s.Admits source)
    (htarget : s.Admits target) :
    (s.claim source target).1 = .error (.alreadyExists target) ↔
      s.view target.names ≠ none ∧ (s.strategy = .hardLink → s.view source.names ≠ none) := by
  rw [claim]
  cases s.strategy with
  | hardLink =>
    rw [claimByLink_refused_iff hsourceObject htargetObject hsource htarget]
    simp [and_comm]
  | checkThenRename =>
    rw [claimByCheck_refused_iff htargetObject htarget]
    simp

lemma claim_of_error {e : StoreError} (h : (s.claim source target).1 = .error e) :
    (s.claim source target).2 = s := by
  have hchange : ∀ result : Except StoreError Host, (s.change result).1 = .error e →
      (s.change result).2 = s := by
    intro result hresult
    rcases s.change_cases result with ⟨e', -, hfailed⟩ | ⟨host, -, hok⟩
    · rw [hfailed]
    · rw [hok] at hresult
      cases hresult
  rw [claim] at h ⊢
  split at h
  · exact hchange _ h
  · rcases claimByCheck_effect (s := s) source target with ⟨e', hclaim⟩ | ⟨hclaim, -, -⟩
    · rw [hclaim]
    · rw [hclaim] at h ⊢
      exact hchange _ h

lemma exists?_eq_true_iff (hl : s.Admits l) :
    ObjectStore.exists? s l = .ok true ↔ s.view l.names ≠ none := by
  have hhead : ObjectStore.head s l = _ := head_eq hl
  rw [ObjectStore.exists?, hhead]
  cases s.view l.names with
  | none => simp
  | some entry => cases entry <;> simp

end DiskStore

/-! ## In memory -/

namespace MemoryStore

variable {s : MemoryStore} {source target l : Location}

lemma moveOnto_ne_alreadyExists (s : MemoryStore) (source target l : Location) :
    (s.moveOnto source target).1 ≠ .error (.alreadyExists l) := by
  rw [moveOnto]
  cases s.objects.get? source.text <;> simp

/-- A claim in memory looks at its target first. -/
lemma claim_refused_iff (htarget : target.isObject = true) :
    (s.claim source target).1 = .error (.alreadyExists target) ↔ s.isTaken target = true := by
  rw [claim, if_pos htarget]
  cases s.isTaken target <;> simp [moveOnto_ne_alreadyExists]

lemma claim_of_error {e : StoreError} (h : (s.claim source target).1 = .error e) :
    (s.claim source target).2 = s := by
  revert h
  rw [claim, moveOnto]
  split
  · split
    · exact fun _ => rfl
    · split
      · exact fun h => absurd h (by simp)
      · exact fun _ => rfl
  · exact fun _ => rfl

lemma exists?_eq_true_iff (hl : l.isRoot = false) :
    ObjectStore.exists? s l = .ok true ↔ s.isTaken l = true := by
  have hhead : ObjectStore.head s l = (s.find l).map fun object =>
      .ofObject l object.content.size object.lastModified := rfl
  rw [ObjectStore.exists?, hhead, find_eq hl, isTaken, SortedMap.contains_eq_isSome]
  cases s.objects.get? l.text with
  | some object => simp [Except.map]
  | none => cases s.impliedDirectory? l <;> simp [Except.map]

end MemoryStore

/-! ## In a store of either kind -/

namespace Backend

variable {b : Backend} {source target l : Location}

/-- An object location that a store can use: in a directory it holds no `..` and is within the
limits of the host. -/
structure Admits (b : Backend) (l : Location) : Prop where
  isObject : l.isObject = true
  onDisk : ∀ s, b = .disk s → s.Admits l

/-- The store is in a directory and claims by linking. -/
def ClaimsByLink : Backend → Prop
  | .memory _ => False
  | .disk s => s.strategy = .hardLink

/-- A claim is refused as `alreadyExists` exactly when something is at its target and, if the store
claims by linking, something is at its source as well. -/
theorem claim_eq_alreadyExists_iff (hsource : b.Admits source) (htarget : b.Admits target) :
    (ObjectStore.claim b source target).1 = .error (.alreadyExists target) ↔
      ObjectStore.exists? b target = .ok true ∧
        (b.ClaimsByLink → ObjectStore.exists? b source = .ok true) := by
  cases b with
  | memory s =>
    have hexists : ObjectStore.exists? (memory s) target = ObjectStore.exists? s target := rfl
    have hclaim : (ObjectStore.claim (memory s) source target).1 = (s.claim source target).1 := rfl
    rw [hexists, hclaim, MemoryStore.claim_refused_iff htarget.isObject,
      MemoryStore.exists?_eq_true_iff (Location.isRoot_of_isObject htarget.isObject)]
    simp [ClaimsByLink]
  | disk s =>
    have hexists : ∀ l, ObjectStore.exists? (disk s) l = ObjectStore.exists? s l := fun _ => rfl
    have hclaim : (ObjectStore.claim (disk s) source target).1 = (s.claim source target).1 := rfl
    rw [hexists, hexists, hclaim, DiskStore.exists?_eq_true_iff (htarget.onDisk s rfl),
      DiskStore.exists?_eq_true_iff (hsource.onDisk s rfl),
      DiskStore.claim_refused_iff hsource.isObject htarget.isObject (hsource.onDisk s rfl)
        (htarget.onDisk s rfl)]
    rfl

/-- A store in the directory `t` that claims by linking and holds the object `b`. -/
def linkingSample : Backend :=
  (ObjectStore.put (disk ⟨.bare ["w"], ⟨"t"⟩, .hardLink, .epoch⟩) (.ofText "b") ⟨#[1]⟩ .epoch).2

theorem linkingSample_claim_taken :
    (ObjectStore.claim linkingSample (.ofText "b") (.ofText "b")).1 =
        .error (.alreadyExists (.ofText "b")) ↔
      ObjectStore.exists? linkingSample (.ofText "b") = .ok true ∧
        (linkingSample.ClaimsByLink → ObjectStore.exists? linkingSample (.ofText "b") = .ok true) :=
  claim_eq_alreadyExists_iff
    ⟨by decide, by rintro s ⟨⟩; decide +kernel⟩
    ⟨by decide, by rintro s ⟨⟩; decide +kernel⟩

/-- With a missing source, a link to a taken place is refused for the source. -/
theorem claim_verdict_depends_on_source :
    ObjectStore.exists? linkingSample (.ofText "b") = .ok true ∧
      (ObjectStore.claim linkingSample (.ofText "missing") (.ofText "b")).1 =
        .error (.notFound (.ofText "missing")) := by
  decide +kernel

end Backend

end CommitStore
