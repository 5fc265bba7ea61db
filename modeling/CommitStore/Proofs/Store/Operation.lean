import CommitStore.Proofs.Store.Verdict

/-!
# Operations as data

A history of a store is a list of operations, each an `Operation` with its outcome
`Operation.attempt`.  An operation changes what stands at the locations it touches and below them,
and nothing else, except that putting an object in a directory may make the directories above it
(`DiskStore.attempt_effect`).
-/

namespace CommitStore

/-- A call of an operation of an object store. -/
inductive Operation
  | put (location : Location) (content : ByteArray) (now : Instant)
  | get (location : Location)
  | head (location : Location)
  | exists? (location : Location)
  | list (location : Location)
  | delete (location : Location)
  | rename (source target : Location)
  | claim (source target : Location)

namespace Operation

/-- Whether an operation succeeds, and the store after it. -/
def attempt {σ : Type} [ObjectStore σ] (store : σ) : Operation → Except StoreError Unit × σ
  | put location content now => ObjectStore.put store location content now
  | get location => ((ObjectStore.get store location).map fun _ => (), store)
  | head location => ((ObjectStore.head store location).map fun _ => (), store)
  | exists? location => ((ObjectStore.exists? store location).map fun _ => (), store)
  | list location => ((ObjectStore.list store location).map fun _ => (), store)
  | delete location => ObjectStore.delete store location
  | rename source target => ObjectStore.rename store source target
  | claim source target => ObjectStore.claim store source target

/-- The store after some operations, one after the other. -/
def run {σ : Type} [ObjectStore σ] (store : σ) (ops : List Operation) : σ :=
  ops.foldl (fun store op => (op.attempt store).2) store

lemma run_concat {σ : Type} [ObjectStore σ] (store : σ) (ops : List Operation) (op : Operation) :
    run store (ops ++ [op]) = (op.attempt (run store ops)).2 := by
  simp [run]

/-- The locations at which an operation may change something. -/
def touched : Operation → List Location
  | put location _ _ => [location]
  | delete location => [location]
  | rename source target => [source, target]
  | claim source target => [source, target]
  | get _ | head _ | exists? _ | list _ => []

/-- Whether an operation puts an object; no other one makes directories. -/
def isPut : Operation → Bool
  | put _ _ _ => true
  | _ => false

end Operation

/-! ## On the host -/

namespace DiskStore

variable {s s' : DiskStore} {source target : Location}

/-- The store `s'` continues `s`, and whatever changed is at or below one of some locations or is a
new directory on the way to one of them. -/
structure Changes (s s' : DiskStore) (touched : List Location) : Prop where
  continues : s.Continues s'
  layout : ∀ names, (∀ l ∈ touched, ¬ s.base ++ l.names <+: names) →
    s'.host.layout names = s.host.layout names ∨
      (s.host.layout names = none ∧ s'.host.layout names = some .folder ∧
        (names ∈ s.rootRoute ∨ ∃ l ∈ touched, ∃ front, front <+: l.names ∧ names = s.base ++ front))

/-- The store `s'` continues `s`, and whatever changed is at or below one of some locations. -/
structure ChangesOnly (s s' : DiskStore) (touched : List Location) : Prop where
  continues : s.Continues s'
  layout : ∀ names, (∀ l ∈ touched, ¬ s.base ++ l.names <+: names) →
    s'.host.layout names = s.host.layout names

lemma ChangesOnly.refl (s : DiskStore) (touched : List Location) : s.ChangesOnly s touched :=
  ⟨.refl s, fun _ _ => rfl⟩

lemma ChangesOnly.changes {touched : List Location} (h : s.ChangesOnly s' touched) :
    s.Changes s' touched :=
  ⟨h.continues, fun names hnames => .inl (h.layout names hnames)⟩

lemma changesOnly_of_becomes {host : Host} {layout : Layout} {touched : List Location}
    (hbecomes : s.host.Becomes host layout)
    (hlayout : ∀ names, (∀ l ∈ touched, ¬ s.base ++ l.names <+: names) →
      layout names = s.host.layout names) : s.ChangesOnly { s with host } touched :=
  ⟨.of_becomes hbecomes, fun names hnames => hbecomes.layout ▸ hlayout names hnames⟩

lemma changes_put (s : DiskStore) (l : Location) (content : ByteArray) (now : Instant) :
    s.Changes (s.put l content now).2 [l] := by
  rcases s.put_effect l content now with ⟨e, hput⟩ | ⟨-, hparent, mid, hgrows, heffect⟩
  · rw [hput]
    exact (ChangesOnly.refl s _).changes
  have hmid : ∀ names, mid.layout names = s.host.layout names ∨
      (s.host.layout names = none ∧ mid.layout names = some .folder ∧
        (names ∈ s.rootRoute ∨ ∃ k ∈ [l], ∃ front, front <+: k.names ∧
          names = s.base ++ front)) := by
    intro names
    refine (hgrows.layout names).imp_right fun ⟨hnone, hfolder, hmem⟩ => ⟨hnone, hfolder, ?_⟩
    rw [mem_route_path hparent] at hmem
    exact hmem.imp_right fun hfront => ⟨l, List.mem_singleton_self l, hfront⟩
  rcases heffect with ⟨e, hput⟩ | ⟨host, hput, -, -, hbecomes⟩
  · rw [hput]
    exact ⟨.of_grows hgrows, fun names _ => hmid names⟩
  · rw [hput]
    refine ⟨(Continues.of_grows hgrows).becomes hbecomes, fun names hnames => ?_⟩
    rw [hbecomes.layout, Layout.plant_elsewhere (hnames l (List.mem_singleton_self l))]
    exact hmid names

lemma changesOnly_delete (hwf : s.host.tree.WellFormed) (l : Location) :
    s.ChangesOnly (s.delete l).2 [l] := by
  rcases delete_effect hwf l with ⟨e, hdelete⟩ | ⟨host, hdelete, -, -, -, hbecomes⟩
  all_goals rw [hdelete]
  · exact .refl s _
  · refine changesOnly_of_becomes hbecomes fun names hnames => ?_
    rw [Layout.clear_elsewhere (hnames l (List.mem_singleton_self l))]

lemma changesOnly_rename (hwf : s.host.tree.WellFormed) (source target : Location) :
    s.ChangesOnly (s.rename source target).2 [source, target] := by
  rcases rename_effect hwf source target with ⟨e, hrename⟩ | ⟨host, hrename, -, -, -, hmoves⟩
  all_goals rw [hrename]
  · exact .refl s _
  · rcases hmoves with ⟨-, -, rfl⟩ | ⟨-, hbecomes⟩
    · exact .refl s _
    · refine changesOnly_of_becomes hbecomes fun names hnames => ?_
      rw [Layout.plant_elsewhere (hnames target (by simp)),
        Layout.clear_elsewhere (hnames source (by simp))]

lemma changesOnly_claim (hwf : s.host.tree.WellFormed) (source target : Location) :
    s.ChangesOnly (s.claim source target).2 [source, target] := by
  rw [claim]
  cases s.strategy with
  | hardLink =>
    simp only
    rcases claimByLink_effect hwf source target with
      ⟨e, hclaim⟩ | ⟨host, linked, content, hclaim, -, -, -, -, -, -, -, hlinked, hremoved⟩
    all_goals rw [hclaim]
    · exact .refl s _
    · rcases hremoved with hremoved | ⟨-, rfl⟩
      · refine changesOnly_of_becomes (hlinked.trans hremoved) fun names hnames => ?_
        rw [Layout.clear_elsewhere (hnames source (by simp)), hlinked.layout,
          Layout.plant_elsewhere (hnames target (by simp))]
      · refine changesOnly_of_becomes hlinked fun names hnames => ?_
        rw [Layout.plant_elsewhere (hnames target (by simp))]
  | checkThenRename =>
    simp only
    rcases claimByCheck_effect (s := s) source target with ⟨e, hclaim⟩ | ⟨hclaim, -, -⟩
    all_goals rw [hclaim]
    · exact .refl s _
    · exact changesOnly_rename hwf source target

/-- An operation other than `put` changes nothing away from the locations it touches. -/
lemma changesOnly_attempt (hwf : s.host.tree.WellFormed) {op : Operation}
    (hput : op.isPut = false) : s.ChangesOnly (op.attempt s).2 op.touched := by
  cases op with
  | put location content now => cases hput
  | delete location => exact changesOnly_delete hwf location
  | rename source target => exact changesOnly_rename hwf source target
  | claim source target => exact changesOnly_claim hwf source target
  | get location | head location | exists? location | list location => exact .refl s _

/-- An operation changes nothing away from the locations it touches, but for new directories on the
way to them. -/
lemma attempt_effect (hwf : s.host.tree.WellFormed) (op : Operation) :
    s.Changes (op.attempt s).2 op.touched := by
  cases hput : op.isPut with
  | false => exact (changesOnly_attempt hwf hput).changes
  | true =>
    cases op with
    | put location content now => exact changes_put s location content now
    | _ => cases hput

lemma continues_attempt (hwf : s.host.tree.WellFormed) (op : Operation) :
    s.Continues (op.attempt s).2 :=
  (attempt_effect hwf op).continues

lemma continues_run (hwf : s.host.tree.WellFormed) (ops : List Operation) :
    s.Continues (Operation.run s ops) := by
  induction ops generalizing s with
  | nil => exact .refl s
  | cons op ops ih =>
    have hstep := continues_attempt hwf op
    exact hstep.trans (ih (hstep.wellFormed hwf))

end DiskStore

/-! ## In memory -/

namespace MemoryStore

variable {s : MemoryStore}

lemma get?_moveOnto {source target : Location} {key : String} (hsource : source.text ≠ key)
    (htarget : target.text ≠ key) :
    (s.moveOnto source target).2.objects.get? key = s.objects.get? key := by
  rw [moveOnto]
  cases s.objects.get? source.text with
  | none => rfl
  | some object =>
    simp [SortedMap.get?_insert, SortedMap.get?_erase, hsource, htarget]

/-- An operation changes no key but those of the locations it touches. -/
lemma get?_attempt {op : Operation} {key : String} (hkey : ∀ l ∈ op.touched, l.text ≠ key) :
    (op.attempt s).2.objects.get? key = s.objects.get? key := by
  cases op with
  | put location content now =>
    have hne := hkey location (List.mem_singleton_self _)
    show (s.put location content now).2.objects.get? key = _
    rw [put]
    split
    · simp [SortedMap.get?_insert, hne]
    · rfl
  | delete location =>
    have hne := hkey location (List.mem_singleton_self _)
    show (s.delete location).2.objects.get? key = _
    rw [delete]
    split
    · simp [SortedMap.get?_erase, hne]
    · rfl
  | rename source target =>
    have hmove := get?_moveOnto (s := s) (hkey source (by simp [Operation.touched]))
      (hkey target (by simp [Operation.touched]))
    show (s.rename source target).2.objects.get? key = _
    rw [rename]
    split
    · exact hmove
    · rfl
  | claim source target =>
    have hmove := get?_moveOnto (s := s) (hkey source (by simp [Operation.touched]))
      (hkey target (by simp [Operation.touched]))
    show (s.claim source target).2.objects.get? key = _
    rw [claim]
    split
    · split
      · rfl
      · exact hmove
    · rfl
  | get location | head location | exists? location | list location => rfl

end MemoryStore

end CommitStore
