import CommitStore.Proofs.State.SlotFile
import CommitStore.Proofs.Store.Putting

/-!
# A store and a state slot on one host

A log is kept in a store, and the last version that is known to be committed in a state slot.  A
store in a directory and a slot in a file may be on one host, so what is done to the one could
disturb the other.  It does not if the file, its way and its temporary files are kept away from the
log.

A `Site` is a store with a state slot, and `Site.Sound` says that they are kept apart.  Then an
operation on the log leaves the slot as it is (`Site.Sound.attempt`), and putting a state succeeds
and leaves the log as it is (`Site.Sound.record`).
-/

namespace CommitStore

/-! ## What a slot holds -/

namespace StateSlot

variable {c : StateSlot} {p q : CommitState → Prop} {spare : Nat}

/-- Whatever state is in the slot satisfies `p`; what is left of an empty file is white space. -/
def Holds (c : StateSlot) (p : CommitState → Prop) : Prop :=
  match c with
  | memory state => ∀ s ∈ state, p s
  | file f => ∀ content, f.host.layout f.place = some (.file content) →
      content.data.all Text.isBlankByte = true ∨ ∃ s, p s ∧ content = StateFile.write s

/-- A slot in a file can be written. -/
def Writable (c : StateSlot) (spare : Nat) : Prop :=
  match c with
  | memory _ => True
  | file f => f.Writable spare

lemma Holds.mono (h : c.Holds p) (himp : ∀ s, p s → q s) : c.Holds q := by
  cases c with
  | memory state => exact fun s hs => himp s (h s hs)
  | file f =>
    intro content hfile
    exact (h content hfile).imp_right fun ⟨s, hs, hcontent⟩ => ⟨s, himp s hs, hcontent⟩

/-- A slot is empty, or gives a state of which that is true. -/
lemma Holds.get (h : c.Holds p) (hw : c.Writable spare) :
    c.get = .error .empty ∨ ∃ s, p s ∧ c.get = .ok s := by
  cases c with
  | memory state =>
    cases state with
    | none => exact .inl rfl
    | some s => exact .inr ⟨s, h s rfl, rfl⟩
  | file f =>
    show f.get = .error .empty ∨ ∃ s, p s ∧ f.get = .ok s
    rcases StateFile.get_cases hw with hempty | ⟨content, hfile, hget⟩
    · exact .inl hempty
    rw [hget]
    rcases h content hfile with hblank | ⟨s, hs, rfl⟩
    · exact .inl (if_pos hblank)
    · exact .inr ⟨s, hs, StateFile.read_write s⟩

end StateSlot

/-! ## Keeping apart -/

namespace DiskStore

variable {s s' : DiskStore} {log : Location → Prop} {place : List String}

/-- A place is neither at nor above a place of the root path, and neither at nor above nor below one
of the log. -/
def Avoids (s : DiskStore) (log : Location → Prop) (place : List String) : Prop :=
  (∀ names ∈ s.rootRoute, ¬ place <+: names) ∧
    ∀ l, log l → ¬ place <+: s.base ++ l.names ∧ ¬ s.base ++ l.names <+: place

/-- An operation on the log changes nothing at a place that avoids the log. -/
lemma Avoids.layout {touched : List Location} (h : s.Avoids log place) (hc : s.Changes s' touched)
    (htouched : ∀ t ∈ touched, log t) : s'.host.layout place = s.host.layout place := by
  rcases hc.layout place fun t ht => (h.2 t (htouched t ht)).2 with
    hsame | ⟨-, -, hroot | ⟨t, ht, front, hfront, rfl⟩⟩
  · exact hsame
  · exact absurd (List.prefix_refl place) (h.1 place hroot)
  · exact absurd ((List.prefix_append_right_inj s.base).mpr hfront) (h.2 t (htouched t ht)).1

lemma Avoids.continues (h : s.Avoids log place) (hc : s.Continues s') : s'.Avoids log place := by
  rw [Avoids, hc.rootRoute, hc.base]
  exact h

end DiskStore

/-- A state file on the host of a store is kept away from the log: the way to it leads through no
place of the log, and its own place and that of a temporary file avoid the log. -/
structure StateFile.Apart (f : StateFile) (s : DiskStore) (spare : Nat) (log : Location → Prop) :
    Prop where
  host : f.host = s.host
  way : ∀ names ∈ f.way, ∀ l, log l → ¬ s.base ++ l.names <+: names
  place : s.Avoids log f.place
  spare : s.Avoids log (f.folder ++ [temporaryName spare])

/-- A state file stays apart from the log as long as the store is the same one. -/
lemma StateFile.Apart.continues {f : StateFile} {s s' : DiskStore} {spare : Nat}
    {log : Location → Prop} (h : f.Apart s spare log) (hc : s.Continues s') :
    StateFile.Apart { f with host := s'.host } s' spare log := by
  have hcwd : s'.host.workingDirectory = f.host.workingDirectory := by
    rw [hc.workingDirectory, h.host]
  refine ⟨rfl, ?_, ?_, ?_⟩
  · rw [way_onHost hcwd, hc.base]
    exact h.way
  · rw [place_onHost hcwd]
    exact h.place.continues hc
  · rw [folder_onHost hcwd]
    exact h.spare.continues hc

/-! ## Sites -/

/-- A store and a state slot. -/
structure Site where
  store : Backend
  slot : StateSlot

namespace Site

variable {t : Site} {log : Location → Prop} {spare : Nat}

/-- The slot sees what was done to the host of the store. -/
def afterStore (t : Site) (store : Backend) : Site where
  store
  slot := match store with
    | .memory _ => t.slot
    | .disk s => t.slot.onHost s.host

/-- The store sees what was done to the host of the slot. -/
def afterSlot (t : Site) (slot : StateSlot) : Site where
  store := match slot with
    | .memory _ => t.store
    | .file f => t.store.onHost f.host
  slot

/-- Do something to the store. -/
def attempt (t : Site) (op : Operation) : Except StoreError Unit × Site :=
  let (result, store) := op.attempt t.store
  (result, t.afterStore store)

/-- Put a state into the slot. -/
def record (t : Site) (state : CommitState) : Except StateError Unit × Site :=
  let (result, slot) := t.slot.put state
  (result, t.afterSlot slot)

/-- The store is well-formed, its root path leads through no place of the log, and the slot can be
written and is kept away from the log. -/
structure Sound (t : Site) (log : Location → Prop) (spare : Nat) : Prop where
  wellFormed : t.store.WellFormed
  off_root : ∀ l, log l → ¬ t.store.LeadsThrough l
  writable : t.slot.Writable spare
  apart : ∀ s f, t.store = .disk s → t.slot = .file f → f.Apart s spare log

/-- An operation on the log leaves the state file as it is. -/
lemma writable_attempt {s : DiskStore} {f : StateFile} {op : Operation}
    (hwf : s.host.tree.WellFormed) (hw : f.Writable spare) (hf : f.Apart s spare log)
    (htouched : ∀ l ∈ op.touched, log l) :
    StateFile.Writable { f with host := (op.attempt s).2.host } spare ∧
      (op.attempt s).2.host.layout f.place = f.host.layout f.place := by
  have hchanges := DiskStore.attempt_effect hwf op
  have hplace := hf.place.layout hchanges htouched
  have hspare := hf.spare.layout hchanges htouched
  rw [← hf.host] at hplace hspare
  refine ⟨hw.of_keeps ?_ (hchanges.continues.wellFormed hwf) (fun names hnames => ?_) ?_ ?_, hplace⟩
  · rw [hchanges.continues.workingDirectory, hf.host]
  · rw [hf.host]
    exact .of_layout (hchanges.layout names fun l hl => hf.way names hnames l (htouched l hl))
  · rw [hplace]
    exact hw.no_folder
  · rw [hspare]
    exact hw.spare_free

lemma Sound.attempt {op : Operation} (h : t.Sound log spare) (htouched : ∀ l ∈ op.touched, log l) :
    (t.attempt op).2.Sound log spare ∧ ∀ p, t.slot.Holds p → (t.attempt op).2.slot.Holds p := by
  have hc : t.store.Continues (t.attempt op).2.store := Backend.continues_attempt h.wellFormed op
  have hwf := hc.wellFormed h.wellFormed
  have hoff : ∀ l, log l → ¬ (t.attempt op).2.store.LeadsThrough l := fun l hl hleads =>
    h.off_root l hl (hc.leadsThrough.mp hleads)
  obtain ⟨store, slot⟩ := t
  cases store with
  | memory s =>
    have hafter : (Site.attempt ⟨.memory s, slot⟩ op).2 = ⟨.memory (op.attempt s).2, slot⟩ := by
      show afterStore _ (op.attempt (Backend.memory s)).2 = _
      rw [Backend.attempt_memory]
      rfl
    rw [hafter] at hwf hoff ⊢
    exact ⟨⟨hwf, hoff, h.writable, by rintro s' f ⟨⟩⟩, fun p hp => hp⟩
  | disk s =>
    have hafter : (Site.attempt ⟨.disk s, slot⟩ op).2 =
        ⟨.disk (op.attempt s).2, slot.onHost (op.attempt s).2.host⟩ := by
      show afterStore _ (op.attempt (Backend.disk s)).2 = _
      rw [Backend.attempt_disk]
      rfl
    rw [hafter] at hwf hoff ⊢
    cases slot with
    | memory state => exact ⟨⟨hwf, hoff, trivial, by rintro s' f - ⟨⟩⟩, fun p hp => hp⟩
    | file f =>
      have hf := h.apart s f rfl rfl
      have hchanges := DiskStore.attempt_effect h.wellFormed op
      obtain ⟨hw, hplace⟩ := writable_attempt h.wellFormed h.writable hf htouched
      have hcwd : (op.attempt s).2.host.workingDirectory = f.host.workingDirectory := by
        rw [hchanges.continues.workingDirectory, hf.host]
      refine ⟨⟨hwf, hoff, hw, ?_⟩, fun p hp content hfile => hp content ?_⟩
      · rintro s' f' ⟨⟩ ⟨⟩
        exact hf.continues hchanges.continues
      · change (op.attempt s).2.host.layout (StateFile.place { f with host := _ }) = _ at hfile
        rwa [StateFile.place_onHost hcwd, hplace] at hfile

/-- An operation on the log leaves the rest of the log as it is. -/
lemma Sound.steady_attempt {op : Operation} {l : Location} (h : t.Sound log spare)
    (htouched : ∀ k ∈ op.touched, log k) (hl : log l) (hapart : ∀ k ∈ op.touched, k.Apart l)
    (hne : l.names ≠ []) : t.store.Steady (t.attempt op).2.store l := by
  refine Backend.steady_attempt h.wellFormed ⟨?_, fun k hk => h.off_root k (htouched k hk)⟩
    (List.mem_singleton_self l) hne (.inr (h.off_root l hl))
  intro k hk p hp
  rw [List.mem_singleton.mp hp]
  exact hapart k hk

/-- Putting a state into a file leaves the log as it is. -/
lemma steady_put {s : DiskStore} {f : StateFile} {mid host : Host} {content : ByteArray}
    {l : Location} (hf : f.Apart s spare log) (hgrows : f.host.Grows mid f.way)
    (hbecomes : mid.Becomes host (mid.layout.plant f.place (.ofFile content))) (hl : log l) :
    s.Steady { s with host } l := by
  rw [hf.host] at hgrows
  have hlayout : ∀ names, ¬ f.place <+: names → host.layout names = mid.layout names :=
    fun names hnot => by
    rw [hbecomes.layout, Layout.plant_elsewhere hnot]
  have hkeeps : ∀ names, ¬ f.place <+: names → s.host.Keeps host names := fun names hnot => by
    rw [Host.Keeps, hlayout names hnot]
    exact Host.Keeps.of_layout (hgrows.layout names)
  have hnot := (hf.place.2 l hl).1
  refine ⟨(DiskStore.Continues.of_grows hgrows).becomes hbecomes, ?_, ?_⟩
  · rintro names (hroot | ⟨front, hfront, rfl⟩)
    · exact hkeeps names (hf.place.1 names hroot)
    · exact hkeeps _ fun hbelow =>
        hnot (hbelow.trans ((List.prefix_append_right_inj s.base).mpr hfront))
  · rw [hlayout _ hnot]
    exact hgrows.layout_elsewhere fun hway => hf.way _ hway l hl (List.prefix_refl _)

/-- What was put is in the slot. -/
lemma holds_put {f : StateFile} {mid host : Host} {state : CommitState}
    (hgrows : f.host.Grows mid f.way)
    (hbecomes : mid.Becomes host (mid.layout.plant f.place (.ofFile (StateFile.write state)))) :
    StateSlot.Holds (.file { f with host }) (· = state) := by
  intro content hfile
  change host.layout (StateFile.place { f with host }) = _ at hfile
  rw [StateFile.place_onHost (hbecomes.workingDirectory.trans hgrows.workingDirectory),
    hbecomes.layout, Layout.plant_self, Layout.ofFile_nil] at hfile
  cases hfile
  exact .inr ⟨state, rfl, rfl⟩

/-- Putting a state succeeds, and leaves the log as it is. -/
lemma Sound.record (h : t.Sound log spare) (state : CommitState) :
    (t.record state).1 = .ok () ∧ (t.record state).2.Sound log spare ∧
      (t.record state).2.slot.Holds (· = state) ∧
      ∀ l, log l → t.store.Steady (t.record state).2.store l := by
  obtain ⟨store, slot⟩ := t
  cases slot with
  | memory old =>
    refine ⟨rfl, ⟨h.wellFormed, h.off_root, trivial, by rintro s' f - ⟨⟩⟩, ?_,
      fun l _ => .refl store l⟩
    rintro s ⟨⟩
    rfl
  | file f =>
    obtain ⟨mid, host, hput, hgrows, -, hbecomes⟩ := StateFile.put_ok h.writable state
    have hafter : Site.record ⟨store, .file f⟩ state =
        (.ok (), ⟨store.onHost host, .file { f with host }⟩) := by
      simp [Site.record, StateSlot.put, hput, afterSlot]
    have hw := (StateFile.Writable.put h.writable state).1
    have hholds := holds_put hgrows hbecomes
    rw [hput] at hw
    rw [hafter]
    cases store with
    | memory s =>
      exact ⟨rfl, ⟨trivial, fun _ _ => id, hw, by rintro s' f' ⟨⟩⟩, hholds, fun l _ => .refl _ l⟩
    | disk s =>
      have hf := h.apart s f rfl rfl
      have hc : s.Continues { s with host } :=
        (DiskStore.Continues.of_grows (hf.host ▸ hgrows)).becomes hbecomes
      refine ⟨rfl, ⟨hc.wellFormed h.wellFormed, fun l hl hleads => ?_, hw, ?_⟩, hholds,
        fun l hl => steady_put hf hgrows hbecomes hl⟩
      · have hcontinues : Backend.Continues (.disk s) (.disk { s with host }) := hc
        exact h.off_root l hl (hcontinues.leadsThrough.mp hleads)
      · rintro s' f' ⟨⟩ ⟨⟩
        exact hf.continues hc

end Site

end CommitStore
