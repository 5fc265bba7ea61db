import CommitStore.Proofs.Log.Committers

/-!
# One log without gaps

From an empty store and with nothing recorded, committers in any number and order end up with one
log, `Committers.OneLog`.  This needs that the state slot does not get in the way of the log, which
is a part of `Committers.CanBegin`: a state file in the place of a slot takes that slot when a
version is recorded, although nobody has won it (`Committers.state_file_takes_slot`).
-/

namespace CommitStore

namespace Log

namespace Committers

variable {n spare : Nat} {bodies : Fin n → ByteArray} {c : Committers n} {log : List (Fin n)}

/-- The committers can begin: the store is empty, nothing is recorded, all locations that they may
need are within the limits of the host, and the store and the slot do not disturb each other. -/
structure CanBegin (n spare : Nat) (site : Site) : Prop where
  sound : site.Sound IsPlace spare
  blank : site.store.IsBlank
  empty : site.slot.Holds fun _ => False
  admits_slot : ∀ v ≤ n, site.store.Admits (slot v)
  admits_staging : ∀ i < n, site.store.Admits (staging i)

/-- The committers have one log without gaps. -/
structure OneLog (bodies : Fin n → ByteArray) (c : Committers n) : Prop where
  /-- No operation has failed except for claims of taken slots. -/
  no_failure : ∀ i, c.phase i ≠ .failed
  /-- The taken slots are the first ones, as many as there are winners. -/
  taken : ∀ v, c.site.store.Admits (slot v) →
    ObjectStore.exists? c.site.store (slot v) = .ok (decide (v < c.winners.length))
  /-- Each of them was won, and by one committer only. -/
  winner : ∀ v < c.winners.length, ∃! i, (c.phase i).version? = some v
  /-- A slot that was won holds the entry of its winner. -/
  entry : ∀ i v, (c.phase i).version? = some v → v < c.winners.length ∧
    ObjectStore.get c.site.store (slot v) = .ok (bodies i)
  claims_le : ∀ i, c.claims i ≤ n
  /-- A recorded version is one of a taken slot, and walking on from it leads to the last one. -/
  recorded : c.site.slot.get = .error .empty ∨ ∃ v < c.winners.length,
    c.site.slot.get = .ok ⟨.ofNat v⟩ ∧ Walk c.site.store v (c.winners.length - 1)

lemma Agrees.oneLog (h : c.Agrees bodies spare log) : c.OneLog bodies := by
  have hlength := h.length_winners
  constructor
  · intro i hfailed
    have hstands := h.stands i
    rw [hfailed] at hstands
    exact hstands
  · intro v hv
    rw [hlength]
    exact h.exists?_slot hv
  · intro v hv
    rw [hlength] at hv
    have hget := List.getElem?_eq_getElem hv
    refine ⟨log[v], (h.wins _ v).mpr hget, fun i hi => ?_⟩
    have := (h.wins i v).mp hi
    rw [hget] at this
    exact (Option.some.inj this).symm
  · intro i v hi
    have hwin := (h.wins i v).mp hi
    have hlt := (List.getElem?_eq_some_iff.mp hwin).1
    have hle := h.length_le
    refine ⟨hlength ▸ hlt, ?_⟩
    exact (Backend.get_eq_ok_iff (h.admits_slot v (by omega))).mpr (h.entry v i hwin)
  · exact h.claims_le
  · rcases h.recorded.get h.sound.writable with hempty | ⟨state, ⟨v, hv, rfl⟩, hget⟩
    · exact .inl hempty
    · rw [hlength]
      exact .inr ⟨v, hv, hget, h.walk hv⟩

/-- At the beginning the log is empty. -/
lemma CanBegin.agrees {site : Site} (h : CanBegin n spare site) :
    (Committers.start site).Agrees bodies spare [] where
  sound := h.sound
  admits_slot := h.admits_slot
  admits_staging i := h.admits_staging i i.isLt
  wins i v := by simp [Committers.start, Phase.version?]
  entry v i hi := by simp at hi
  free v _ := h.blank.isFree (isPlace_slot v).names_ne_nil
  stands i := ⟨rfl, h.blank.hasWay (isPlace_staging i).names_ne_nil⟩
  recorded := h.empty.mono fun _ => False.elim

/-- Whatever turns the committers have taken, they have one log without gaps, and whoever has won a
slot keeps it. -/
theorem one_gap_free_log {site : Site} (hbegin : CanBegin n spare site) (bodies : Fin n → ByteArray)
    (turns more : List (Fin n × Instant)) :
    ((start site).run bodies turns).OneLog bodies ∧
      ∀ i v, (((start site).run bodies turns).phase i).version? = some v →
        (((start site).run bodies (turns ++ more)).phase i).version? = some v := by
  obtain ⟨log, -, hlog⟩ := hbegin.agrees.run turns
  obtain ⟨longer, ⟨added, hlonger⟩, hmore⟩ := hlog.run more
  refine ⟨hlog.oneLog, fun i v hi => ?_⟩
  have hwin := (hlog.wins i v).mp hi
  have hlt := (List.getElem?_eq_some_iff.mp hwin).1
  have happend : (start site).run bodies (turns ++ more) =
      ((start site).run bodies turns).run bodies more := List.foldl_append
  rw [happend, hmore.wins, ← hlonger, List.getElem?_append_left hlt]
  exact hwin

/-! ## A state file beside the store -/

section BesideSample

/-- An empty store in the directory `t`. -/
def besideStore : DiskStore := ⟨.bare ["w"], ⟨"t"⟩, .hardLink, .epoch⟩

/-- A state file in the directory `s`. -/
def besideFile : StateFile := ⟨.bare ["w"], ⟨"s/state.json"⟩⟩

/-- The store and the state file on one host. -/
def besideSample : Site := ⟨.disk besideStore, .file besideFile⟩

lemma base_besideStore : besideStore.base = ["w", "t"] := by decide +kernel

lemma rootRoute_besideStore : besideStore.rootRoute = [["w"], ["w", "t"]] := by decide +kernel

lemma way_besideFile : besideFile.way = [["w"], ["w", "s"]] := by decide +kernel

lemma place_besideFile : besideFile.place = ["w", "s", "state.json"] := by decide +kernel

lemma avoids_besideStore (name : String) : besideStore.Avoids IsPlace ["w", "s", name] := by
  rw [DiskStore.Avoids, rootRoute_besideStore, base_besideStore]
  simp

lemma writable_besideFile : besideFile.Writable 0 where
  named := ⟨by decide +kernel, ⟨"state.json", by decide +kernel, by decide⟩, by decide +kernel⟩
  wellFormed := by decide +kernel
  start := by decide +kernel
  no_file := by
    have hfolder : besideFile.host.layout ["w"] = some .folder := by decide +kernel
    have hnone : besideFile.host.layout ["w", "s"] = none := Host.layout_bare ["w"] "s" []
    rw [way_besideFile]
    simp [Host.NoFile, hfolder, hnone]
  place_off_way := by decide +kernel
  no_folder := by decide +kernel
  spare_off_way := by decide +kernel
  spare_ne_place := by decide +kernel
  spare_free := by decide +kernel
  temporary_fits := by decide +kernel

lemma apart_besideFile : besideFile.Apart besideStore 0 IsPlace where
  host := rfl
  way := by
    rw [way_besideFile, base_besideStore]
    simp
  place := by
    rw [place_besideFile]
    exact avoids_besideStore _
  spare := by
    have hspare : besideFile.folder ++ [StateFile.temporaryName 0] = ["w", "s", ".tmp000000"] := by
      decide +kernel
    rw [hspare]
    exact avoids_besideStore _

lemma besideSample_canBegin : CanBegin 2 0 besideSample where
  sound := by
    refine ⟨by decide +kernel, ?_, writable_besideFile, ?_⟩
    · rintro l hl ⟨place, hmem, hbelow⟩
      change place ∈ besideStore.rootRoute at hmem
      change besideStore.base ++ l.names <+: place at hbelow
      rw [rootRoute_besideStore] at hmem
      rw [base_besideStore] at hbelow
      have hpos := List.length_pos_iff.mpr hl.names_ne_nil
      have hlong := hbelow.length_le
      have hshort : place.length ≤ 2 := by
        rcases List.mem_cons.mp hmem with rfl | hmem
        · simp
        · rw [List.mem_singleton.mp hmem]
          simp
      rw [List.length_append] at hlong
      simp only [List.length_cons, List.length_nil] at hlong
      omega
    · rintro s f ⟨⟩ ⟨⟩
      exact apart_besideFile
  blank := by
    refine ⟨by decide +kernel, ?_, fun names _ => ?_⟩
    · have hfolder : besideStore.host.layout ["w"] = some .folder := by decide +kernel
      have hnone : besideStore.host.layout ["w", "t"] = none := Host.layout_bare ["w"] "t" []
      show besideStore.host.NoFile besideStore.rootRoute
      rw [rootRoute_besideStore]
      simp [Host.NoFile, hfolder, hnone]
    · rw [base_besideStore]
      exact Host.layout_bare ["w"] "t" names
  empty := by
    intro content hfile
    change besideFile.host.layout besideFile.place = _ at hfile
    rw [place_besideFile] at hfile
    cases hfile
  admits_slot v hv := by
    have hadmits : ∀ v ≤ 2, besideStore.Admits (slot v) ∧ (slot v).isObject = true := by
      decide +kernel
    exact ⟨(hadmits v hv).2, by rintro s ⟨⟩; exact (hadmits v hv).1⟩
  admits_staging i hi := by
    have hadmits : ∀ i < 2, besideStore.Admits (staging i) ∧ (staging i).isObject = true := by
      decide +kernel
    exact ⟨(hadmits i hi).2, by rintro s ⟨⟩; exact (hadmits i hi).1⟩

/-- Two committers meet at the first slot. -/
theorem besideSample_one_log :
    let bodies : Fin 2 → ByteArray := fun i => ⟨#[i.val.toUInt8]⟩
    let c := (start besideSample).run bodies
      [(0, .epoch), (1, .epoch), (0, .epoch), (1, .epoch), (1, .epoch), (0, .epoch)]
    c.OneLog bodies ∧ c.winners = [0, 1] :=
  ⟨(one_gap_free_log besideSample_canBegin _ _ []).1, by decide +kernel⟩

end BesideSample

/-! ## A state file in the log -/

/-- A state file that lies in the place of a slot. -/
def overlappingSample : Site :=
  ⟨.disk ⟨.bare ["w"], ⟨"t"⟩, .hardLink, .epoch⟩,
    .file ⟨.bare ["w"], ⟨"t/_log/00000000000000000001.json"⟩⟩⟩

/-- When the state file lies in the place of a slot, recording a version takes that slot. -/
theorem state_file_takes_slot :
    ObjectStore.list overlappingSample.store .root = .ok [] ∧
      overlappingSample.slot.get = .error .empty ∧
      let c := (start (n := 1) overlappingSample).run (fun _ => ⟨#[1]⟩)
        [(0, .epoch), (0, .epoch), (0, .epoch)]
      c.phase 0 = .done 0 ∧ c.winners.length = 1 ∧
        ObjectStore.exists? c.site.store (slot 1) = .ok true := by
  decide +kernel

end Committers

end Log

end CommitStore
