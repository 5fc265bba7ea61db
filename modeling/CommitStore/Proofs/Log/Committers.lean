import CommitStore.Proofs.Log.Places
import CommitStore.Proofs.Log.Site
import Mathlib.Data.List.FinRange
import Mathlib.Data.List.Perm.Subperm

/-!
# Committers agree on one log

Any number of committers write to one log.  Each one puts its entry at its own staging location,
claims slot 0, goes on to the next slot whenever a slot is taken, and records the version that it
has won in the state slot.  How far each of them is makes a `Phase`, and their operations,
`Committers.step`, come in any order.

Then the log has no gaps: the taken slots are the first ones, each holds the entry of a committer
that has won it, and every such committer has won one slot only.  A recorded version may lag behind
the log, but it is one of a taken slot, so walking on from it (`Walk`) leads to the end of the log.
All of this is in `Committers.Agrees`, which every step keeps.
-/

namespace CommitStore

namespace Log

/-- How far a committer is. -/
inductive Phase
  | idle
  /-- The entry is staged, and the next claim is of the slot of a version. -/
  | claiming (version : Nat)
  | won (version : Nat)
  /-- The version that was won is recorded. -/
  | done (version : Nat)
  /-- An operation failed for another reason than that a slot is taken. -/
  | failed
  deriving DecidableEq

namespace Phase

/-- The version that a committer has won. -/
def version? : Phase → Option Nat
  | won v => some v
  | done v => some v
  | _ => none

/-- The phase after putting an entry at its staging location. -/
def afterPut : Except StoreError Unit → Phase
  | .ok () => claiming 0
  | .error _ => failed

/-- The phase after claiming a slot. -/
def afterClaim (v : Nat) : Except StoreError Unit → Phase
  | .ok () => won v
  | .error (.alreadyExists _) => claiming (v + 1)
  | .error _ => failed

/-- The phase after recording a version. -/
def afterRecord (v : Nat) : Except StateError Unit → Phase
  | .ok () => done v
  | .error _ => failed

end Phase

/-- A site with `n` committers, how far each of them is and how many claims it has made. -/
structure Committers (n : Nat) where
  site : Site
  phase : Fin n → Phase
  claims : Fin n → Nat

namespace Committers

variable {n : Nat}

/-- All committers are about to begin. -/
def start (site : Site) : Committers n := ⟨site, fun _ => .idle, fun _ => 0⟩

/-- A committer goes on. -/
def advance (c : Committers n) (i : Fin n) (site : Site) (phase : Phase) (claims : Nat) :
    Committers n where
  site
  phase := Function.update c.phase i phase
  claims := Function.update c.claims i claims

section Advance

variable {c : Committers n} {i j : Fin n} {site : Site} {phase : Phase} {claims : Nat}

@[simp] lemma phase_advance_self : (c.advance i site phase claims).phase i = phase := by
  simp [advance]

lemma phase_advance_of_ne (h : j ≠ i) : (c.advance i site phase claims).phase j = c.phase j := by
  simp [advance, h]

@[simp] lemma claims_advance_self : (c.advance i site phase claims).claims i = claims := by
  simp [advance]

lemma claims_advance_of_ne (h : j ≠ i) : (c.advance i site phase claims).claims j = c.claims j := by
  simp [advance, h]

end Advance

/-- The next operation of a committer. -/
def step (bodies : Fin n → ByteArray) (c : Committers n) (i : Fin n) (now : Instant) :
    Committers n :=
  match c.phase i with
  | .idle =>
    let (result, site) := c.site.attempt (.put (staging i) (bodies i) now)
    c.advance i site (.afterPut result) (c.claims i)
  | .claiming v =>
    let (result, site) := c.site.attempt (.claim (staging i) (slot v))
    c.advance i site (.afterClaim v result) (c.claims i + 1)
  | .won v =>
    let (result, site) := c.site.record ⟨.ofNat v⟩
    c.advance i site (.afterRecord v result) (c.claims i)
  | .done _ => c
  | .failed => c

/-- What the committers have done after taking turns, each turn at some time. -/
def run (bodies : Fin n → ByteArray) (c : Committers n) (turns : List (Fin n × Instant)) :
    Committers n :=
  turns.foldl (fun c turn => c.step bodies turn.1 turn.2) c

/-- The committers whose claim has succeeded. -/
def winners (c : Committers n) : List (Fin n) :=
  (List.finRange n).filter fun i => (c.phase i).version?.isSome

end Committers

/-- Walking on from a version while the next slot is taken ends at another version. -/
inductive Walk (b : Backend) : Nat → Nat → Prop
  | stop {v : Nat} : ObjectStore.exists? b (slot (v + 1)) = .ok false → Walk b v v
  | next {v w : Nat} : ObjectStore.exists? b (slot (v + 1)) = .ok true → Walk b (v + 1) w →
    Walk b v w

/-! ## The invariant -/

/-- What holds of a committer when `taken` slots are taken. -/
def Stands (b : Backend) (body : ByteArray) (taken : Nat) (i : Nat) : Phase → Nat → Prop
  | .idle, claims => claims = 0 ∧ b.HasWay (staging i)
  | .claiming v, claims => claims = v ∧ v ≤ taken ∧ b.HasObject (staging i) body
  | .won v, claims => claims = v + 1
  | .done v, claims => claims = v + 1
  | .failed, _ => False

/-- The directory of the slots is above the staging locations. -/
lemma hasRoom_slot {b : Backend} {i : Nat} {content : ByteArray}
    (h : b.HasObject (staging i) content) (v : Nat) : b.HasRoom (slot v) := by
  cases b with
  | memory s => trivial
  | disk s =>
    have hfile : s.view (staging i).names = some (.file content) := h
    have hnames : (staging i).names = ["_log"] ++ ["_staging", stagingName i] := (staging_eq i).1
    rw [hnames] at hfile
    have hfolder : s.view ["_log"] = some .folder :=
      DiskStore.view_of_append (List.cons_ne_nil "_staging" [stagingName i]) (by rw [hfile]; simp)
    show s.view (slot v).names.dropLast = some .folder
    rwa [(slot_eq v).1]

lemma Stands.steady {b b' : Backend} {body : ByteArray} {taken taken' i claims : Nat}
    {phase : Phase} (h : Stands b body taken i phase claims) (hs : b.Steady b' (staging i))
    (hle : taken ≤ taken') : Stands b' body taken' i phase claims := by
  cases phase with
  | idle => exact ⟨h.1, h.2.steady hs⟩
  | claiming v => exact ⟨h.1, h.2.1.trans hle, h.2.2.steady hs⟩
  | won v => exact h
  | done v => exact h
  | failed => exact h

/-- What a committer does to the store names its staging location and slots only. -/
def IsTurn (i : Nat) (op : Operation) : Prop := ∀ l ∈ op.touched, l = staging i ∨ ∃ v, l = slot v

lemma IsTurn.isPlace {i : Nat} {op : Operation} (hop : IsTurn i op) :
    ∀ l ∈ op.touched, IsPlace l := by
  intro l hl
  rcases hop l hl with rfl | ⟨v, rfl⟩
  · exact isPlace_staging i
  · exact isPlace_slot v

lemma isTurn_put (i : Nat) (body : ByteArray) (now : Instant) :
    IsTurn i (.put (staging i) body now) := by
  simp [IsTurn, Operation.touched]

lemma isTurn_claim (i v : Nat) : IsTurn i (.claim (staging i) (slot v)) := by
  simp [IsTurn, Operation.touched]

namespace Committers

variable {n spare : Nat} {bodies : Fin n → ByteArray} {c : Committers n} {log : List (Fin n)}

/-- The log lists who has won the slots from the first one on: these slots hold the entries of the
winners, the others are free, and what is recorded is the version of a slot that was won. -/
structure Agrees (bodies : Fin n → ByteArray) (spare : Nat) (c : Committers n)
    (log : List (Fin n)) :
    Prop where
  sound : c.site.Sound IsPlace spare
  admits_slot : ∀ v ≤ n, c.site.store.Admits (slot v)
  admits_staging : ∀ i : Fin n, c.site.store.Admits (staging i)
  wins : ∀ i v, (c.phase i).version? = some v ↔ log[v]? = some i
  entry : ∀ v i, log[v]? = some i → c.site.store.HasObject (slot v) (bodies i)
  free : ∀ v, log.length ≤ v → c.site.store.IsFree (slot v)
  stands : ∀ i, Stands c.site.store (bodies i) log.length i (c.phase i) (c.claims i)
  recorded : c.site.slot.Holds fun state => ∃ v < log.length, state = ⟨.ofNat v⟩

namespace Agrees

lemma nodup (h : c.Agrees bodies spare log) : log.Nodup := by
  rw [List.nodup_iff_getElem?_ne_getElem?]
  intro v w hlt hw heq
  have hi := List.getElem?_eq_getElem hw
  have hv := (h.wins log[w] v).mpr (heq.trans hi)
  rw [(h.wins log[w] w).mpr hi] at hv
  have := Option.some.inj hv
  omega

lemma length_le (h : c.Agrees bodies spare log) : log.length ≤ n := by
  have hsub : log ⊆ List.finRange n := fun i _ => List.mem_finRange i
  simpa using (List.subperm_of_subset h.nodup hsub).length_le

/-- The committers whose claim has succeeded are those in the log. -/
lemma length_winners (h : c.Agrees bodies spare log) : c.winners.length = log.length := by
  have hnodup : c.winners.Nodup := (List.nodup_finRange n).filter _
  refine ((List.perm_ext_iff_of_nodup hnodup h.nodup).mpr fun i => ?_).length_eq
  rw [winners, List.mem_filter, Option.isSome_iff_exists, and_iff_right (List.mem_finRange i),
    List.mem_iff_getElem?]
  exact exists_congr fun v => h.wins i v

/-! ## Steps -/

/-- A step that wins no slot keeps the log, if it keeps what the others rely on. -/
lemma advance (h : c.Agrees bodies spare log) {i : Fin n} {site : Site} {phase : Phase}
    {claims : Nat} (hsound : site.Sound IsPlace spare)
    (hslots : ∀ v, c.site.store.Steady site.store (slot v))
    (hothers : ∀ j ≠ i, c.site.store.Steady site.store (staging j))
    (hversion : phase.version? = (c.phase i).version?)
    (hstands : Stands site.store (bodies i) log.length i phase claims)
    (hrecorded : site.slot.Holds fun state => ∃ v < log.length, state = ⟨.ofNat v⟩) :
    (c.advance i site phase claims).Agrees bodies spare log where
  sound := hsound
  admits_slot v hv := (hslots v).continues.admits.mpr (h.admits_slot v hv)
  admits_staging j := (hslots 0).continues.admits.mpr (h.admits_staging j)
  wins j v := by
    rw [← h.wins j v]
    by_cases heq : j = i
    · rw [heq, phase_advance_self, hversion]
    · rw [phase_advance_of_ne heq]
  entry v j hj := (h.entry v j hj).steady (hslots v)
  free v hv := (h.free v hv).steady (hslots v)
  stands j := by
    by_cases heq : j = i
    · rw [heq, phase_advance_self, claims_advance_self]
      exact hstands
    · rw [phase_advance_of_ne heq, claims_advance_of_ne heq]
      exact (h.stands j).steady (hothers j heq) (Nat.le_refl _)
  recorded := hrecorded

lemma getElem?_concat_eq_some {log : List (Fin n)} {i j : Fin n} {v : Nat} :
    (log ++ [i])[v]? = some j ↔ log[v]? = some j ∨ (v = log.length ∧ i = j) := by
  rcases Nat.lt_trichotomy v log.length with hlt | rfl | hlt
  · rw [List.getElem?_append_left hlt]
    simp only [hlt.ne, false_and, or_false]
  · simp
  · rw [List.getElem?_append_right (by omega), List.getElem?_eq_none (l := log) (by omega),
      List.getElem?_eq_none (by simp; omega)]
    simp [hlt.ne']

/-- A step that wins the first free slot puts its committer at the end of the log. -/
lemma extend (h : c.Agrees bodies spare log) {i : Fin n} {site : Site} {phase : Phase}
    {claims : Nat} (hsound : site.Sound IsPlace spare)
    (hslots : ∀ v ≠ log.length, c.site.store.Steady site.store (slot v))
    (hothers : ∀ j ≠ i, c.site.store.Steady site.store (staging j))
    (hversion : (c.phase i).version? = none) (hversion' : phase.version? = some log.length)
    (hwon : site.store.HasObject (slot log.length) (bodies i))
    (hstands : Stands site.store (bodies i) (log ++ [i]).length i phase claims)
    (hrecorded : site.slot.Holds fun state => ∃ v < log.length, state = ⟨.ofNat v⟩) :
    (c.advance i site phase claims).Agrees bodies spare (log ++ [i]) where
  sound := hsound
  admits_slot v hv := (hslots (log.length + 1) (by omega)).continues.admits.mpr (h.admits_slot v hv)
  admits_staging j := (hslots (log.length + 1) (by omega)).continues.admits.mpr (h.admits_staging j)
  wins j v := by
    rw [getElem?_concat_eq_some, ← h.wins j v]
    by_cases heq : j = i
    · rw [heq, phase_advance_self, hversion, hversion']
      simp [eq_comm]
    · rw [phase_advance_of_ne heq]
      simp [Ne.symm heq]
  entry v j hj := by
    rcases getElem?_concat_eq_some.mp hj with hold | ⟨rfl, rfl⟩
    · have hlt := (List.getElem?_eq_some_iff.mp hold).1
      exact (h.entry v j hold).steady (hslots v (by omega))
    · exact hwon
  free v hv := by
    rw [List.length_append, List.length_singleton] at hv
    exact (h.free v (by omega)).steady (hslots v (by omega))
  stands j := by
    by_cases heq : j = i
    · rw [heq, phase_advance_self, claims_advance_self]
      exact hstands
    · rw [phase_advance_of_ne heq, claims_advance_of_ne heq]
      exact (h.stands j).steady (hothers j heq) (by simp)
  recorded := by
    refine hrecorded.mono ?_
    rintro _ ⟨v, hv, rfl⟩
    exact ⟨v, by simp; omega, rfl⟩

lemma steady_slot {i v : Nat} {op : Operation} (h : c.Agrees bodies spare log) (hop : IsTurn i op)
    (hapart : ∀ l ∈ op.touched, l.Apart (slot v)) :
    c.site.store.Steady (c.site.attempt op).2.store (slot v) :=
  h.sound.steady_attempt hop.isPlace (isPlace_slot v) hapart (isPlace_slot v).names_ne_nil

/-- The staging locations of the others stay as they are. -/
lemma steady_staging {i j : Nat} {op : Operation} (h : c.Agrees bodies spare log)
    (hop : IsTurn i op) (hj : j ≠ i) :
    c.site.store.Steady (c.site.attempt op).2.store (staging j) := by
  apply h.sound.steady_attempt hop.isPlace (isPlace_staging j) _ (isPlace_staging j).names_ne_nil
  intro l hl
  rcases hop l hl with rfl | ⟨v, rfl⟩
  · exact apart_staging_staging hj.symm
  · exact apart_slot_staging v j

lemma put (h : c.Agrees bodies spare log) {i : Fin n} (hidle : c.phase i = .idle) (now : Instant) :
    (c.step bodies i now).Agrees bodies spare log := by
  have hstands := h.stands i
  rw [hidle] at hstands
  obtain ⟨hclaims, hway⟩ := hstands
  obtain ⟨after, hput, hobject⟩ := Backend.put_ok hway (h.admits_staging i)
    (h.sound.off_root _ (isPlace_staging i)) now
  obtain ⟨hsound, hslot⟩ := h.sound.attempt (isTurn_put i (bodies i) now).isPlace
  have hslots : ∀ v, c.site.store.Steady
      (c.site.attempt (.put (staging i) (bodies i) now)).2.store (slot v) := by
    intro v
    apply h.steady_slot (isTurn_put i (bodies i) now)
    simpa [Operation.touched] using (apart_slot_staging v i).symm
  have hresult : (c.site.attempt (.put (staging i) (bodies i) now)).1 = .ok () :=
    congrArg Prod.fst hput
  have hafter : (c.site.attempt (.put (staging i) (bodies i) now)).2.store = after :=
    congrArg Prod.snd hput
  rw [step, hidle]
  simp only [hresult]
  refine h.advance hsound hslots (fun j hj => ?_) ?_ ?_ (hslot _ h.recorded)
  · exact h.steady_staging (isTurn_put i (bodies i) now) (Fin.val_ne_of_ne hj)
  · rw [hidle]
    rfl
  · exact ⟨hclaims, Nat.zero_le _, hafter ▸ hobject⟩

lemma claim_taken (h : c.Agrees bodies spare log) {i : Fin n} {v : Nat}
    (hphase : c.phase i = .claiming v) (hv : v < log.length) (now : Instant) :
    (c.step bodies i now).Agrees bodies spare log := by
  have hstands := h.stands i
  rw [hphase] at hstands
  obtain ⟨hclaims, -, hobject⟩ := hstands
  have htaken := h.entry v log[v] (List.getElem?_eq_getElem hv)
  have hrefused :=
    Backend.claim_of_taken (h.admits_staging i) (h.admits_slot v (by have := h.length_le; omega))
    hobject htaken
  obtain ⟨hsound, hslot⟩ := h.sound.attempt (isTurn_claim i v).isPlace
  have hresult : (c.site.attempt (.claim (staging i) (slot v))).1 =
      .error (.alreadyExists (slot v)) :=
    congrArg Prod.fst hrefused
  have hafter : (c.site.attempt (.claim (staging i) (slot v))).2.store = c.site.store :=
    congrArg Prod.snd hrefused
  rw [step, hphase]
  simp only [hresult]
  refine h.advance hsound (fun w => ?_) (fun j _ => ?_) ?_ ?_ (hslot _ h.recorded)
  · rw [hafter]
    exact .refl _ _
  · rw [hafter]
    exact .refl _ _
  · rw [hphase]
    rfl
  · rw [hafter]
    exact ⟨by rw [hclaims], hv, hobject⟩

lemma claim_free (h : c.Agrees bodies spare log) {i : Fin n}
    (hphase : c.phase i = .claiming log.length) (now : Instant) :
    (c.step bodies i now).Agrees bodies spare (log ++ [i]) := by
  have hstands := h.stands i
  rw [hphase] at hstands
  obtain ⟨hclaims, -, hobject⟩ := hstands
  have hslotAdmitted := h.admits_slot _ h.length_le
  obtain ⟨after, hclaim, hwon, -⟩ := Backend.claim_of_free h.sound.wellFormed (h.admits_staging i)
    hslotAdmitted hobject (h.free _ (Nat.le_refl _)) (hasRoom_slot hobject _)
  obtain ⟨hsound, hslot⟩ := h.sound.attempt (isTurn_claim i log.length).isPlace
  have hslots : ∀ v ≠ log.length, c.site.store.Steady
      (c.site.attempt (.claim (staging i) (slot log.length))).2.store (slot v) := by
    intro v hv
    apply h.steady_slot (isTurn_claim i log.length)
    simpa [Operation.touched] using ⟨(apart_slot_staging v i).symm, apart_slot_slot hv.symm⟩
  have hothers : ∀ j ≠ i, c.site.store.Steady
      (c.site.attempt (.claim (staging i) (slot log.length))).2.store (staging j) := fun j hj =>
    h.steady_staging (isTurn_claim i log.length) (Fin.val_ne_of_ne hj)
  have hresult : (c.site.attempt (.claim (staging i) (slot log.length))).1 = .ok () :=
    congrArg Prod.fst hclaim
  have hafter : (c.site.attempt (.claim (staging i) (slot log.length))).2.store = after :=
    congrArg Prod.snd hclaim
  rw [step, hphase]
  simp only [hresult]
  refine h.extend hsound hslots hothers ?_ rfl (hafter ▸ hwon) ?_ (hslot _ h.recorded)
  · rw [hphase]
    rfl
  · rw [hclaims]
    rfl

lemma record (h : c.Agrees bodies spare log) {i : Fin n} {v : Nat} (hphase : c.phase i = .won v)
    (now : Instant) : (c.step bodies i now).Agrees bodies spare log := by
  have hstands := h.stands i
  rw [hphase] at hstands
  have hv : v < log.length := by
    have hwin := (h.wins i v).mp (by rw [hphase]; rfl)
    exact (List.getElem?_eq_some_iff.mp hwin).1
  obtain ⟨hresult, hsound, hholds, hsteady⟩ := h.sound.record ⟨.ofNat v⟩
  rw [step, hphase]
  simp only [hresult]
  refine h.advance hsound (fun w => hsteady _ (isPlace_slot w))
    (fun j _ => hsteady _ (isPlace_staging j)) ?_ hstands (hholds.mono ?_)
  · rw [hphase]
    rfl
  · rintro _ rfl
    exact ⟨v, hv, rfl⟩

/-- Every step of a committer keeps the log or makes it longer. -/
lemma step (h : c.Agrees bodies spare log) (i : Fin n) (now : Instant) :
    ∃ longer, log <+: longer ∧ (c.step bodies i now).Agrees bodies spare longer := by
  have hstands := h.stands i
  cases hphase : c.phase i with
  | idle => exact ⟨log, List.prefix_refl _, h.put hphase now⟩
  | claiming v =>
    rw [hphase] at hstands
    rcases Nat.lt_or_eq_of_le hstands.2.1 with hlt | rfl
    · exact ⟨log, List.prefix_refl _, h.claim_taken hphase hlt now⟩
    · exact ⟨log ++ [i], List.prefix_append _ _, h.claim_free hphase now⟩
  | won v => exact ⟨log, List.prefix_refl _, h.record hphase now⟩
  | done v => exact ⟨log, List.prefix_refl _, by simpa [Committers.step, hphase] using h⟩
  | failed =>
    rw [hphase] at hstands
    exact hstands.elim

lemma run (h : c.Agrees bodies spare log) (turns : List (Fin n × Instant)) :
    ∃ longer, log <+: longer ∧ (c.run bodies turns).Agrees bodies spare longer := by
  induction turns generalizing c log with
  | nil => exact ⟨log, List.prefix_refl _, h⟩
  | cons turn turns ih =>
    obtain ⟨longer, hlonger, hstep⟩ := h.step turn.1 turn.2
    obtain ⟨longest, hlongest, hrun⟩ := ih hstep
    exact ⟨longest, hlonger.trans hlongest, hrun⟩

/-! ## What the committers can rely on -/

lemma exists?_slot (h : c.Agrees bodies spare log) {v : Nat} (hv : c.site.store.Admits (slot v)) :
    ObjectStore.exists? c.site.store (slot v) = .ok (decide (v < log.length)) := by
  by_cases hlt : v < log.length
  · rw [decide_eq_true hlt]
    exact (h.entry v log[v] (List.getElem?_eq_getElem hlt)).exists? hv
  · rw [decide_eq_false hlt]
    exact (h.free v (by omega)).exists? hv

/-- Walking on from a taken slot ends at the last one. -/
lemma walk (h : c.Agrees bodies spare log) {v : Nat} (hv : v < log.length) :
    Walk c.site.store v (log.length - 1) := by
  have hle := h.length_le
  obtain ⟨k, hk⟩ : ∃ k, log.length - 1 = v + k := ⟨log.length - 1 - v, by omega⟩
  induction k generalizing v with
  | zero =>
    have hlast : log.length - 1 = v := by omega
    have hnext := h.exists?_slot (h.admits_slot (v + 1) (by omega))
    rw [decide_eq_false (by omega)] at hnext
    rw [hlast]
    exact .stop hnext
  | succ k ih =>
    have hnext := h.exists?_slot (h.admits_slot (v + 1) (by omega))
    rw [decide_eq_true (by omega)] at hnext
    exact .next hnext (ih (by omega) (by omega))

lemma claims_le (h : c.Agrees bodies spare log) (i : Fin n) : c.claims i ≤ n := by
  have hle := h.length_le
  have hstands := h.stands i
  have hwin : ∀ v, (c.phase i).version? = some v → v < log.length := fun v hv =>
    (List.getElem?_eq_some_iff.mp ((h.wins i v).mp hv)).1
  cases hphase : c.phase i <;> rw [hphase] at hstands hwin
  case idle => exact hstands.1 ▸ Nat.zero_le n
  case claiming v => exact hstands.1 ▸ hstands.2.1.trans hle
  case won v =>
    have hclaims : c.claims i = v + 1 := hstands
    have := hwin v rfl
    omega
  case done v =>
    have hclaims : c.claims i = v + 1 := hstands
    have := hwin v rfl
    omega
  case failed => exact hstands.elim

end Agrees

end Committers

end Log

end CommitStore
