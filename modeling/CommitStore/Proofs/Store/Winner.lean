import CommitStore.Proofs.Store.Presence
import Mathlib.Data.List.Nodup

/-!
# A slot has one winner

Several writers have an object each and claim the same free slot, in any order and with any other
operations in between, as a list of `Event`.  The first claim wins: all others are refused, the slot
keeps the bytes of the winner, and every loser keeps its own object.

The other operations have to stay away from the slot and the objects of the writers, and, in a
directory, from the directories that the root path leads through: with the root `t/x/..` the store
can no longer be reached once `x` is gone, although `x` has nothing to do with the slot
(`Backend.root_through_store_loses_slot`).
-/

namespace CommitStore

/-- A writer with an object that holds some bytes. -/
structure Writer where
  source : Location
  content : ByteArray
  deriving DecidableEq

/-- What happens to a store: a writer claims the slot, or something else is done. -/
inductive Event
  | claim (writer : Writer)
  | other (op : Operation)

/-- The writers whose claims are among some events, in order. -/
def claimants (events : List Event) : List Writer :=
  events.filterMap fun
    | .claim writer => some writer
    | .other _ => none

/-- The outcomes of the claims of a slot, in order, and the store at the end. -/
def runEvents {σ : Type} [ObjectStore σ] (slot : Location) (store : σ) :
    List Event → List (Except StoreError Unit) × σ
  | [] => ([], store)
  | .claim writer :: events =>
    let (outcome, after) := ObjectStore.claim store writer.source slot
    let (outcomes, last) := runEvents slot after events
    (outcome :: outcomes, last)
  | .other op :: events => runEvents slot (op.attempt store).2 events

namespace Backend

variable {b : Backend} {slot : Location} {writers : List Writer} {winner : Writer}

/-- The slot is free, and every writer has its object. -/
structure Contested (b : Backend) (slot : Location) (writers : List Writer) : Prop where
  wellFormed : b.WellFormed
  slot_admitted : b.Admits slot
  slot_free : b.IsFree slot
  room : b.HasRoom slot
  admitted : ∀ w ∈ writers, b.Admits w.source
  object : ∀ w ∈ writers, b.HasObject w.source w.content
  distinct : (writers.map (·.source)).Nodup

/-- The winner has the slot and every other writer has its object. -/
structure Settled (b : Backend) (slot : Location) (writers : List Writer) (winner : Writer) :
    Prop where
  wellFormed : b.WellFormed
  slot_admitted : b.Admits slot
  slot_taken : b.HasObject slot winner.content
  room : b.HasRoom slot
  admitted : ∀ w ∈ writers, b.Admits w.source
  gone : b.Lacks winner.source
  object : ∀ w ∈ writers, w ≠ winner → b.HasObject w.source w.content

/-- The places that other operations have to spare. -/
def contestPlaces (slot : Location) (writers : List Writer) : List Location :=
  slot :: writers.map (·.source)

lemma mem_contestPlaces {w : Writer} (hw : w ∈ writers) : w.source ∈ contestPlaces slot writers :=
  List.mem_cons_of_mem _ (List.mem_map.mpr ⟨w, hw, rfl⟩)

lemma steady_of_spares {op : Operation} {l : Location} (hwf : b.WellFormed) (hroom : b.HasRoom slot)
    (hs : b.Spares op (contestPlaces slot writers)) (hl : l ∈ contestPlaces slot writers)
    (hadmitted : b.Admits l) : b.Steady (op.attempt b).2 l :=
  steady_attempt hwf hs hl (Location.isObject_iff.mp hadmitted.isObject).1 (.inl hroom.isOpen)

/-- An operation that spares a contest leaves the slot and the objects of the writers as they
are. -/
lemma steady_contest {op : Operation} (hwf : b.WellFormed) (hslot : b.Admits slot)
    (hroom : b.HasRoom slot) (hadmitted : ∀ w ∈ writers, b.Admits w.source)
    (hs : b.Spares op (contestPlaces slot writers)) :
    b.Steady (op.attempt b).2 slot ∧ ∀ w ∈ writers, b.Steady (op.attempt b).2 w.source :=
  ⟨steady_of_spares hwf hroom hs List.mem_cons_self hslot,
    fun w hw => steady_of_spares hwf hroom hs (mem_contestPlaces hw) (hadmitted w hw)⟩

lemma Contested.other {op : Operation} (h : b.Contested slot writers)
    (hs : b.Spares op (contestPlaces slot writers)) :
    (op.attempt b).2.Contested slot writers := by
  obtain ⟨hslot, hsource⟩ := steady_contest h.wellFormed h.slot_admitted h.room h.admitted hs
  have hc := hslot.continues
  constructor
  · exact hc.wellFormed h.wellFormed
  · exact hc.admits.mpr h.slot_admitted
  · exact h.slot_free.steady hslot
  · exact h.room.steady hslot
  · exact fun w hw => hc.admits.mpr (h.admitted w hw)
  · exact fun w hw => (h.object w hw).steady (hsource w hw)
  · exact h.distinct

lemma Settled.other {op : Operation} (h : b.Settled slot writers winner)
    (hwinner : winner ∈ writers) (hs : b.Spares op (contestPlaces slot writers)) :
    (op.attempt b).2.Settled slot writers winner := by
  obtain ⟨hslot, hsource⟩ := steady_contest h.wellFormed h.slot_admitted h.room h.admitted hs
  have hc := hslot.continues
  constructor
  · exact hc.wellFormed h.wellFormed
  · exact hc.admits.mpr h.slot_admitted
  · exact h.slot_taken.steady hslot
  · exact h.room.steady hslot
  · exact fun w hw => hc.admits.mpr (h.admitted w hw)
  · exact h.gone.steady (hsource winner hwinner)
  · exact fun w hw hne => (h.object w hw hne).steady (hsource w hw)

/-- The first claim wins. -/
lemma Contested.claim (h : b.Contested slot writers) (hwinner : winner ∈ writers) :
    ∃ after, ObjectStore.claim b winner.source slot = (.ok (), after) ∧
      b.Continues after ∧ after.Settled slot writers winner := by
  obtain ⟨after, hclaim, htaken, hgone, hroom, hothers⟩ := claim_of_free h.wellFormed
    (h.admitted winner hwinner) h.slot_admitted (h.object winner hwinner) h.slot_free h.room
  have hattempt : ((Operation.claim winner.source slot).attempt b).2 = after :=
    congrArg Prod.snd hclaim
  have hc := continues_attempt h.wellFormed (.claim winner.source slot)
  rw [hattempt] at hc
  refine ⟨after, hclaim, hc, hc.wellFormed h.wellFormed, hc.admits.mpr h.slot_admitted,
    htaken, hroom, fun w hw => hc.admits.mpr (h.admitted w hw), hgone, fun w hw hne => ?_⟩
  refine hothers w.source w.content (fun hnames => hne ?_) (h.object w hw)
  have hsource : w.source = winner.source :=
    Location.eq_of_names_eq (h.admitted w hw).isObject (h.admitted winner hwinner).isObject hnames
  exact List.inj_on_of_nodup_map h.distinct hw hwinner hsource

/-- Every later claim is refused and changes nothing. -/
lemma Settled.claim {loser : Writer} (h : b.Settled slot writers winner) (hloser : loser ∈ writers)
    (hne : loser ≠ winner) :
    ObjectStore.claim b loser.source slot = (.error (.alreadyExists slot), b) :=
  claim_of_taken (h.admitted loser hloser) h.slot_admitted (h.object loser hloser hne) h.slot_taken

/-- Once the slot is settled, it stays so through all events. -/
lemma Settled.run {events : List Event} (h : b.Settled slot writers winner)
    (hwinner : winner ∈ writers) (hlosers : ∀ w ∈ claimants events, w ∈ writers ∧ w ≠ winner)
    (hspares : ∀ op, .other op ∈ events → b.Spares op (contestPlaces slot writers)) :
    (runEvents slot b events).1 = (claimants events).map (fun _ => .error (.alreadyExists slot)) ∧
      (runEvents slot b events).2.Settled slot writers winner := by
  induction events generalizing b with
  | nil => exact ⟨rfl, h⟩
  | cons event events ih =>
    cases event with
    | claim loser =>
      obtain ⟨hloser, hne⟩ := hlosers loser (by simp [claimants])
      obtain ⟨houtcomes, hlast⟩ := ih h
        (fun w hw => hlosers w (by simpa [claimants] using .inr (by simpa [claimants] using hw)))
        (fun op hop => hspares op (List.mem_cons_of_mem _ hop))
      rw [runEvents, h.claim hloser hne]
      refine ⟨?_, hlast⟩
      simp [houtcomes, claimants]
    | other op =>
      have hs := hspares op List.mem_cons_self
      have hc := continues_attempt h.wellFormed op
      exact ih (h.other hwinner hs) hlosers
        fun op' hop' => hc.spares (hspares op' (List.mem_cons_of_mem _ hop'))

/-- The first claim among some events wins, whatever happens before and after it. -/
lemma Contested.run {events : List Event} {rest : List Writer} (h : b.Contested slot writers)
    (hclaimants : claimants events = winner :: rest) (honce : (winner :: rest).Nodup)
    (hmem : ∀ w ∈ winner :: rest, w ∈ writers)
    (hspares : ∀ op, .other op ∈ events → b.Spares op (contestPlaces slot writers)) :
    (runEvents slot b events).1 = .ok () :: rest.map (fun _ => .error (.alreadyExists slot)) ∧
      (runEvents slot b events).2.Settled slot writers winner := by
  induction events generalizing b with
  | nil => simp [claimants] at hclaimants
  | cons event events ih =>
    cases event with
    | claim w =>
      obtain ⟨rfl, hrest⟩ : w = winner ∧ claimants events = rest := by
        simpa [claimants] using hclaimants
      have hw := hmem w List.mem_cons_self
      obtain ⟨after, hclaim, hc, hsettled⟩ := h.claim hw
      have hlosers : ∀ v ∈ claimants events, v ∈ writers ∧ v ≠ w := by
        intro v hv
        rw [hrest] at hv
        refine ⟨hmem v (List.mem_cons_of_mem _ hv), ?_⟩
        rintro rfl
        exact (List.nodup_cons.mp honce).1 hv
      obtain ⟨houtcomes, hlast⟩ := hsettled.run hw hlosers
        fun op hop => hc.spares (hspares op (List.mem_cons_of_mem _ hop))
      rw [runEvents, hclaim]
      refine ⟨?_, hlast⟩
      rw [← hrest, ← houtcomes]
    | other op =>
      have hs := hspares op List.mem_cons_self
      have hc := continues_attempt h.wellFormed op
      exact ih (h.other hs) hclaimants
        fun op' hop' => hc.spares (hspares op' (List.mem_cons_of_mem _ hop'))

/-- Of the writers that claim a free slot the first wins, in whatever order they claim it and
whatever else is done in between, away from the slot, their objects and the directories of the root
path. -/
theorem claims_have_one_winner {events : List Event} {rest : List Writer}
    (hwf : b.WellFormed) (hslot : b.Admits slot) (hroom : b.HasRoom slot)
    (hfree : ObjectStore.head b slot = .error (.notFound slot))
    (hwriters : ∀ w ∈ writers, b.Admits w.source ∧ ObjectStore.get b w.source = .ok w.content)
    (hdistinct : (writers.map (·.source)).Nodup)
    (hclaimants : claimants events = winner :: rest) (honce : (winner :: rest).Nodup)
    (hmem : ∀ w ∈ winner :: rest, w ∈ writers)
    (hspares : ∀ op, .other op ∈ events → b.Spares op (contestPlaces slot writers)) :
    (runEvents slot b events).1 = .ok () :: rest.map (fun _ => .error (.alreadyExists slot)) ∧
      ObjectStore.get (runEvents slot b events).2 slot = .ok winner.content ∧
      (∀ content, ObjectStore.get (runEvents slot b events).2 winner.source ≠ .ok content) ∧
      ∀ loser ∈ writers, loser ≠ winner →
        ObjectStore.get (runEvents slot b events).2 loser.source = .ok loser.content := by
  have hcontested : b.Contested slot writers := by
    refine ⟨hwf, hslot, isFree_of_head hslot hroom.isOpen hfree, hroom,
      fun w hw => (hwriters w hw).1, fun w hw => ?_, hdistinct⟩
    exact (get_eq_ok_iff (hwriters w hw).1).mp (hwriters w hw).2
  obtain ⟨houtcomes, hsettled⟩ := hcontested.run hclaimants honce hmem hspares
  have hwinner := hmem winner List.mem_cons_self
  refine ⟨houtcomes, ?_, fun content => ?_, fun loser hloser hne => ?_⟩
  · exact (get_eq_ok_iff hsettled.slot_admitted).mpr hsettled.slot_taken
  · exact hsettled.gone.get_ne_ok (hsettled.admitted winner hwinner)
  · exact (get_eq_ok_iff (hsettled.admitted loser hloser)).mpr (hsettled.object loser hloser hne)

/-- A store in the directory `t` with the objects of two writers. -/
def contestSample : Backend :=
  let s : Backend := disk ⟨.bare ["w"], ⟨"t"⟩, .hardLink, .epoch⟩
  let s := (ObjectStore.put s (.ofText "a") ⟨#[1]⟩ .epoch).2
  (ObjectStore.put s (.ofText "b") ⟨#[2]⟩ .epoch).2

theorem contestSample_has_one_winner :
    (runEvents (.ofText "slot") contestSample
        [.claim ⟨.ofText "a", ⟨#[1]⟩⟩, .other (.put (.ofText "c") ⟨#[3]⟩ .epoch),
          .claim ⟨.ofText "b", ⟨#[2]⟩⟩]).1 =
      [.ok (), .error (.alreadyExists (.ofText "slot"))] := by
  have hspares : ∀ op, Event.other op ∈ [Event.claim ⟨.ofText "a", ⟨#[1]⟩⟩,
      .other (.put (.ofText "c") ⟨#[3]⟩ .epoch), .claim ⟨.ofText "b", ⟨#[2]⟩⟩] →
      contestSample.Spares op (contestPlaces (.ofText "slot")
        [⟨.ofText "a", ⟨#[1]⟩⟩, ⟨.ofText "b", ⟨#[2]⟩⟩]) := by
    intro op hop
    obtain rfl : op = .put (.ofText "c") ⟨#[3]⟩ .epoch := by simpa using hop
    exact ⟨by decide, by decide +kernel⟩
  exact (claims_have_one_winner (by decide +kernel)
    ⟨by decide, by rintro s ⟨⟩; decide +kernel⟩ (by decide +kernel) (by decide +kernel)
    (by
      intro w hw
      rcases List.mem_cons.mp hw with rfl | hw
      · exact ⟨⟨by decide, by rintro s ⟨⟩; decide +kernel⟩, by decide +kernel⟩
      · obtain rfl := List.mem_singleton.mp hw
        exact ⟨⟨by decide, by rintro s ⟨⟩; decide +kernel⟩, by decide +kernel⟩)
    (by decide) rfl (by decide) (by simp) hspares).1

/-- A store whose root path leads through the directory `x` of the store. -/
def throughSample : Backend :=
  let tree : Directory := .folder "w" (.folder "t" (.folder "x" .empty .empty) .empty) .empty
  (ObjectStore.put (disk ⟨⟨tree, ["w"]⟩, ⟨"t/x/.."⟩, .hardLink, .epoch⟩) (.ofText "a")
    ⟨#[1]⟩ .epoch).2

/-- When the root path leads through `x`, moving `x` away puts the slot out of reach. -/
theorem root_through_store_loses_slot :
    throughSample.WellFormed ∧ throughSample.HasRoom (.ofText "slot") ∧
      ObjectStore.head throughSample (.ofText "slot") = .error (.notFound (.ofText "slot")) ∧
      ObjectStore.get throughSample (.ofText "a") = .ok ⟨#[1]⟩ ∧
      (∀ t ∈ (Operation.rename (.ofText "x") (.ofText "y")).touched,
        ∀ p ∈ contestPlaces (.ofText "slot") [⟨.ofText "a", ⟨#[1]⟩⟩], t.Apart p) ∧
      let events := [Event.claim ⟨.ofText "a", ⟨#[1]⟩⟩,
        .other (.rename (.ofText "x") (.ofText "y"))]
      (runEvents (.ofText "slot") throughSample events).1 = [.ok ()] ∧
        ObjectStore.get (runEvents (.ofText "slot") throughSample events).2 (.ofText "slot") =
          .error (.notFound (.ofText "slot")) := by
  decide +kernel

end Backend

end CommitStore
