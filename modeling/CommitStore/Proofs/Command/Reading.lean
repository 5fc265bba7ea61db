import CommitStore.Proofs.Command.Arguments

/-!
# Reading without faults

Reading checks late: what is pending is looked at only when the next argument, or the end of its
level, shows that it is complete.  This decides which of several faults is reported, but not whether
there is one.

Where only that matters, everything may be checked where it stands, as `Level.toOption_read` says.
`Level.give?` takes an option at once, and reading goes on with what was given and found right,
`Level.settled?`.  Within one argument the last option may be left waiting, which is what sets
`Level.hand?` apart from `Level.give?`.
-/

namespace CommitStore

open CommandLine

lemma toOption_bind {ε α β : Type} (x : Except ε α) (f : α → Except ε β) :
    (x >>= f).toOption = x.toOption.bind fun a => (f a).toOption := by
  cases x <;> rfl

namespace Level

variable {level : Level} {g : Given} {p : Progress}

/-! ## What is pending -/

/-- What is given once everything that is pending was found right. -/
def settled? (level : Level) (p : Progress) : Option Given :=
  (p.settle level).toOption.map (·.given)

@[simp] lemma settled?_mk_none (level : Level) (g : Given) :
    level.settled? ⟨g, none⟩ = some g := rfl

/-- Nothing is pending any more when everything was found right. -/
lemma settle_cases (level : Level) (p : Progress) :
    (∃ e, p.settle level = .error e ∧ level.settled? p = none) ∨
      ∃ g, p.settle level = .ok ⟨g, none⟩ ∧ level.settled? p = some g := by
  have hpending : ∀ q, p.settle level = .ok q → q.pending = none := by
    intro q hq
    unfold Progress.settle Progress.store at hq
    dsimp only at hq
    split at hq
    · cases hq; rfl
    · cases hq
    · split at hq
      · cases hq
      · split at hq
        · cases hq; rfl
        · cases hq
    · split at hq
      · cases hq
      · cases hq; rfl
  cases h : p.settle level with
  | error e => exact .inl ⟨e, rfl, by simp [settled?, h, Except.toOption]⟩
  | ok q =>
    obtain ⟨g, pending⟩ := q
    obtain rfl : pending = none := hpending _ h
    exact .inr ⟨g, rfl, by simp [settled?, h, Except.toOption]⟩

lemma positionals_of_settled? (hg : level.settled? p = some g) :
    g.positionals.length = p.positionals := by
  unfold settled? Progress.settle Progress.store at hg
  unfold Progress.positionals
  obtain ⟨given, _ | ⟨s, _ | v⟩ | w⟩ := p
  · cases hg; rfl
  · cases hg
  · dsimp only at hg
    split at hg
    · cases hg
    · split at hg
      · cases hg; cases s <;> rfl
      · cases hg
  · dsimp only at hg
    split at hg
    · cases hg
    · cases hg; simp

/-- What is pending is checked before a long option is taken. -/
lemma toOption_readLong_settled (name : String) (value : Option String) :
    (level.readLong p name value).toOption =
      (level.settled? p).bind fun g => (level.readLong ⟨g, none⟩ name value).toOption := by
  unfold readLong
  rcases settle_cases level p with ⟨e, he, hnone⟩ | ⟨g, hg, hsome⟩
  · rw [hnone, he]
    split <;> rfl
  · rw [hsome, hg]
    rfl

lemma toOption_readLetters_settled (letter : Char) (letters : List Char) :
    (level.readLetters p (letter :: letters)).toOption =
      (level.settled? p).bind fun g =>
      (level.readLetters ⟨g, none⟩ (letter :: letters)).toOption := by
  unfold readLetters
  rcases settle_cases level p with ⟨e, he, hnone⟩ | ⟨g, hg, hsome⟩
  · rw [hnone, he]
    split <;> rfl
  · rw [hsome, hg]
    rfl

lemma toOption_readWord_settled (trailing : Bool) (h : p.awaitsValue = true → trailing = true)
    (arg : String) :
    (level.readWord p trailing arg).toOption =
      (level.settled? p).bind fun g => (level.readWord ⟨g, none⟩ trailing arg).toOption := by
  -- an option that waits would take the word, which `h` excludes
  have hplace : level.readWord p trailing arg = if p.positionals < level.arity then do
        return { ← p.settle level with pending := some (.positional arg) }
      else if level.hasLevels ∧ ¬(trailing ∧ (level.opens? arg).isSome) then
        .error .invalidSubcommand
      else .error .unknownArgument := by
    unfold readWord
    split
    · rename_i hp
      rw [Progress.awaitsValue, hp] at h
      cases h rfl
    · rfl
  rw [hplace]
  rcases settle_cases level p with ⟨e, he, hnone⟩ | ⟨g, hg, hsome⟩
  · rw [hnone, he]
    split_ifs <;> rfl
  · rw [hsome, hg, ← positionals_of_settled? hsome]
    rfl

lemma toOption_readArgument (trailing : Bool) (h : p.awaitsValue = true → trailing = true)
    (arg : String) :
    (level.readArgument p trailing arg).toOption =
      (level.settled? p).bind fun g => (level.readArgument ⟨g, none⟩ trailing arg).toOption := by
  unfold readArgument
  split
  · exact toOption_readLong_settled _ _
  · exact toOption_readLetters_settled _ _
  · exact toOption_readWord_settled _ h arg

lemma toOption_read (trailing : Bool) (h : p.awaitsValue = true → trailing = true)
    (args : List String) :
    (level.read p trailing args).toOption =
      (level.settled? p).bind fun g => (level.read ⟨g, none⟩ trailing args).toOption := by
  have hnot : ∀ g : Given, (⟨g, none⟩ : Progress).awaitsValue = false := fun _ => rfl
  -- `--` leaves what is pending as it is, so that the rest is read with the same `p`
  induction args generalizing trailing with
  | nil =>
    simp only [read, finish]
    rcases settle_cases level p with ⟨e, he, hnone⟩ | ⟨g, hg, hsome⟩
    · rw [hnone, he]
      rfl
    · rw [hsome, hg]
      rfl
  | cons arg args ih =>
    have hopen : (trailing || p.awaitsValue) = trailing := by
      cases trailing <;> simp_all
    simp only [read, hopen, hnot, Bool.or_false]
    cases if trailing then none else level.opens? arg with
    | none =>
      by_cases hend : arg = "--" ∧ ¬trailing
      · simpa only [if_pos hend] using ih true fun _ => rfl
      · simp only [if_neg hend, toOption_bind, toOption_readArgument trailing h, Option.bind_assoc]
    | some opening =>
      cases opening with
      | help => exact (Option.bind_fun_none _).symm
      | level below =>
        dsimp only
        rcases settle_cases level p with ⟨e, he, hnone⟩ | ⟨g, hg, hsome⟩
        · rw [hnone, he]
          cases below.read {} false args <;> rfl
        · rw [hsome, hg]
          rfl

end Level

/-! ## Taking options -/

namespace Given

/-- Whether an option is given. -/
def has (g : Given) : Flag → Bool
  | .setting s => (g.value? s).isSome
  | .switch .verbose => g.verbose
  | .switch .ifNotExists => g.ifNotExists
  | .switch _ => false

/-- Take an option. -/
def receive (g : Given) : Gift → Given
  | .setting s (some value) => g.assign value s
  | .switch .verbose => { g with verbose := true }
  | .switch .ifNotExists => { g with ifNotExists := true }
  | _ => g

end Given

/-- Whether an option is given in full, with a value that it takes.  Help and version are asked for,
not given. -/
def Gift.isSound : Gift → Bool
  | .setting s value => value.any s.takes
  | .switch .verbose => true
  | .switch .ifNotExists => true
  | .switch _ => false

lemma Gift.waits_of_isSound {gift : Gift} (h : gift.isSound = true) : gift.waits = false := by
  rcases gift with _ | ⟨_, _ | _⟩
  · rfl
  · cases h
  · rfl

namespace Level

variable {level : Level} {g : Given}

/-- Take an option that the level knows and that was not given there before. -/
def give? (level : Level) (g : Given) (gift : Gift) : Option Given :=
  if level.knows gift.flag ∧ g.has gift.flag = false ∧ gift.isSound then
    some (g.receive gift)
  else none

/-- Take options one after the other. -/
def giveAll? (level : Level) (g : Given) (gifts : List Gift) : Option Given :=
  gifts.foldlM level.give? g

/-- Read an option, which may be left waiting for its value. -/
def hand? (level : Level) (g : Given) : Gift → Option Progress
  | .setting s none => if level.knows (.setting s) then some ⟨g, some (.setting s none)⟩ else none
  | gift => (level.give? g gift).map (⟨·, none⟩)

/-- Read the options of one argument. -/
def handAll? (level : Level) (p : Progress) (gifts : List Gift) : Option Progress :=
  gifts.foldlM (fun p gift => (level.settled? p).bind (level.hand? · gift)) p

/-- An option that the level does not know is not taken. -/
lemma hand?_of_not_knows (gift : Gift) (h : level.knows gift.flag = false) :
    level.hand? g gift = none := by
  rcases gift with s | ⟨s, _ | value⟩
  · exact congrArg (Option.map _) (if_neg fun hgive => Bool.false_ne_true (h.symm.trans hgive.1))
  · exact if_neg fun hknows => Bool.false_ne_true (h.symm.trans hknows)
  · exact congrArg (Option.map _) (if_neg fun hgive => Bool.false_ne_true (h.symm.trans hgive.1))

lemma handAll?_cons (p : Progress) (gift : Gift) (gifts : List Gift) :
    level.handAll? p (gift :: gifts) =
      ((level.settled? p).bind (level.hand? · gift)).bind (level.handAll? · gifts) := by
  simp [handAll?]

lemma handAll?_singleton (p : Progress) (gift : Gift) :
    level.handAll? p [gift] = (level.settled? p).bind (level.hand? · gift) := by
  rw [handAll?_cons]
  exact Option.bind_fun_some _

/-- An option that the level does not know spoils all options of its argument. -/
lemma handAll?_cons_of_not_knows (p : Progress) {gift : Gift} (gifts : List Gift)
    (h : level.knows gift.flag = false) : level.handAll? p (gift :: gifts) = none := by
  simp only [handAll?_cons, hand?_of_not_knows gift h, Option.bind_fun_none, Option.bind_none]

lemma handAll?_append (p : Progress) (gifts gifts' : List Gift) :
    level.handAll? p (gifts ++ gifts') =
      (level.handAll? p gifts).bind (level.handAll? · gifts') := by
  simp [handAll?]

lemma giveAll?_cons (g : Given) (gift : Gift) (gifts : List Gift) :
    level.giveAll? g (gift :: gifts) = (level.give? g gift).bind (level.giveAll? · gifts) := by
  simp [giveAll?]

lemma giveAll?_append (g : Given) (gifts gifts' : List Gift) :
    level.giveAll? g (gifts ++ gifts') =
      (level.giveAll? g gifts).bind (level.giveAll? · gifts') := by
  simp [giveAll?]

@[simp] lemma giveAll?_singleton (g : Given) (gift : Gift) :
    level.giveAll? g [gift] = level.give? g gift := by
  simp [giveAll?]

lemma hand?_of_not_waits (g : Given) {gift : Gift} (h : gift.waits = false) :
    level.hand? g gift = (level.give? g gift).map (⟨·, none⟩) := by
  rcases gift with _ | ⟨_, _ | _⟩
  · rfl
  · cases h
  · rfl

/-- Options that do not wait for a value leave nothing pending. -/
lemma handAll?_of_not_waits (g : Given) {gifts : List Gift}
    (h : ∀ gift ∈ gifts, gift.waits = false) :
    level.handAll? ⟨g, none⟩ gifts = (level.giveAll? g gifts).map (⟨·, none⟩) := by
  induction gifts generalizing g with
  | nil => rfl
  | cons gift gifts ih =>
    have ih := fun g => ih g fun gift hgift => h gift (List.mem_cons_of_mem _ hgift)
    rw [handAll?_cons, settled?_mk_none, Option.bind_some,
      hand?_of_not_waits g (h _ (List.mem_cons_self ..)), Option.bind_map, giveAll?,
      List.foldlM_cons]
    exact (congrArg _ (funext ih)).trans (Option.map_bind ..).symm

lemma handAll?_append_waiting (g : Given) {gifts : List Gift}
    (h : ∀ gift ∈ gifts, gift.waits = false) (s : Setting) :
    level.handAll? ⟨g, none⟩ (gifts ++ [.setting s none]) =
      (level.giveAll? g gifts).bind (level.hand? · (.setting s none)) := by
  have hlast (g : Given) : level.handAll? ⟨g, none⟩ [.setting s none] =
      level.hand? g (.setting s none) :=
    handAll?_singleton ⟨g, none⟩ (.setting s none)
  simp only [handAll?_append, handAll?_of_not_waits g h, Option.bind_map, Function.comp_def, hlast]

/-! ## Reading options -/

lemma toOption_store (level : Level) (g : Given) (s : Setting) (value : String)
    (h : level.knows (.setting s)) :
    ((⟨g, none⟩ : Progress).store s value).toOption = level.hand? g (.setting s (some value)) := by
  unfold Progress.store hand? give?
  by_cases hgiven : (g.value? s).isSome
  · simp [hgiven, Gift.flag, Given.has, Except.toOption]
  · by_cases htakes : s.takes value
    · simp [hgiven, htakes, h, Gift.flag, Given.has, Gift.isSound, Given.receive, Except.toOption]
    · simp [hgiven, htakes, Gift.flag, Given.has, Gift.isSound, Except.toOption]

lemma toOption_raise (level : Level) (g : Given) (s : Switch) (h : level.knows (.switch s)) :
    ((⟨g, none⟩ : Progress).raise s).toOption = level.hand? g (.switch s) := by
  unfold Progress.raise hand? give?
  cases s with
  | help => simp [Gift.flag, Gift.isSound, Except.toOption]
  | version => simp [Gift.flag, Gift.isSound, Except.toOption]
  | verbose =>
    cases hgiven : g.verbose <;>
      simp [hgiven, h, Gift.flag, Given.has, Gift.isSound, Given.receive, Except.toOption]
  | ifNotExists =>
    cases hgiven : g.ifNotExists <;>
      simp [hgiven, h, Gift.flag, Given.has, Gift.isSound, Given.receive, Except.toOption]

lemma toOption_settle_bind {α : Type} (level : Level) (p : Progress)
    (f : Progress → Except UsageError α) :
    (p.settle level >>= f).toOption = (level.settled? p).bind fun g => (f ⟨g, none⟩).toOption := by
  rcases settle_cases level p with ⟨e, he, hnone⟩ | ⟨g, hg, hsome⟩
  · rw [he, hnone]
    rfl
  · rw [hg, hsome]
    rfl

/-- One option is read when everything before it was found right. -/
lemma toOption_settle_hand (p : Progress) {f : Progress → Except UsageError Progress} {gift : Gift}
    (h : ∀ g, (f ⟨g, none⟩).toOption = level.hand? g gift) :
    (p.settle level >>= f).toOption = level.handAll? p [gift] := by
  rw [toOption_settle_bind, handAll?_singleton]
  exact congrArg _ (funext h)

lemma toOption_readLetters (p : Progress) (letters : List Char) :
    (level.readLetters p letters).toOption = (giftsOfLetters? letters).bind (level.handAll? p) := by
  induction letters generalizing p with
  | nil => rfl
  | cons letter rest ih =>
    rw [readLetters.eq_def, giftsOfLetters?.eq_def]
    dsimp only
    rw [shortFlag?_eq]
    rcases Flag.ofLetter? letter with _ | flag
    · rfl
    cases hknows : level.knows flag with
    | false =>
      rw [Option.filter_some_neg (by simp [hknows])]
      rcases flag with s | s
      · exact (handAll?_cons_of_not_knows p [] hknows).symm
      · rw [Option.bind_map]
        exact ((congrArg _ (funext fun gifts => handAll?_cons_of_not_knows p gifts hknows)).trans
          (Option.bind_fun_none _)).symm
    | true =>
      rw [Option.filter_some_pos hknows]
      rcases flag with s | s
      · refine toOption_settle_hand p fun g => ?_
        split
        · exact (if_pos hknows).symm
        · exact toOption_store level g s _ hknows
        · rw [attachedValue?.eq_3 rest ‹_› ‹_›]
          exact toOption_store level g s _ hknows
      · dsimp only
        rw [← bind_assoc, toOption_bind, toOption_settle_bind, Option.bind_map]
        -- the switch and the letters behind it are found independently of each other
        simp only [toOption_raise level _ s hknows, ih, handAll?_cons, Function.comp_def]
        exact Option.bind_comm _ _

lemma toOption_readLong (p : Progress) (name : String) (value : Option String) :
    (level.readLong p name value).toOption =
      (giftOfLong? name value).bind fun gift => level.handAll? p [gift] := by
  unfold readLong giftOfLong?
  rw [longFlag?_eq]
  rcases Flag.ofName? name with _ | flag
  · rfl
  cases hknows : level.knows flag with
  | false =>
    rw [Option.filter_some_neg (by simp [hknows])]
    rcases flag with s | s
    · exact (handAll?_cons_of_not_knows p [] hknows).symm
    · cases value with
      | none => exact (handAll?_cons_of_not_knows p [] hknows).symm
      | some value => rfl
  | true =>
    rw [Option.filter_some_pos hknows]
    rcases flag with s | s
    · cases value with
      | none => exact toOption_settle_hand p fun g => (if_pos hknows).symm
      | some value => exact toOption_settle_hand p fun g => toOption_store level g s value hknows
    · cases value with
      | none => exact toOption_settle_hand p fun g => toOption_raise level g s hknows
      | some value => rfl

lemma toOption_readArgument_of_not_isWord (p : Progress) (arg : String) (h : ¬IsWord arg) :
    (level.readArgument p false arg).toOption = (giftsOf? arg).bind (level.handAll? p) := by
  unfold IsWord at h
  unfold readArgument giftsOf?
  split at h
  · rename_i next rest hlist
    rw [hlist]
    split
    · rename_i long _ hlong
      cases hlong
      exact (toOption_readLong p _ _).trans Option.bind_map.symm
    · rename_i hnot _ hletters
      cases hletters
      split
      · rename_i long hlong
        cases hlong
        exact (hnot rfl).elim
      · rename_i hletters
        cases hletters
        exact toOption_readLetters p (next :: rest)
      · rename_i hnone
        exact absurd rfl (hnone _ _)
    · rename_i hnone
      exact absurd rfl (hnone _ _ rfl)
  · exact absurd trivial h

end Level

end CommitStore
