import CommitStore.Proofs.Command.Reading

/-!
# Accepted command lines

Whether a command line is accepted, and what is given at its levels then, is said here by
`Level.accepted`, argument by argument.  A complete argument opens a level or is taken at the level
at which it stands (`Level.take?`), and the rest is read with what is given by then;
`Level.accepted_item` is this step.  Behind the last complete argument there may be nothing, or `--`
with positional arguments, but no option that still waits for its value.
-/

namespace CommitStore

open CommandLine

namespace Level

variable {level : Level} {g : Given}

/-- Take a positional argument. -/
def place? (level : Level) (g : Given) (word : String) : Option Given :=
  if g.positionals.length < level.arity ∧
    ¬(level = .verb .statePut ∧ (versionOfText? word).isNone) then
    some { g with positionals := g.positionals ++ [word] }
  else none

/-- Take a complete argument that opens no level. -/
def take? (level : Level) (g : Given) (item : Item) : Option Given :=
  if IsWord item.arg then level.place? g item.arg else item.gifts?.bind (level.giveAll? g)

/-- What is given at the levels of a command line, with `g` given at the first before. -/
def accepted (level : Level) (g : Given) (args : List String) : Option (List (Level × Given)) :=
  (level.read ⟨g, none⟩ false args).toOption

lemma toOption_read_of_not_awaitsValue {p : Progress} (h : p.awaitsValue = false)
    (args : List String) :
    (level.read p false args).toOption = (level.settled? p).bind (level.accepted · args) :=
  toOption_read false (by simp [h]) args

lemma readWord_mk_none (trailing : Bool) (g : Given) (word : String) :
    level.readWord ⟨g, none⟩ trailing word =
      if g.positionals.length < level.arity then .ok ⟨g, some (.positional word)⟩
      else if level.hasLevels ∧ ¬(trailing ∧ (level.opens? word).isSome) then
        .error .invalidSubcommand
      else .error .unknownArgument := rfl

lemma toOption_readWord_bind (trailing : Bool) (g : Given) (word : String) (args : List String) :
    ((level.readWord ⟨g, none⟩ trailing word).toOption.bind fun p =>
      (level.read p trailing args).toOption) =
      (level.place? g word).bind fun g => (level.read ⟨g, none⟩ trailing args).toOption := by
  have hsettled : level.settled? ⟨g, some (.positional word)⟩ =
      if level = .verb .statePut ∧ (versionOfText? word).isNone then none
      else some { g with positionals := g.positionals ++ [word] } := by
    simp only [settled?, Progress.settle]
    split_ifs <;> rfl
  rw [readWord_mk_none, place?]
  by_cases harity : g.positionals.length < level.arity
  · rw [if_pos harity]
    refine (toOption_read trailing (by rintro ⟨⟩) args).trans ?_
    rw [hsettled]
    congr 1
    by_cases hversion : level = .verb .statePut ∧ (versionOfText? word).isNone
    · rw [if_pos hversion, if_neg fun h => h.2 hversion]
    · rw [if_neg hversion, if_pos ⟨harity, hversion⟩]
  · rw [if_neg harity]
    have hnot : ¬(g.positionals.length < level.arity ∧
        ¬(level = .verb .statePut ∧ (versionOfText? word).isNone)) := fun h => harity h.1
    rw [if_neg hnot]
    split <;> rfl

lemma accepted_word (g : Given) {word : String} (h : IsWord word) (args : List String) :
    level.accepted g (word :: args) = match level.opens? word with
      | some .help => none
      | some (.level below) => (below.accepted {} args).map ((level, g) :: ·)
      | none => (level.place? g word).bind (level.accepted · args) := by
  have hend : word ≠ "--" := by
    rintro rfl
    exact absurd h (by decide)
  have harg : level.readArgument ⟨g, none⟩ false word = level.readWord ⟨g, none⟩ false word := by
    unfold IsWord at h
    unfold readArgument
    split <;> simp_all
  rw [accepted, read.eq_2]
  simp only [Progress.awaitsValue, Bool.or_false, Bool.false_eq_true, if_false, hend,
    false_and, harg]
  cases level.opens? word with
  | none =>
    dsimp only
    rw [toOption_bind]
    exact toOption_readWord_bind false g word args
  | some opening =>
    cases opening with
    | help => rfl
    | level below =>
      dsimp only
      unfold accepted
      cases below.read {} false args <;> rfl

lemma toOption_read_trailing (g : Given) (words : List String) :
    (level.read ⟨g, none⟩ true words).toOption =
      (words.foldlM level.place? g).bind (level.accepted · []) := by
  induction words generalizing g with
  | nil => rfl
  | cons word words ih =>
    rw [read.eq_2]
    simp only [Bool.true_or, if_true, not_true_eq_false, and_false, if_false]
    rw [toOption_bind]
    refine (toOption_readWord_bind true g word words).trans ?_
    simp only [ih, List.foldlM_cons, Option.bind_eq_bind, Option.bind_assoc]

/-- Behind `--` all arguments are positional. -/
lemma accepted_dashes (g : Given) (words : List String) :
    level.accepted g ("--" :: words) =
      (words.foldlM level.place? g).bind (level.accepted · []) := by
  have hword : ¬IsWord "--" := by decide
  rw [accepted, read.eq_2]
  simp only [Progress.awaitsValue, Bool.or_false, Bool.false_eq_true, if_false,
    opens?_of_not_isWord level hword, not_false_eq_true, and_self, if_true]
  exact toOption_read_trailing g words

/-- A value is not looked for in an argument that is no word. -/
lemma toOption_read_waiting (g : Given) (s : Setting) (value : String) (args : List String) :
    (level.read ⟨g, some (.setting s none)⟩ false (value :: args)).toOption =
      if IsWord value then (level.settled? ⟨g, some (.setting s (some value))⟩).bind
      (level.accepted · args)
      else none := by
  rw [read.eq_2]
  simp only [Progress.awaitsValue, Bool.or_true, if_true]
  by_cases hend : value = "--"
  · subst hend
    simp only [Bool.false_eq_true, not_false_eq_true, and_self, if_true]
    rw [toOption_read true (fun _ => rfl), if_neg (by decide)]
    rfl
  · rw [if_neg fun h => hend h.1, toOption_bind]
    by_cases hword : IsWord value
    · rw [if_pos hword, ← toOption_read_of_not_awaitsValue rfl]
      have : level.readArgument ⟨g, some (.setting s none)⟩ false value =
          .ok ⟨g, some (.setting s (some value))⟩ := by
        unfold IsWord at hword
        unfold readArgument
        split <;> simp_all [readWord]
      rw [this]
      rfl
    · rw [if_neg hword, toOption_readArgument_of_not_isWord _ _ hword]
      rcases hgifts : giftsOf? value with _ | _ | ⟨gift, gifts⟩
      · rfl
      · exact absurd hgifts (giftsOf?_ne_nil value)
      · rw [Option.bind_some, handAll?_cons]
        rfl

lemma hand?_waiting_bind (g : Given) (s : Setting) (value : String) (args : List String) :
    ((level.hand? g (.setting s none)).bind fun p =>
      (level.read p false (value :: args)).toOption) =
      if IsWord value then (level.give? g (.setting s (some value))).bind (level.accepted · args)
      else none := by
  rw [hand?]
  by_cases hknows : level.knows (.setting s)
  · have hsettled : level.settled? ⟨g, some (.setting s (some value))⟩ =
        level.give? g (.setting s (some value)) := by
      change Option.map _ (Except.toOption (Progress.store ⟨g, none⟩ s value)) = _
      rw [toOption_store level g s value hknows, hand?_of_not_waits g rfl, Option.map_map]
      exact Option.map_id'
    rw [if_pos hknows, Option.bind_some, toOption_read_waiting, hsettled]
  · have hgive : level.give? g (.setting s (some value)) = none := if_neg fun h => hknows h.1
    rw [if_neg hknows, hgive]
    exact (ite_self _).symm

/-- An argument that is an option is read as the options that it gives. -/
lemma accepted_cons (g : Given) {arg : String} (hword : ¬IsWord arg) (hend : arg ≠ "--")
    (args : List String) :
    level.accepted g (arg :: args) = (giftsOf? arg).bind fun gifts =>
      (level.handAll? ⟨g, none⟩ gifts).bind fun p => (level.read p false args).toOption := by
  rw [accepted, read.eq_2]
  simp only [Progress.awaitsValue, Bool.or_false, Bool.false_eq_true, if_false,
    opens?_of_not_isWord level hword, hend, false_and]
  rw [toOption_bind, toOption_readArgument_of_not_isWord _ _ hword, Option.bind_assoc]

/-- Options that have their values are taken. -/
lemma accepted_full (g : Given) {arg : String} {gifts : List Gift}
    (hgifts : giftsOf? arg = some gifts) (hfull : ∀ gift ∈ gifts, gift.waits = false)
    (args : List String) :
    level.accepted g (arg :: args) = (level.giveAll? g gifts).bind (level.accepted · args) := by
  have hend : arg ≠ "--" := by
    rintro rfl
    cases (show giftsOf? "--" = none from rfl).symm.trans hgifts
  rw [accepted_cons g (not_isWord_of_giftsOf? hgifts) hend, hgifts, Option.bind_some,
    handAll?_of_not_waits g hfull, Option.bind_map]
  rfl

/-- The last option in an argument takes the word that follows. -/
lemma accepted_append_waiting (g : Given) {arg : String} {gifts : List Gift} {s : Setting}
    (hgifts : giftsOf? arg = some (gifts ++ [.setting s none]))
    (hfull : ∀ gift ∈ gifts, gift.waits = false) (value : String) (args : List String) :
    level.accepted g (arg :: value :: args) =
      if IsWord value then
        (level.giveAll? g (gifts ++ [.setting s (some value)])).bind (level.accepted · args)
      else none := by
  have hend : arg ≠ "--" := by
    rintro rfl
    cases (show giftsOf? "--" = none from rfl).symm.trans hgifts
  rw [accepted_cons g (not_isWord_of_giftsOf? hgifts) hend, hgifts, Option.bind_some,
    handAll?_append_waiting g hfull, Option.bind_assoc]
  simp only [hand?_waiting_bind]
  by_cases hvalue : IsWord value
  · simp only [if_pos hvalue, giveAll?_append, giveAll?_singleton, Option.bind_assoc]
  · simp only [if_neg hvalue, Option.bind_fun_none]

/-- What a complete option leads to. -/
lemma accepted_option (g : Given) {item : Item} (hitem : item.IsComplete) (hword : ¬IsWord item.arg)
    (args : List String) :
    level.accepted g (item.arguments ++ args) =
      (item.gifts?.bind (level.giveAll? g)).bind (level.accepted · args) := by
  have hvalue := hitem.isSome_value
  cases hgifts : giftsOf? item.arg with
  | none =>
    have hnone : item.gifts? = none := by
      unfold Item.gifts?
      rw [hgifts]
      split
      · rfl
      · exact ite_self _
    rw [Item.arguments, List.cons_append, accepted_cons g hword hitem.arg_ne, hgifts, hnone]
    rfl
  | some gifts =>
    obtain ⟨arg, _ | value⟩ := item
    · have hfull : ∀ gift ∈ gifts, gift.waits = false := by
        simpa [waits, hgifts] using hvalue.symm
      refine (accepted_full g hgifts hfull args).trans ?_
      rw [Item.gifts?, hgifts, Option.bind_some]
    · cases isGivable_giftsOf? hgifts with
      | full hfull =>
        have hwaits : waits arg = false := by simpa [waits, hgifts] using hfull
        cases hvalue.trans hwaits
      | @waiting gifts hfull s =>
        have hfill : (gifts ++ [Gift.setting s none]).map (Gift.fill value) =
            gifts ++ [.setting s (some value)] := by
          rw [List.map_append, List.map_congr_left fun gift hgift =>
            Gift.fill_of_not_waits value (hfull gift hgift), List.map_id']
          rfl
        refine (accepted_append_waiting g hgifts hfull value args).trans ?_
        rw [Item.gifts?, hgifts]
        dsimp only
        split
        · rw [Option.map_some, Option.bind_some, hfill]
        · rfl

lemma accepted_item (g : Given) {item : Item} (hitem : item.IsComplete) (args : List String) :
    level.accepted g (item.arguments ++ args) = match level.opens? item.arg with
      | some .help => none
      | some (.level below) => (below.accepted {} args).map ((level, g) :: ·)
      | none => (level.take? g item).bind (level.accepted · args) := by
  by_cases hword : IsWord item.arg
  · have hvalue : item.value = none := by
      simpa [waits, giftsOf?_of_isWord hword] using hitem.isSome_value
    have harguments : item.arguments = [item.arg] := by
      rw [Item.arguments, hvalue, Option.toList_none]
    simp only [harguments, List.singleton_append, accepted_word g hword, take?, if_pos hword]
  · simp only [opens?_of_not_isWord level hword, accepted_option g hitem hword, take?, if_neg hword]

/-- An option that still waits for its value is not accepted. -/
lemma accepted_waiting (g : Given) {arg : String} (h : waits arg = true) :
    level.accepted g [arg] = none := by
  have hend : arg ≠ "--" := by
    rintro rfl
    revert h
    decide
  cases hgifts : giftsOf? arg with
  | none => simp [waits, hgifts] at h
  | some gifts =>
    rw [accepted_cons g (not_isWord_of_giftsOf? hgifts) hend, hgifts, Option.bind_some]
    cases isGivable_giftsOf? hgifts with
    | full hfull =>
      have hwaits : waits arg = false := by simpa [waits, hgifts] using hfull
      cases h.symm.trans hwaits
    | @waiting gifts hfull s =>
      have hlast (g : Given) : ((level.hand? g (.setting s none)).bind fun p =>
          (level.read p false []).toOption) = none := by
        rw [hand?]
        split <;> rfl
      rw [handAll?_append_waiting g hfull, Option.bind_assoc]
      simp only [hlast, Option.bind_fun_none]

/-- Whether a level may end with what is given at it. -/
def isDone (level : Level) (g : Given) : Bool :=
  !level.hasLevels && !(g.file.isSome && g.data.isSome) && level.required ≤ g.positionals.length

lemma accepted_nil (g : Given) :
    level.accepted g [] = if level.isDone g then some [(level, g)] else none := by
  have hread : level.accepted g [] =
      (level.finish ⟨g, none⟩).toOption.map fun g => [(level, g)] := by
    rw [accepted, read]
    cases level.finish ⟨g, none⟩ <;> rfl
  have hfinish : level.finish ⟨g, none⟩ =
      if level.hasLevels then .error (if g.isNothing then .nothingGiven else .missingSubcommand)
      else if g.file.isSome ∧ g.data.isSome then .error .argumentConflict
      else if g.positionals.length < level.required then .error .missingArgument
      else .ok g := rfl
  rw [hread, hfinish, isDone]
  split_ifs <;> simp_all [Except.toOption]
  all_goals omega

end Level

namespace Invocation

/-- A command line is understood if it is accepted at the outermost level and its levels make
sense. -/
lemma parse_eq_ok_iff {args : List String} {i : Invocation} :
    parse args = .ok i ↔
      ∃ levels, Level.top.accepted {} args = some levels ∧ ofLevels levels = .ok i := by
  have hparse : parse args = Level.top.read {} false args >>= ofLevels := rfl
  have haccepted : Level.top.accepted {} args = (Level.top.read {} false args).toOption := rfl
  rw [hparse, haccepted]
  cases Level.top.read {} false args with
  | error e => simp [Except.toOption, bind, Except.bind]
  | ok levels => simp [Except.toOption, bind, Except.bind]

end Invocation

end CommitStore
