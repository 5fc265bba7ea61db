import CommitStore.Command.Spelling
import CommitStore.Proofs.Command.Acceptance
import CommitStore.Proofs.Text.Digits

/-!
# Every invocation can be spelled

The arguments that spell an invocation are read as it.  An option with its value behind an equals
sign is one argument, whatever the value looks like (`CommandLine.giftsOf?_spell`), and behind `--`
no argument is an option or opens a level any more.  So each level is given what its options say,
the words of the command open its levels (`Action.between`), and the positional arguments are found
at the innermost one.
-/

namespace CommitStore

open CommandLine

/-! ## Values -/

lemma versionOfText?_signedDecimal (version : Int64) :
    versionOfText? (String.ofList (Text.signedDecimal version.toInt)) = some version := by
  have hdigits := Text.isDigits_decimal version.toInt.natAbs
  have hbad : ¬(Text.decimal version.toInt.natAbs = [] ∨
      ¬(Text.decimal version.toInt.natAbs).all Char.isDigit = true) := by
    simpa [hdigits.1] using hdigits.2
  have hrange := And.intro (Int64.minValue_le_toInt version) (Int64.toInt_le version)
  unfold versionOfText?
  rw [String.toList_ofList, Text.signedDecimal]
  by_cases hneg : version.toInt < 0
  · have hvalue : -((version.toInt.natAbs : Nat) : Int) = version.toInt := by omega
    simp only [if_pos hneg, if_neg hbad, Text.ofDecimal_decimal, if_true, hvalue, hrange, and_self,
      Int64.ofInt_toInt]
  · have hvalue : ((version.toInt.natAbs : Nat) : Int) = version.toInt := by omega
    obtain ⟨d, ds, hcons, hd⟩ := hdigits.exists_cons
    have hminus : d ≠ '-' := by rintro rfl; revert hd; decide
    have hplus : d ≠ '+' := by rintro rfl; revert hd; decide
    rw [if_neg hneg]
    split
    rename_i negative digits hsplit
    have hsign : negative = false ∧ digits = Text.decimal version.toInt.natAbs := by
      rw [hcons] at hsplit ⊢
      split at hsplit <;> simp_all
    obtain ⟨rfl, rfl⟩ := hsign
    simp only [if_neg hbad, Text.ofDecimal_decimal, hvalue, hrange, and_self, if_true,
      Bool.false_eq_true, if_false, Int64.ofInt_toInt]

lemma OutputFormat.ofName?_name (format : OutputFormat) : ofName? format.name = some format := by
  cases format <;> rfl

/-! ## Options -/

namespace CommandLine

/-- An option with its value behind an equals sign is read as it was meant. -/
lemma giftsOf?_spell (s : Setting) (value : String) :
    giftsOf? (s.spell value) = some [.setting s (some value)] := by
  have htext : (s.spell value).toList = '-' :: '-' :: (s.name.toList ++ '=' :: value.toList) := by
    simp [Setting.spell]
  have hname : (s.name.toList ++ '=' :: value.toList).takeWhile (· ≠ '=') = s.name.toList := by
    have hplain : s.name.toList.all (· ≠ '=') = true := by cases s <;> rfl
    rw [List.takeWhile_append_of_pos (List.all_eq_true.mp hplain),
      List.takeWhile_cons_of_neg (by simp), List.append_nil]
  have hdrop : (s.name.toList ++ '=' :: value.toList).drop s.name.toList.length =
      '=' :: value.toList :=
    List.drop_left
  have hflag : Flag.ofName? s.name = some (.setting s) := by cases s <;> rfl
  unfold giftsOf?
  rw [htext]
  simp only [hname, hdrop, String.ofList_toList, giftOfLong?, hflag, Option.map_some]

end CommandLine

namespace Level

variable {level : Level} {g : Given}

/-- An option that was not given before is taken. -/
lemma accepted_gift {arg : String} {gift : Gift} (hgifts : giftsOf? arg = some [gift])
    (hknows : level.knows gift.flag = true) (hfree : g.has gift.flag = false)
    (hsound : gift.isSound = true) (args : List String) :
    level.accepted g (arg :: args) = level.accepted (g.receive gift) args := by
  have hfull : ∀ gift' ∈ [gift], gift'.waits = false := by
    simpa using Gift.waits_of_isSound hsound
  rw [accepted_full g hgifts hfull, giveAll?_singleton, give?, if_pos ⟨hknows, hfree, hsound⟩]
  rfl

lemma accepted_spell {s : Setting} {value : String} (hknows : level.knows (.setting s) = true)
    (hfree : g.value? s = none) (htakes : s.takes value = true) (args : List String) :
    level.accepted g (s.spell value :: args) = level.accepted (g.assign value s) args :=
  accepted_gift (giftsOf?_spell s value) hknows (by simp [Gift.flag, Given.has, hfree])
    (by simpa [Gift.isSound] using htakes) args

lemma accepted_spell? (g' : Given) {s : Setting} {value? : Option String}
    (hknows : level.knows (.setting s) = true) (hfree : g.value? s = none)
    (htakes : ∀ value ∈ value?, s.takes value = true) (hgiven : value?.elim g (g.assign · s) = g')
    (args : List String) :
    level.accepted g ((value?.map s.spell).toList ++ args) = level.accepted g' args := by
  subst hgiven
  cases value? with
  | none => rfl
  | some value => exact accepted_spell hknows hfree (htakes value rfl) args

/-- A word opens a level at which nothing is given yet. -/
lemma accepted_opening (below : Level) (word : String) (hword : IsWord word)
    (hopen : level.opens? word = some (.level below)) (args : List String) :
    level.accepted g (word :: args) = (below.accepted {} args).map ((level, g) :: ·) := by
  rw [accepted_word g hword, hopen]

end Level

/-! ## Commands -/

namespace Action

/-- The verb of a command. -/
def verb : Action → Verb
  | .put _ _ => .put
  | .get _ => .get
  | .head _ => .head
  | .list _ => .list
  | .delete _ => .delete
  | .move _ _ _ => .move
  | .stateGet => .stateGet
  | .statePut _ => .statePut

/-- What the options of a command give. -/
def given : Action → Given
  | .put _ (.file path) => { file := some path }
  | .put _ (.data text) => { data := some text }
  | .move _ _ ifFree => { ifNotExists := ifFree }
  | _ => {}

/-- The levels between the outermost one and that of the command, at which nothing is given. -/
def between : Action → List (Level × Given)
  | .stateGet => [(.state, {})]
  | .statePut _ => [(.state, {})]
  | _ => []

lemma accepted_words (action : Action) (g : Given) (args : List String) :
    Level.top.accepted g (action.words ++ args) =
      ((Level.verb action.verb).accepted {} args).map fun levels =>
        (.top, g) :: (action.between ++ levels) := by
  have hstate (word : String) (verb : Verb) (hword : IsWord word)
      (hopen : Level.state.opens? word = some (.level (.verb verb))) :
      Level.top.accepted g ("state" :: word :: args) =
        ((Level.verb verb).accepted {} args).map fun levels =>
        (.top, g) :: (.state, {}) :: levels := by
    rw [Level.accepted_opening .state "state" (by decide) rfl,
      Level.accepted_opening (.verb verb) word hword hopen, Option.map_map]
    rfl
  cases action with
  | stateGet => exact hstate "get" .stateGet (by decide) rfl
  | statePut version => exact hstate "put" .statePut (by decide) rfl
  | put => exact Level.accepted_opening (.verb .put) "put" (by decide) rfl args
  | get => exact Level.accepted_opening (.verb .get) "get" (by decide) rfl args
  | head => exact Level.accepted_opening (.verb .head) "head" (by decide) rfl args
  | list => exact Level.accepted_opening (.verb .list) "ls" (by decide) rfl args
  | delete => exact Level.accepted_opening (.verb .delete) "rm" (by decide) rfl args
  | move => exact Level.accepted_opening (.verb .move) "mv" (by decide) rfl args

lemma accepted_options (action : Action)
    (hpath : ∀ path name, action = .put path (.file name) → name ≠ "") (args : List String) :
    (Level.verb action.verb).accepted {} (action.options ++ args) =
      (Level.verb action.verb).accepted action.given args := by
  cases action with
  | put path source =>
    cases source with
    | standardInput => rfl
    | file name =>
      exact Level.accepted_spell rfl rfl (by simpa [Setting.takes] using hpath path name rfl) args
    | data text => exact Level.accepted_spell rfl rfl rfl args
  | move source target ifFree =>
    have hgifts : giftsOf? "--if-not-exists" = some [.switch .ifNotExists] := rfl
    cases ifFree
    · rfl
    · exact Level.accepted_gift hgifts rfl rfl rfl args
  | _ => rfl

lemma accepted_positionals (action : Action) :
    (Level.verb action.verb).accepted action.given
        (if action.positionals.isEmpty then [] else "--" :: action.positionals) =
      some [(.verb action.verb, { action.given with positionals := action.positionals })] := by
  have hplaced : action.positionals.foldlM (Level.verb action.verb).place? action.given =
      some { action.given with positionals := action.positionals } := by
    cases action with
    | put path source => cases source <;> rfl
    | statePut version =>
      simp [positionals, Level.place?, verb, given, Level.arity, versionOfText?_signedDecimal]
    | _ => rfl
  have hdone :
      (Level.verb action.verb).isDone { action.given with positionals := action.positionals } =
      true := by
    cases action with
    | put path source => cases source <;> rfl
    | _ => rfl
  -- with no positional argument `--` makes no difference
  have hdashes : (Level.verb action.verb).accepted action.given
        (if action.positionals.isEmpty then [] else "--" :: action.positionals) =
      (action.positionals.foldlM (Level.verb action.verb).place? action.given).bind
        ((Level.verb action.verb).accepted · []) := by
    split
    · rename_i hempty
      rw [List.isEmpty_iff.mp hempty]
      rfl
    · exact Level.accepted_dashes _ _
  rw [hdashes, hplaced, Option.bind_some, Level.accepted_nil, if_pos hdone]

/-- A command is accepted as it is spelled. -/
lemma accepted_spell (action : Action)
    (hpath : ∀ path name, action = .put path (.file name) → name ≠ "") (g : Given) :
    Level.top.accepted g action.spell =
      some ((.top, g) :: (action.between ++
        [(.verb action.verb, { action.given with positionals := action.positionals })])) := by
  rw [spell, List.append_assoc, accepted_words, accepted_options action hpath, accepted_positionals,
    Option.map_some]

lemma actionOf_given (action : Action) :
    Invocation.actionOf action.verb { action.given with positionals := action.positionals } =
      .ok action := by
  cases action with
  | put path source => cases source <;> rfl
  | statePut version =>
    simp only [Invocation.actionOf, verb, positionals, versionOfText?_signedDecimal]
  | _ => rfl

end Action

namespace Invocation

/-- What the options of the outermost level give. -/
def given (i : Invocation) : Given :=
  { config := i.config, root := i.root, state := i.state, format := some i.format.name,
    verbose := i.verbose }

lemma accepted_options (i : Invocation) (h : i.HasPaths) (args : List String) :
    Level.top.accepted {} (i.options ++ args) = Level.top.accepted i.given args := by
  obtain ⟨action, config, root, state, verbose, format⟩ := i
  obtain ⟨hconfig, hroot, hstate, -⟩ := h
  have htakes {s : Setting} (hs : ∀ value, s.takes value = (value != "")) {value? : Option String}
      (hvalue : value? ≠ some "") : ∀ value ∈ value?, s.takes value = true := by
    intro value hmem
    rw [hs]
    simpa using fun heq : value = "" => hvalue (heq ▸ hmem)
  have hformat : Setting.format.takes format.name = true := by
    rw [Setting.takes, OutputFormat.ofName?_name, Option.isSome_some]
  have hverbose : giftsOf? "--verbose" = some [.switch .verbose] := rfl
  simp only [options, List.append_assoc]
  refine (Level.accepted_spell? { config } rfl rfl (htakes (fun _ => rfl) hconfig)
    (by cases config <;> rfl) _).trans ?_
  refine (Level.accepted_spell? { config, root } rfl rfl (htakes (fun _ => rfl) hroot)
    (by cases root <;> rfl) _).trans ?_
  refine (Level.accepted_spell? { config, root, state } rfl rfl (htakes (fun _ => rfl) hstate)
    (by cases state <;> rfl) _).trans ?_
  cases verbose with
  | false => exact Level.accepted_spell rfl rfl hformat args
  | true =>
    exact (Level.accepted_gift hverbose rfl rfl rfl _).trans
      (Level.accepted_spell rfl rfl hformat args)

/-- Every invocation is understood from its own spelling. -/
theorem parse_spell (i : Invocation) (h : i.HasPaths) : parse i.spell = .ok i := by
  have hpath : ∀ path name, i.action = .put path (.file name) → name ≠ "" := by
    intro path name haction
    have := h.2.2.2
    rwa [haction] at this
  have hlevels : Level.top.accepted {} i.spell = some ((.top, i.given) :: (i.action.between ++
      [(.verb i.action.verb, { i.action.given with positionals := i.action.positionals })])) := by
    rw [spell, accepted_options i h, Action.accepted_spell i.action hpath]
  refine parse_eq_ok_iff.mpr ⟨_, hlevels, ?_⟩
  rw [ofLevels, ← List.cons_append, List.getLast?_concat]
  dsimp only
  rw [Action.actionOf_given]
  obtain ⟨action, config, root, state, verbose, format⟩ := i
  cases action with
  | put path source =>
    cases source <;>
      simp [innermost, given, Action.given, Action.between, OutputFormat.ofName?_name]
  | _ => simp [innermost, given, Action.given, Action.between, OutputFormat.ofName?_name]

/-- A command whose values look like an option, a command, and the end of the options. -/
def misleading : Invocation where
  action := .move "--format=text" "--" true
  config := some "state"
  root := some "=-v"
  state := some "--"
  verbose := true
  format := .json

theorem parse_spell_misleading :
    misleading.HasPaths ∧ parse misleading.spell = .ok misleading := by
  have hpaths : misleading.HasPaths := ⟨by decide, by decide, by decide, trivial⟩
  exact ⟨hpaths, parse_spell misleading hpaths⟩

example :
    misleading.spell = ["--config=state", "--root==-v", "--state=--", "--verbose",
      "--format=json", "mv", "--if-not-exists", "--", "--format=text", "--"] := by decide

end Invocation

end CommitStore
