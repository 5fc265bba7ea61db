import CommitStore.Command.Line
import Mathlib.Data.List.Basic
import Mathlib.Tactic.Common

/-!
# Arguments of a command line

What an argument says does not depend on the level at which it stands: it is a word, or it gives
options (`CommandLine.giftsOf?`), of which the last one may wait for its value in the next argument.
A level only says which options it knows, and a name means the same at every level that knows it
(`Level.longFlag?_eq`, `Level.shortFlag?_eq`).

So a command line falls into complete arguments before it is known what they mean, each a
`CommandLine.Item`: an argument with the value that it waits for.  The first `--` ends this, since
whatever stands behind it is a word.  `CommandLine.cut` cuts a command line in this way, and
`CommandLine.join_cut` says that nothing is lost.
-/

namespace CommitStore

/-! ## The options of all levels -/

namespace Flag

/-- The option with a long name, at whichever level. -/
def ofName? (name : String) : Option Flag :=
  [Level.top, .verb .put, .verb .move].findSome? (·.longFlag? name)

/-- The option with a letter, at whichever level. -/
def ofLetter? (letter : Char) : Option Flag :=
  [Level.top, .verb .put].findSome? (·.shortFlag? letter)

end Flag

namespace Level

/-- Whether an option may be given at a level. -/
def knows (level : Level) : Flag → Bool
  | .switch .version => level = .top
  | .switch .ifNotExists => level = .verb .move
  | .setting .file => level = .verb .put
  | .setting .data => level = .verb .put
  | _ => true

/-- A long name means the same at every level that knows it. -/
lemma longFlag?_eq (level : Level) (name : String) :
    level.longFlag? name = (Flag.ofName? name).filter level.knows := by
  by_cases hname : name ∈ ["config", "root", "state", "format", "verbose", "help",
      "version", "file", "data", "if-not-exists"]
  · simp only [List.mem_cons, List.not_mem_nil, or_false] at hname
    rcases level with _ | _ | verb <;> try cases verb
    all_goals rcases hname with rfl | rfl | rfl | rfl | rfl | rfl | rfl | rfl | rfl | rfl <;> rfl
  · simp only [List.mem_cons, List.not_mem_nil, or_false, not_or] at hname
    simp [Flag.ofName?, longFlag?, hname]

lemma shortFlag?_eq (level : Level) (letter : Char) :
    level.shortFlag? letter = (Flag.ofLetter? letter).filter level.knows := by
  by_cases hletter : letter ∈ ['c', 'v', 'h', 'V', 'f', 'd']
  · simp only [List.mem_cons, List.not_mem_nil, or_false] at hletter
    rcases level with _ | _ | verb <;> try cases verb
    all_goals rcases hletter with rfl | rfl | rfl | rfl | rfl | rfl <;> rfl
  · simp only [List.mem_cons, List.not_mem_nil, or_false, not_or] at hletter
    simp [Flag.ofLetter?, shortFlag?, hletter]

end Level

/-! ## What an argument says -/

/-- One option as it is given.  An option with a value may wait for it. -/
inductive Gift
  | switch (switch : Switch)
  | setting (setting : Setting) (value : Option String)
  deriving DecidableEq

namespace Gift

/-- The option that is given. -/
def flag : Gift → Flag
  | .switch s => .switch s
  | .setting s _ => .setting s

/-- An option that waits gets its value. -/
def fill (value : String) : Gift → Gift
  | .setting s none => .setting s (some value)
  | gift => gift

/-- Whether an option waits for its value. -/
def waits : Gift → Bool
  | .setting _ none => true
  | _ => false

lemma flag_fill (value : String) (gift : Gift) : (gift.fill value).flag = gift.flag := by
  rcases gift with _ | ⟨_, _ | _⟩ <;> rfl

lemma fill_of_not_waits (value : String) {gift : Gift} (h : gift.waits = false) :
    gift.fill value = gift := by
  rcases gift with _ | ⟨_, _ | _⟩
  · rfl
  · cases h
  · rfl

end Gift

namespace CommandLine

/-- The value behind the letter of an option. -/
def attachedValue? : List Char → Option String
  | [] => none
  | '=' :: value => some (String.ofList value)
  | value => some (String.ofList value)

/-- The options that letters behind a hyphen give. -/
def giftsOfLetters? : List Char → Option (List Gift)
  | [] => some []
  | letter :: rest =>
    match Flag.ofLetter? letter with
    | none => none
    | some (.switch switch) => (giftsOfLetters? rest).map (.switch switch :: ·)
    | some (.setting setting) => some [.setting setting (attachedValue? rest)]

/-- The option that a long name gives, with a value behind an equals sign if there is one. -/
def giftOfLong? (name : String) (value : Option String) : Option Gift :=
  match Flag.ofName? name, value with
  | some (.setting setting), value => some (.setting setting value)
  | some (.switch switch), none => some (.switch switch)
  | _, _ => none

/-- The options that an argument gives, if it gives any. -/
def giftsOf? (arg : String) : Option (List Gift) :=
  match arg.toList with
  | '-' :: '-' :: long =>
    let name := long.takeWhile (· ≠ '=')
    let value :=
      match long.drop name.length with
      | _ :: value => some (String.ofList value)
      | [] => none
    (giftOfLong? (String.ofList name) value).map ([·])
  | '-' :: letter :: letters => giftsOfLetters? (letter :: letters)
  | _ => none

/-- The arguments that are no options: those that do not begin with a hyphen, and the hyphen
alone. -/
def IsWord (arg : String) : Prop :=
  match arg.toList with
  | '-' :: _ :: _ => False
  | _ => True

instance (arg : String) : Decidable (IsWord arg) := by
  unfold IsWord
  split <;> infer_instance

/-- A word gives no options. -/
lemma giftsOf?_of_isWord {arg : String} (h : IsWord arg) : giftsOf? arg = none := by
  unfold IsWord at h
  unfold giftsOf?
  split at h
  · cases h
  · rename_i hnot
    split
    · exact (hnot _ _ ‹_›).elim
    · exact (hnot _ _ ‹_›).elim
    · rfl

lemma not_isWord_of_giftsOf? {arg : String} {gifts : List Gift} (h : giftsOf? arg = some gifts) :
    ¬IsWord arg := by
  intro hword
  rw [giftsOf?_of_isWord hword] at h
  cases h

lemma giftsOf?_ne_nil (arg : String) : giftsOf? arg ≠ some [] := by
  unfold giftsOf?
  split
  · simp
  · rename_i letter letters _
    rw [giftsOfLetters?.eq_def]
    dsimp only
    split <;> simp
  · simp

/-- Only the last option in an argument can wait for its value. -/
inductive IsGivable : List Gift → Prop
  | full {gifts : List Gift} (h : ∀ gift ∈ gifts, gift.waits = false) : IsGivable gifts
  | waiting {gifts : List Gift} (h : ∀ gift ∈ gifts, gift.waits = false) (s : Setting) :
      IsGivable (gifts ++ [.setting s none])

lemma IsGivable.cons_switch {gifts : List Gift} (h : IsGivable gifts) (s : Switch) :
    IsGivable (.switch s :: gifts) := by
  cases h with
  | full h => exact .full (List.forall_mem_cons.mpr ⟨rfl, h⟩)
  | waiting h t => exact .waiting (List.forall_mem_cons.mpr ⟨rfl, h⟩) t

lemma isGivable_singleton (gift : Gift) : IsGivable [gift] := by
  rcases gift with s | ⟨s, _ | value⟩
  · exact .full (by simp [Gift.waits])
  · have hnone : ∀ gift ∈ ([] : List Gift), gift.waits = false := by simp
    exact .waiting hnone s
  · exact .full (by simp [Gift.waits])

lemma isGivable_giftsOf? {arg : String} {gifts : List Gift} (h : giftsOf? arg = some gifts) :
    IsGivable gifts := by
  have hletters : ∀ {letters : List Char} {gifts : List Gift},
      giftsOfLetters? letters = some gifts → IsGivable gifts := by
    intro letters
    fun_induction giftsOfLetters? letters with
    | case1 => rintro _ ⟨⟩; exact .full (by simp)
    | case2 => rintro _ ⟨⟩
    | case3 letter rest s hs ih =>
      intro gifts h
      obtain ⟨gifts, hrest, rfl⟩ := Option.map_eq_some_iff.mp h
      exact (ih hrest).cons_switch s
    | case4 letter rest s hs => rintro _ ⟨⟩; exact isGivable_singleton _
  unfold giftsOf? at h
  split at h
  · obtain ⟨gift, -, rfl⟩ := Option.map_eq_some_iff.mp h
    exact isGivable_singleton gift
  · exact hletters h
  · cases h

/-- Whether the last option in an argument waits for its value. -/
def waits (arg : String) : Bool := ((giftsOf? arg).getD []).any Gift.waits

/-! ## Complete arguments -/

/-- An argument together with the value that it waits for. -/
structure Item where
  arg : String
  value : Option String
  deriving DecidableEq

namespace Item

/-- The arguments of an item, one or two. -/
def arguments (item : Item) : List String := item.arg :: item.value.toList

/-- The options that an item gives; none if it is a word. -/
def flags (item : Item) : List Flag := ((giftsOf? item.arg).getD []).map Gift.flag

/-- The options that an item gives, with the value in the second argument filled in. -/
def gifts? (item : Item) : Option (List Gift) :=
  match item.value with
  | none => giftsOf? item.arg
  | some value => if IsWord value then (giftsOf? item.arg).map (·.map (Gift.fill value)) else none

/-- The item stands in front of `--`, and it has a value of its own exactly if it waits for one. -/
structure IsComplete (item : Item) : Prop where
  arg_ne : item.arg ≠ "--"
  isSome_value : item.value.isSome = waits item.arg

end Item

/-- Cut a command line into its complete arguments in front of the first `--`, and what is left:
nothing, the arguments from `--` on, or an option that still waits for its value. -/
def cut : List String → List Item × List String
  | [] => ([], [])
  | arg :: args =>
    if arg = "--" then ([], arg :: args)
    else if waits arg then
      match args with
      | [] => ([], [arg])
      | value :: args => ((cut args).1.cons ⟨arg, some value⟩, (cut args).2)
    else ((cut args).1.cons ⟨arg, none⟩, (cut args).2)

/-- The arguments behind the last complete one. -/
inductive IsTail : List String → Prop
  | nil : IsTail []
  | words (words : List String) : IsTail ("--" :: words)
  | waiting {arg : String} (h : waits arg = true) : IsTail [arg]

lemma isTail_cut (args : List String) : IsTail (cut args).2 := by
  fun_induction cut args with
  | case1 => exact .nil
  | case2 args => exact .words args
  | case3 arg h hw => exact .waiting hw
  | case4 arg h hw value args ih => exact ih
  | case5 arg args h hw ih => exact ih

/-- The command line of complete arguments and what follows them. -/
def join (items : List Item) (tail : List String) : List String :=
  items.flatMap Item.arguments ++ tail

lemma join_cons (item : Item) (items : List Item) (tail : List String) :
    join (item :: items) tail = item.arguments ++ join items tail := by
  simp [join]

/-- A command line is put together again from what it was cut into. -/
lemma join_cut (args : List String) : join (cut args).1 (cut args).2 = args := by
  fun_induction cut args with
  | case1 => rfl
  | case2 args => rfl
  | case3 arg h hw => rfl
  | case4 arg h hw value args ih => rw [join_cons, ih]; rfl
  | case5 arg args h hw ih => rw [join_cons, ih]; rfl

example :
    cut ["-vc", "x", "ls", "--", "-y"] = ([⟨"-vc", some "x"⟩, ⟨"ls", none⟩], ["--", "-y"]) := by
  decide

lemma isComplete_of_mem_cut (args : List String) {item : Item} (h : item ∈ (cut args).1) :
    item.IsComplete := by
  fun_induction cut args with
  | case1 => cases h
  | case2 args => cases h
  | case3 arg hend hw => cases h
  | case4 arg hend hw value args ih =>
    rcases List.mem_cons.mp h with rfl | h
    · exact ⟨hend, by simp [hw]⟩
    · exact ih h
  | case5 arg args hend hw ih =>
    rcases List.mem_cons.mp h with rfl | h
    · exact ⟨hend, by simp [hw]⟩
    · exact ih h

end CommandLine

namespace Level

open CommandLine

/-- Only a word opens a level. -/
lemma opens?_of_not_isWord (level : Level) {word : String} (h : ¬IsWord word) :
    level.opens? word = none := by
  have hne : ∀ name, IsWord name → word ≠ name := fun _ hname heq => h (heq ▸ hname)
  cases level <;>
    simp [opens?, hne "put" (by decide), hne "get" (by decide), hne "head" (by decide),
      hne "ls" (by decide), hne "rm" (by decide), hne "mv" (by decide), hne "state" (by decide),
      hne "help" (by decide)]

end Level

end CommitStore
