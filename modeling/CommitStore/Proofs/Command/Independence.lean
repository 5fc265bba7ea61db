import CommitStore.Proofs.Command.Acceptance

/-!
# Different options do not meet

Each option has a place of its own in what is given at a level.  So it does not matter whether
another option was taken before: what is taken, and what stands there afterwards, is the same but
for that option (`Given.receive_comm`, `Level.take?_receive`).

The options for all levels, those with `Flag.IsGlobal`, have no part in what a command asks for
either: whether a level may end does not depend on them (`Level.isDone_receive`).
-/

namespace CommitStore

open CommandLine

/-- The options that may be given at any level and count for all of them. -/
def Flag.IsGlobal (flag : Flag) : Prop :=
  flag ∈ [.setting .config, .setting .root, .setting .state, .switch .verbose, .setting .format]

instance (flag : Flag) : Decidable flag.IsGlobal := inferInstanceAs (Decidable (flag ∈ _))

lemma Flag.IsGlobal.knows {flag : Flag} (h : flag.IsGlobal) (level : Level) :
    level.knows flag = true := by
  simp only [Flag.IsGlobal, List.mem_cons, List.not_mem_nil, or_false] at h
  rcases h with rfl | rfl | rfl | rfl | rfl <;> rfl

/-! ## Different options do not meet -/

namespace Given

variable {x y : Gift}

lemma value?_assign_of_ne (g : Given) (value : String) {s t : Setting} (h : s ≠ t) :
    (g.assign value s).value? t = g.value? t := by
  cases s <;> cases t <;> first | rfl | exact absurd rfl h

lemma assign_comm (g : Given) (value value' : String) {s t : Setting} (h : s ≠ t) :
    (g.assign value s).assign value' t = (g.assign value' t).assign value s := by
  cases s <;> cases t <;> first | rfl | exact absurd rfl h

/-- Taking an option does not give another one. -/
lemma has_receive_of_ne (g : Given) {flag : Flag} (h : x.flag ≠ flag) :
    (g.receive x).has flag = g.has flag := by
  rcases x with s | ⟨s, _ | value⟩ <;> rcases flag with t | t
  · cases s <;> cases t <;> rfl
  · cases s <;> cases t <;> first | rfl | exact absurd rfl h
  · rfl
  · rfl
  · exact congrArg Option.isSome
      (value?_assign_of_ne g value fun heq => h (congrArg Flag.setting heq))
  · cases s <;> cases t <;> rfl

lemma receive_comm (g : Given) (h : x.flag ≠ y.flag) :
    (g.receive x).receive y = (g.receive y).receive x := by
  rcases x with s | ⟨s, _ | value⟩ <;> rcases y with t | ⟨t, _ | value'⟩
  · cases s <;> cases t <;> rfl
  · cases s <;> rfl
  · cases s <;> cases t <;> rfl
  · cases t <;> rfl
  · rfl
  · rfl
  · cases s <;> cases t <;> rfl
  · rfl
  · exact assign_comm g value value' fun heq => h (congrArg Flag.setting heq)

@[simp] lemma has_empty (flag : Flag) : Given.has {} flag = false := by
  rcases flag with s | s <;> cases s <;> rfl

lemma positionals_receive (g : Given) (x : Gift) : (g.receive x).positionals = g.positionals := by
  rcases x with s | ⟨s, _ | value⟩
  · cases s <;> rfl
  · rfl
  · cases s <;> rfl

/-- An option for all levels gives nothing that belongs to the command. -/
lemma own_receive (hx : x.flag.IsGlobal) (g : Given) :
    (g.receive x).file = g.file ∧ (g.receive x).data = g.data ∧
      (g.receive x).ifNotExists = g.ifNotExists := by
  rcases x with s | ⟨s, _ | value⟩
  · cases s <;> first | exact ⟨rfl, rfl, rfl⟩ | exact absurd hx (by decide)
  · exact ⟨rfl, rfl, rfl⟩
  · rw [Gift.flag] at hx
    cases s <;> first | exact ⟨rfl, rfl, rfl⟩ | exact absurd hx (by decide)

lemma receive_place (g : Given) (x : Gift) (positionals : List String) :
    { g.receive x with positionals := positionals } =
      Given.receive { g with positionals := positionals } x := by
  rcases x with s | ⟨s, _ | value⟩
  · cases s <;> rfl
  · rfl
  · cases s <;> rfl

end Given

namespace Level

variable {level : Level} {g : Given} {x : Gift}

lemma give?_receive {y : Gift} (h : x.flag ≠ y.flag) (g : Given) :
    level.give? (g.receive x) y = (level.give? g y).map (·.receive x) := by
  rw [give?, give?, Given.has_receive_of_ne g h, Given.receive_comm g h]
  split <;> rfl

lemma has_of_give? {flag : Flag} {g' : Given} (h : flag ≠ x.flag) (hg : level.give? g x = some g') :
    g'.has flag = g.has flag := by
  unfold give? at hg
  split at hg
  · cases hg
    exact Given.has_receive_of_ne g h.symm
  · cases hg

lemma giveAll?_receive {gifts : List Gift} (h : x.flag ∉ gifts.map Gift.flag) (g : Given) :
    level.giveAll? (g.receive x) gifts = (level.giveAll? g gifts).map (·.receive x) := by
  induction gifts generalizing g with
  | nil => rfl
  | cons y gifts ih =>
    rw [List.map_cons, List.mem_cons, not_or] at h
    simp only [giveAll?_cons, give?_receive h.1, Option.bind_map, Option.map_bind,
      Function.comp_def, ih h.2]

lemma has_of_giveAll? {flag : Flag} {gifts : List Gift} {g g' : Given}
    (h : flag ∉ gifts.map Gift.flag) (hg : level.giveAll? g gifts = some g') :
    g'.has flag = g.has flag := by
  induction gifts generalizing g with
  | nil =>
    cases hg
    rfl
  | cons y gifts ih =>
    rw [List.map_cons, List.mem_cons, not_or] at h
    rw [giveAll?_cons] at hg
    obtain ⟨g₁, hy, hmore⟩ := Option.bind_eq_some_iff.mp hg
    rw [ih h.2 hmore, has_of_give? h.1 hy]

lemma place?_receive (g : Given) (word : String) :
    level.place? (g.receive x) word = (level.place? g word).map (·.receive x) := by
  rw [place?, place?, Given.positionals_receive, Given.receive_place]
  split <;> rfl

lemma has_of_place? {flag : Flag} {g g' : Given} {word : String}
    (hg : level.place? g word = some g') : g'.has flag = g.has flag := by
  unfold place? at hg
  split at hg
  · cases hg
    rcases flag with s | s <;> cases s <;> rfl
  · cases hg

lemma foldlM_place?_receive (g : Given) (words : List String) :
    words.foldlM level.place? (g.receive x) = (words.foldlM level.place? g).map (·.receive x) := by
  induction words generalizing g with
  | nil => rfl
  | cons word words ih =>
    simp only [List.foldlM_cons, Option.bind_eq_bind, place?_receive, Option.bind_map,
      Option.map_bind, Function.comp_def, ih]

lemma has_of_foldlM_place? {flag : Flag} {g g' : Given} {words : List String}
    (hg : words.foldlM level.place? g = some g') : g'.has flag = g.has flag := by
  induction words generalizing g with
  | nil =>
    cases hg
    rfl
  | cons word words ih =>
    rw [List.foldlM_cons] at hg
    obtain ⟨g₁, hword, hmore⟩ := Option.bind_eq_some_iff.mp hg
    rw [ih hmore, has_of_place? hword]

end Level

namespace CommandLine

/-- Complete arguments that do not mention an option. -/
def Spares (flag : Flag) (items : List Item) : Prop :=
  ∀ item ∈ items, item.IsComplete ∧ flag ∉ item.flags

lemma Item.map_flag_gifts {item : Item} {gifts : List Gift} (h : item.gifts? = some gifts) :
    gifts.map Gift.flag = item.flags := by
  obtain ⟨arg, _ | value⟩ := item
  · rw [Item.flags, show giftsOf? arg = some gifts from h]
    rfl
  · simp only [Item.gifts?] at h
    split at h
    · obtain ⟨gifts', hgifts, rfl⟩ := Option.map_eq_some_iff.mp h
      simp [Item.flags, hgifts, Gift.flag_fill]
    · cases h

lemma Item.not_isWord_of_flags {item : Item} {flag : Flag} (h : item.flags = [flag]) :
    ¬IsWord item.arg := by
  intro hword
  simp [Item.flags, giftsOf?_of_isWord hword] at h

end CommandLine

namespace Level

variable {level : Level} {g : Given} {x : Gift} {item : Item} {flag : Flag}

lemma take?_receive (h : x.flag ∉ item.flags) (g : Given) :
    level.take? (g.receive x) item = (level.take? g item).map (·.receive x) := by
  unfold take?
  split
  · exact place?_receive g item.arg
  · rcases hgifts : item.gifts? with _ | gifts
    · rfl
    · rw [← Item.map_flag_gifts hgifts] at h
      exact giveAll?_receive h g

lemma has_of_take? {g' : Given} (h : flag ∉ item.flags) (hg : level.take? g item = some g') :
    g'.has flag = g.has flag := by
  unfold take? at hg
  split at hg
  · exact has_of_place? hg
  · obtain ⟨gifts, hgifts, hg⟩ := Option.bind_eq_some_iff.mp hg
    rw [← Item.map_flag_gifts hgifts] at h
    exact has_of_giveAll? h hg

lemma isDone_receive (hx : x.flag.IsGlobal) (g : Given) :
    level.isDone (g.receive x) = level.isDone g := by
  obtain ⟨hfile, hdata, -⟩ := g.own_receive hx
  rw [isDone, isDone, hfile, hdata, g.positionals_receive]

end Level

end CommitStore
