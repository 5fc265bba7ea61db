import CommitStore.Proofs.Command.Independence

/-!
# Options for all levels

The options for configuration, format and verbosity may be given at any level, and the innermost one
counts.  One that is given once (`GivenOnce`) therefore counts for the whole, at whichever level it
was taken, and it may stand anywhere among the complete arguments of a command line.

For a command line without the option, `Level.rel_accepted_insert` says what happens when it is put
in: the same levels are found, and one of them is given the option.  What the command line says then
does not depend on the place, since `Invocation.parse_insert` tells it by what is said without the
option.
-/

namespace CommitStore

open CommandLine

/-! ## Without the option -/

namespace Level

variable {level : Level} {g : Given} {x : Gift} {item : Item} {flag : Flag}

/-- An option that was given before changes only what is given at the first level. -/
lemma accepted_tail_receive {tail : List String} (htail : IsTail tail) (hx : x.flag.IsGlobal)
    (g : Given) :
    level.accepted (g.receive x) tail =
      (level.accepted g tail).map (·.modifyHead fun l => (l.1, l.2.receive x)) := by
  have hnil (g : Given) : level.accepted (g.receive x) [] =
      (level.accepted g []).map (·.modifyHead fun l => (l.1, l.2.receive x)) := by
    rw [accepted_nil, accepted_nil, isDone_receive hx]
    split <;> rfl
  cases htail with
  | nil => exact hnil g
  | words words =>
    simp only [accepted_dashes, foldlM_place?_receive, Option.bind_map, Option.map_bind,
      Function.comp_def, hnil]
  | waiting h => rw [accepted_waiting _ h, accepted_waiting _ h, Option.map_none]

lemma accepted_receive {items : List Item} {tail : List String} (hitems : Spares x.flag items)
    (htail : IsTail tail) (hx : x.flag.IsGlobal) (g : Given) :
    level.accepted (g.receive x) (join items tail) =
      (level.accepted g (join items tail)).map (·.modifyHead fun l => (l.1, l.2.receive x)) := by
  induction items generalizing level g with
  | nil => exact accepted_tail_receive htail hx g
  | cons item items ih =>
    obtain ⟨⟨hcomplete, hspares⟩, hitems⟩ := List.forall_mem_cons.mp hitems
    rw [join_cons, accepted_item _ hcomplete, accepted_item _ hcomplete]
    rcases level.opens? item.arg with _ | below | _
    · dsimp only
      rw [take?_receive hspares, Option.bind_map, Option.map_bind]
      exact congrArg _ (funext fun g => ih hitems g)
    · dsimp only
      rw [Option.map_map]
      rfl
    · rfl

/-- An option that a command line does not mention is given at none of its levels. -/
lemma has_of_accepted {items : List Item} {tail : List String} (hitems : Spares flag items)
    (htail : IsTail tail) {levels : List (Level × Given)} (hg : g.has flag = false)
    (h : level.accepted g (join items tail) = some levels) :
    levels ≠ [] ∧ ∀ l ∈ levels, l.2.has flag = false := by
  induction items generalizing level g levels with
  | nil =>
    have hnil {g : Given} (hg : g.has flag = false) (h : level.accepted g [] = some levels) :
        levels ≠ [] ∧ ∀ l ∈ levels, l.2.has flag = false := by
      rw [accepted_nil] at h
      split at h
      · cases h
        simpa using hg
      · cases h
    cases htail with
    | nil => exact hnil hg h
    | words words =>
      obtain ⟨g', hwords, h⟩ := Option.bind_eq_some_iff.mp ((accepted_dashes g words).symm.trans h)
      exact hnil ((has_of_foldlM_place? hwords).trans hg) h
    | waiting hwaits => cases (accepted_waiting g hwaits).symm.trans h
  | cons item items ih =>
    obtain ⟨⟨hcomplete, hspares⟩, hitems⟩ := List.forall_mem_cons.mp hitems
    rw [join_cons, accepted_item _ hcomplete] at h
    rcases hopens : level.opens? item.arg with _ | below | _ <;> rw [hopens] at h
    · obtain ⟨g', htake, h⟩ := Option.bind_eq_some_iff.mp h
      exact ih hitems ((has_of_take? hspares htake).trans hg) h
    · obtain ⟨levels, hbelow, rfl⟩ := Option.map_eq_some_iff.mp h
      exact ⟨by simp, List.forall_mem_cons.mpr ⟨hg, (ih hitems (Given.has_empty flag) hbelow).2⟩⟩
    · cases h

end Level

/-! ## Where the option stands -/

/-- An option is given at one level, and before it was given at none. -/
inductive GivenOnce (gift : Gift) : List (Level × Given) → List (Level × Given) → Prop
  | here {first : Level × Given} {levels : List (Level × Given)}
      (h : ∀ l ∈ first :: levels, l.2.has gift.flag = false) :
      GivenOnce gift (first :: levels) ((first.1, first.2.receive gift) :: levels)
  | deeper {first : Level × Given} {levels levels' : List (Level × Given)}
      (h : first.2.has gift.flag = false) (hmore : GivenOnce gift levels levels') :
      GivenOnce gift (first :: levels) (first :: levels')

/-- A complete argument that gives an option at every level at which the option was not given
before. -/
structure CommandLine.Item.Gives (item : Item) (x : Gift) : Prop where
  isComplete : item.IsComplete
  opens_eq_none : ∀ level : Level, level.opens? item.arg = none
  take_eq : ∀ (level : Level) (g : Given), g.has x.flag = false →
    level.take? g item = some (g.receive x)

namespace Level

variable {level : Level} {g : Given} {x : Gift} {item : Item} {flag : Flag}
  {before after : List Item} {tail : List String}

/-- Where an option for all levels is put in, it is given at one level, and nothing else changes. -/
lemma rel_accepted_insert (hx : x.flag.IsGlobal) (hitem : item.Gives x)
    (hspares : Spares x.flag (before ++ after)) (htail : IsTail tail) (hg : g.has x.flag = false) :
    Option.Rel (GivenOnce x) (level.accepted g (join (before ++ after) tail))
      (level.accepted g (join (before ++ item :: after) tail)) := by
  induction before generalizing level g with
  | nil =>
    rw [List.nil_append] at hspares
    rw [List.nil_append, List.nil_append, join_cons, accepted_item _ hitem.isComplete,
      hitem.opens_eq_none, hitem.take_eq level g hg]
    dsimp only
    rw [Option.bind_some, accepted_receive hspares htail hx]
    -- the option is given here, and at no level that follows
    cases h : level.accepted g (join after tail) with
    | none => exact .none
    | some levels =>
      obtain ⟨hne, hlacks⟩ := has_of_accepted hspares htail hg h
      obtain ⟨first, levels, rfl⟩ := List.exists_cons_of_ne_nil hne
      exact .some (.here hlacks)
  | cons b before ih =>
    obtain ⟨⟨hcomplete, hb⟩, hspares⟩ := List.forall_mem_cons.mp hspares
    rw [List.cons_append, List.cons_append, join_cons, join_cons, accepted_item _ hcomplete,
      accepted_item _ hcomplete]
    -- the argument in front is read without the option on both sides
    rcases level.opens? b.arg with _ | below | _
    · cases htake : level.take? g b with
      | none => exact .none
      | some g' => exact ih hspares ((has_of_take? hb htake).trans hg)
    · have hbelow : Option.Rel (GivenOnce x) (below.accepted {} (join (before ++ after) tail))
          (below.accepted {} (join (before ++ item :: after) tail)) :=
            ih hspares (Given.has_empty _)
      dsimp only
      generalize below.accepted {} (join (before ++ after) tail) = without at hbelow ⊢
      generalize below.accepted {} (join (before ++ item :: after) tail) = inserted at hbelow ⊢
      cases hbelow with
      | none => exact .none
      | some hmore => exact .some (.deeper hg hmore)
    · exact .none

/-- An argument that no level takes is accepted nowhere. -/
lemma accepted_untaken (hitem : item.IsComplete)
    (hopens : ∀ level : Level, level.opens? item.arg = none)
    (htake : ∀ (level : Level) (g : Given), level.take? g item = none)
    (hbefore : ∀ b ∈ before, b.IsComplete) :
    level.accepted g (join (before ++ item :: after) tail) = none := by
  induction before generalizing level g with
  | nil =>
    rw [List.nil_append, join_cons, accepted_item _ hitem, hopens, htake]
    rfl
  | cons b before ih =>
    obtain ⟨hcomplete, hbefore⟩ := List.forall_mem_cons.mp hbefore
    rw [List.cons_append, join_cons, accepted_item _ hcomplete]
    rcases level.opens? b.arg with _ | below | _
    · exact (congrArg _ (funext fun g => ih hbefore)).trans (Option.bind_fun_none _)
    · dsimp only
      rw [ih hbefore, Option.map_none]
    · rfl

/-- An argument of one option gives it, or it is taken nowhere. -/
lemma gives_or_untaken (hitem : item.IsComplete) (hown : item.flags = [flag])
    (hglobal : flag.IsGlobal) :
    (∃ x : Gift, x.flag = flag ∧ x.isSound = true ∧ item.Gives x) ∨
      ∀ (level : Level) (g : Given), level.take? g item = none := by
  have hword := Item.not_isWord_of_flags hown
  have htake (level : Level) (g : Given) : level.take? g item =
      item.gifts?.bind (level.giveAll? g) :=
    if_neg hword
  rcases hgifts : item.gifts? with _ | gifts
  · exact .inr fun level g => by rw [htake, hgifts, Option.bind_none]
  obtain ⟨x, rfl, rfl⟩ := List.map_eq_singleton_iff.mp ((Item.map_flag_gifts hgifts).trans hown)
  have hgive (level : Level) (g : Given) : level.take? g item = level.give? g x := by
    rw [htake, hgifts, Option.bind_some, giveAll?_singleton]
  cases hsound : x.isSound with
  | false => exact .inr fun level g => by rw [hgive, give?, if_neg (by simp [hsound])]
  | true =>
    refine .inl ⟨x, rfl, hsound, hitem, fun level => level.opens?_of_not_isWord hword,
      fun level g hg => ?_⟩
    rw [hgive, give?, if_pos ⟨hglobal.knows level, hg, hsound⟩]

end Level

/-! ## One level counts for all -/

namespace Invocation

variable {levels levels' : List (Level × Given)} {x : Gift}

/-- The invocation with an option for all levels. -/
def receive (i : Invocation) : Gift → Invocation
  | .setting .config value => { i with config := value }
  | .setting .root value => { i with root := value }
  | .setting .state value => { i with state := value }
  | .setting .format value => { i with format := (value.bind OutputFormat.ofName?).getD .text }
  | .switch .verbose => { i with verbose := true }
  | _ => i

lemma innermost_cons {α : Type} (value? : Given → Option α) (first : Level × Given)
    (levels : List (Level × Given)) :
    innermost value? (first :: levels) = (innermost value? levels).or (value? first.2) := by
  have hfrom (found : Option α) :
      levels.foldl (fun found level => (value? level.2).or found) found =
      (innermost value? levels).or found := by
    unfold innermost
    induction levels generalizing found with
    | nil => rfl
    | cons l levels ih =>
      rw [List.foldl_cons, List.foldl_cons, ih, ih ((value? l.2).or none), Option.or_none,
        Option.or_assoc]
  rw [innermost, List.foldl_cons, hfrom, Option.or_none]

lemma innermost_eq_none {α : Type} {value? : Given → Option α}
    (h : ∀ l ∈ levels, value? l.2 = none) : innermost value? levels = none := by
  induction levels with
  | nil => rfl
  | cons first levels ih =>
    obtain ⟨hfirst, h⟩ := List.forall_mem_cons.mp h
    rw [innermost_cons, ih h, hfirst, Option.or_none]

/-- What an option does not say is not changed by it. -/
lemma innermost_of_givenOnce {α : Type} {value? : Given → Option α} (h : GivenOnce x levels levels')
    (hvalue : ∀ g : Given, value? (g.receive x) = value? g) :
    innermost value? levels' = innermost value? levels := by
  induction h with
  | here hlacks => rw [innermost_cons, innermost_cons, hvalue]
  | deeper hfirst hmore ih => rw [innermost_cons, innermost_cons, ih]

/-- What it says is found wherever it was given. -/
lemma innermost_eq_some_of_givenOnce {α : Type} {value? : Given → Option α} {value : α}
    (h : GivenOnce x levels levels') (hvalue : ∀ g : Given, value? (g.receive x) = some value)
    (hlacks : ∀ g : Given, g.has x.flag = false → value? g = none) :
    innermost value? levels' = some value := by
  induction h with
  | @here first levels h =>
    have hbelow := innermost_eq_none fun l hl => hlacks _ (h l (List.mem_cons_of_mem _ hl))
    rw [innermost_cons, hbelow, hvalue, Option.none_or]
  | deeper hfirst hmore ih => rw [innermost_cons, ih, Option.some_or]

lemma innermost_value?_of_givenOnce {t : Setting} {value : String}
    (h : GivenOnce (.setting t (some value)) levels levels') (s : Setting) :
    innermost (·.value? s) levels' =
      if t = s then some value else innermost (·.value? s) levels := by
  by_cases hts : t = s
  · subst hts
    rw [if_pos rfl]
    refine innermost_eq_some_of_givenOnce h (fun g => ?_)
      fun g hg => by simpa [Gift.flag, Given.has] using hg
    cases t <;> rfl
  · rw [if_neg hts]
    exact innermost_of_givenOnce h fun g => Given.value?_assign_of_ne g value hts

lemma any_of_givenOnce {p : Given → Bool} (h : GivenOnce x levels levels')
    (hp : ∀ g : Given, p (g.receive x) = p g) : levels'.any (p ·.2) = levels.any (p ·.2) := by
  induction h with
  | here hlacks => rw [List.any_cons, List.any_cons, hp]
  | deeper hfirst hmore ih => rw [List.any_cons, List.any_cons, ih]

lemma any_eq_true_of_givenOnce {p : Given → Bool} (h : GivenOnce x levels levels')
    (hp : ∀ g : Given, p (g.receive x) = true) : levels'.any (p ·.2) = true := by
  induction h with
  | here hlacks => rw [List.any_cons, hp, Bool.true_or]
  | deeper hfirst hmore ih => rw [List.any_cons, ih, Bool.or_true]

/-- The command stays, with what belongs to it. -/
lemma getLast?_of_givenOnce (h : GivenOnce x levels levels') :
    ∃ level g g', levels.getLast? = some (level, g) ∧ levels'.getLast? = some (level, g') ∧
      (g' = g ∨ g' = g.receive x) := by
  induction h with
  | @here first levels hlacks =>
    rcases List.eq_nil_or_concat levels with rfl | ⟨more, last, rfl⟩
    · exact ⟨first.1, first.2, _, rfl, rfl, .inr rfl⟩
    · exact ⟨last.1, last.2, last.2, by simp [List.getLast?_cons], by simp [List.getLast?_cons],
        .inl rfl⟩
  | deeper hfirst hmore ih =>
    obtain ⟨level, g, g', hlast, hlast', hg⟩ := ih
    exact ⟨level, g, g', by simp [List.getLast?_cons, hlast], by simp [List.getLast?_cons, hlast'],
      hg⟩

lemma actionOf_receive (hx : x.flag.IsGlobal) (verb : Verb) (g : Given) :
    actionOf verb (g.receive x) = actionOf verb g := by
  obtain ⟨hfile, hdata, hifNotExists⟩ := g.own_receive hx
  simp only [actionOf, g.positionals_receive, hfile, hdata, hifNotExists]

/-- The invocation of an action with the options for all levels. -/
def withOptions (action : Action) (levels : List (Level × Given)) : Invocation where
  action := action
  config := innermost (·.config) levels
  root := innermost (·.root) levels
  state := innermost (·.state) levels
  verbose := levels.any (·.2.verbose)
  format := ((innermost (·.format) levels).bind OutputFormat.ofName?).getD .text

lemma withOptions_of_givenOnce (hx : x.flag.IsGlobal) (hsound : x.isSound = true)
    (h : GivenOnce x levels levels') (action : Action) :
    withOptions action levels' = (withOptions action levels).receive x := by
  unfold withOptions
  rcases x with s | ⟨s, value⟩
  · cases s with
    | verbose =>
      have hsame {α : Type} (value? : Given → Option α)
          (hvalue : ∀ g : Given, value? { g with verbose := true } = value? g) :
          innermost value? levels' = innermost value? levels := innermost_of_givenOnce h hvalue
      rw [hsame (·.config) fun _ => rfl, hsame (·.root) fun _ => rfl, hsame (·.state) fun _ => rfl,
        hsame (·.format) fun _ => rfl, any_eq_true_of_givenOnce (p := Given.verbose) h fun _ => rfl]
      rfl
    | _ => exact absurd hx (by decide)
  · obtain ⟨value, rfl, -⟩ := (Option.any_eq_true _ _).mp hsound
    have hvalue (s' : Setting) := innermost_value?_of_givenOnce h s'
    have hconfig := hvalue .config
    have hroot := hvalue .root
    have hstate := hvalue .state
    have hformat := hvalue .format
    have hverbose := any_of_givenOnce (p := Given.verbose) h (by intro g; cases s <;> rfl)
    simp only [Given.value?] at hconfig hroot hstate hformat
    rw [hconfig, hroot, hstate, hformat, hverbose]
    rw [Gift.flag] at hx
    cases s with
    | file => exact absurd hx (by decide)
    | data => exact absurd hx (by decide)
    | _ => rfl

/-- An option for all levels counts for the whole, at whichever level it was given. -/
lemma ofLevels_of_givenOnce (hx : x.flag.IsGlobal) (hsound : x.isSound = true)
    (h : GivenOnce x levels levels') : ofLevels levels' = (ofLevels levels).map (·.receive x) := by
  obtain ⟨level, g, g', hlast, hlast', hg⟩ := getLast?_of_givenOnce h
  rw [ofLevels, ofLevels, hlast, hlast']
  rcases level with _ | _ | verb
  · rfl
  · rfl
  have haction : actionOf verb g' = actionOf verb g := by
    rcases hg with rfl | rfl
    · rfl
    · exact actionOf_receive hx verb g
  dsimp only
  rw [haction]
  cases actionOf verb g with
  | error e => rfl
  | ok action => exact congrArg Except.ok (withOptions_of_givenOnce hx hsound h action)

/-! ## Moving the option -/

variable {args tail : List String} {before after before' after' : List Item} {item : Item}
  {flag : Flag} {i : Invocation}

/-- What a command line says with the option is told by what it says without, wherever the option is
put in. -/
lemma parse_insert (hx : x.flag.IsGlobal) (hsound : x.isSound = true) (hitem : item.Gives x)
    (hspares : Spares x.flag (before ++ after)) (htail : IsTail tail) :
    parse (join (before ++ item :: after) tail) = .ok i ↔
      ∃ levels, Level.top.accepted {} (join (before ++ after) tail) = some levels ∧
        (ofLevels levels).map (·.receive x) = .ok i := by
  have hrel : Option.Rel (GivenOnce x) (Level.top.accepted {} (join (before ++ after) tail))
      (Level.top.accepted {} (join (before ++ item :: after) tail)) :=
    Level.rel_accepted_insert hx hitem hspares htail (Given.has_empty _)
  rw [parse_eq_ok_iff]
  generalize Level.top.accepted {} (join (before ++ after) tail) = without at hrel ⊢
  generalize Level.top.accepted {} (join (before ++ item :: after) tail) = inserted at hrel ⊢
  cases hrel with
  | none => simp
  | some hgiven => simp [ofLevels_of_givenOnce hx hsound hgiven]

lemma spares_of_count (hcomplete : ∀ b ∈ before ++ item :: after, b.IsComplete)
    (hown : item.flags = [flag])
    (honce : ((before ++ item :: after).flatMap Item.flags).count flag = 1) :
    Spares flag (before ++ after) := by
  have hnone : ((before ++ after).flatMap Item.flags).count flag = 0 := by
    simp only [List.flatMap_append, List.flatMap_cons, List.count_append, hown,
      List.count_singleton_self] at honce ⊢
    omega
  intro b hb
  have hmem : b ∈ before ++ item :: after :=
    List.mem_append.mpr ((List.mem_append.mp hb).imp_right (List.mem_cons_of_mem _))
  exact ⟨hcomplete b hmem,
    fun hflag => List.count_eq_zero.mp hnone (List.mem_flatMap_of_mem hb hflag)⟩

/-- An option for all levels that is given once may stand at any place among the complete arguments
of a command line. -/
theorem parse_moved (hcut : cut args = (before ++ item :: after, tail)) (hok : parse args = .ok i)
    (hglobal : flag.IsGlobal) (hown : item.flags = [flag])
    (honce : ((before ++ item :: after).flatMap Item.flags).count flag = 1)
    (hmoved : before' ++ after' = before ++ after) :
    parse (join (before' ++ item :: after') tail) = .ok i := by
  have hjoin : join (before ++ item :: after) tail = args := by simpa [hcut] using join_cut args
  have htail : IsTail tail := by simpa [hcut] using isTail_cut args
  have hcomplete : ∀ b ∈ before ++ item :: after, b.IsComplete := fun b hb =>
    isComplete_of_mem_cut args (by simpa [hcut] using hb)
  have hspares := spares_of_count hcomplete hown honce
  rw [← hjoin] at hok
  rcases Level.gives_or_untaken (hcomplete item (by simp)) hown hglobal with
    ⟨x, rfl, hsound, hgives⟩ | htake
  · have hwithout := (parse_insert hglobal hsound hgives hspares htail).mp hok
    rw [← hmoved] at hspares hwithout
    exact (parse_insert hglobal hsound hgives hspares htail).mpr hwithout
  · obtain ⟨levels, haccepted, -⟩ := parse_eq_ok_iff.mp hok
    have hopens (level : Level) := level.opens?_of_not_isWord (Item.not_isWord_of_flags hown)
    rw [Level.accepted_untaken (hcomplete item (by simp)) hopens htake fun b hb =>
      hcomplete b (List.mem_append_left _ hb)] at haccepted
    cases haccepted

theorem parse_moved_format :
    (cut ["state", "put", "12", "--format", "json"] =
        ([⟨"state", none⟩, ⟨"put", none⟩, ⟨"12", none⟩] ++ ⟨"--format", some "json"⟩ :: [], []) ∧
      parse ["state", "put", "12", "--format", "json"] =
      .ok ⟨.statePut 12, none, none, none, false, .json⟩ ∧
      (Flag.setting .format).IsGlobal ∧ Item.flags ⟨"--format", some "json"⟩ = [.setting .format]) ∧
    parse ["state", "--format", "json", "put", "12"] =
      .ok ⟨.statePut 12, none, none, none, false, .json⟩ := by
  have hcut : cut ["state", "put", "12", "--format", "json"] =
      ([⟨"state", none⟩, ⟨"put", none⟩, ⟨"12", none⟩] ++ ⟨"--format", some "json"⟩ :: [], []) := by
    decide
  have hok : parse ["state", "put", "12", "--format", "json"] =
      .ok ⟨.statePut 12, none, none, none, false, .json⟩ := rfl
  have hown : Item.flags ⟨"--format", some "json"⟩ = [.setting .format] := by decide
  have hmoved : [(⟨"state", none⟩ : Item)] ++ [⟨"put", none⟩, ⟨"12", none⟩] =
      [⟨"state", none⟩, ⟨"put", none⟩, ⟨"12", none⟩] ++ [] := rfl
  exact ⟨⟨hcut, hok, by decide, hown⟩, parse_moved hcut hok (by decide) hown (by decide) hmoved⟩

end Invocation

end CommitStore
