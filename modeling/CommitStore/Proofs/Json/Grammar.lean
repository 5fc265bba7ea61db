import CommitStore.Json.Value
import CommitStore.Proofs.Text.Digits

/-!
# The grammar of JSON texts, and its reader

The texts of numbers, of strings and of values are described here without a reader: by what stands
in them one after the other.  `Json.ValueText` is the text of a value, and `Json.PaddedText` the
same with white space around it.

The reader takes the whole of each such text, whatever follows it, as long as what follows a number
does not go on with it (`Json.readValue_of_text`).  How deep it descends is bounded by the length of
the text, since every second step of descent passes a character.
-/

namespace CommitStore

namespace Json

/-! ## White space -/

/-- Nothing but white space. -/
def IsBlanks (s : Source) : Prop := ∀ c ∈ s, ∃ d, c = some d ∧ isBlank d = true

lemma IsBlanks.nil : IsBlanks [] := by simp [IsBlanks]

lemma skipBlanks_append {gap : Source} (hgap : IsBlanks gap) (rest : Source) :
    skipBlanks (gap ++ rest) = skipBlanks rest := by
  induction gap with
  | nil => rfl
  | cons c gap ih =>
    obtain ⟨d, rfl, hd⟩ := hgap c List.mem_cons_self
    rw [List.cons_append, skipBlanks, if_pos hd]
    exact ih fun c hc => hgap c (List.mem_cons_of_mem _ hc)

lemma skipBlanks_cons {c : Char} (hc : isBlank c = false) (rest : Source) :
    skipBlanks (some c :: rest) = some c :: rest := by
  rw [skipBlanks, if_neg (by simp [hc])]

lemma skipBlanks_skipBlanks (s : Source) : skipBlanks (skipBlanks s) = skipBlanks s := by
  fun_induction skipBlanks s with
  | case1 c rest hc ih => exact ih
  | case2 c rest hc => exact skipBlanks_cons (by simpa using hc) rest
  | case3 rest => rfl
  | case4 => rfl

/-! ## Numbers -/

/-- The digits in front of a point: a single zero, or digits that do not begin with zero. -/
def IsWhole (digits : List Char) : Prop :=
  digits = ['0'] ∨ Text.IsDigits digits ∧ digits.head? ≠ some '0'

/-- The texts of the digits behind the point; without digits there is no point. -/
inductive FractionText : List Char → Source → Prop
  | absent : FractionText [] []
  | present {digits : List Char} (h : Text.IsDigits digits) :
      FractionText digits (some '.' :: digits.map some)

/-- The texts of an exponent: a letter of either case, a sign or none, and digits. -/
inductive ExponentText : Option (Bool × List Char) → Source → Prop
  | absent : ExponentText none []
  | unsigned {letter : Char} {digits : List Char} (hletter : letter = 'e' ∨ letter = 'E')
      (h : Text.IsDigits digits) :
        ExponentText (some (false, digits)) (some letter :: digits.map some)
  | positive {letter : Char} {digits : List Char} (hletter : letter = 'e' ∨ letter = 'E')
      (h : Text.IsDigits digits) :
      ExponentText (some (false, digits)) (some letter :: some '+' :: digits.map some)
  | negative {letter : Char} {digits : List Char} (hletter : letter = 'e' ∨ letter = 'E')
      (h : Text.IsDigits digits) :
      ExponentText (some (true, digits)) (some letter :: some '-' :: digits.map some)

/-- The texts of a number without its sign. -/
inductive MagnitudeText : Number → Source → Prop
  | intro {negative : Bool} {whole fraction : List Char} {exponent : Option (Bool × List Char)}
      {f e : Source} (hwhole : IsWhole whole) (hfraction : FractionText fraction f)
      (hexponent : ExponentText exponent e) :
      MagnitudeText ⟨negative, whole, fraction, exponent⟩ (whole.map some ++ (f ++ e))

/-- The texts of a number. -/
inductive NumberText : Number → Source → Prop
  | positive {n : Number} {s : Source} (hsign : n.negative = false) (h : MagnitudeText n s) :
      NumberText n s
  | negative {n : Number} {s : Source} (hsign : n.negative = true) (h : MagnitudeText n s) :
      NumberText n (some '-' :: s)

/-- What follows does not begin with a digit. -/
def EndsDigits (rest : Source) : Prop := ∀ c, rest.head? = some (some c) → c.isDigit = false

/-- What follows a number does not go on with it. -/
def EndsNumber (rest : Source) : Prop :=
  ∀ c, rest.head? = some (some c) → c.isDigit = false ∧ c ≠ '.' ∧ c ≠ 'e' ∧ c ≠ 'E'

lemma EndsNumber.endsDigits {rest : Source} (h : EndsNumber rest) : EndsDigits rest :=
  fun c hc => (h c hc).1

lemma endsNumber_nil : EndsNumber [] := by simp [EndsNumber]

lemma endsNumber_append {gap rest : Source} (hgap : IsBlanks gap) (hrest : EndsNumber rest) :
    EndsNumber (gap ++ rest) := by
  cases gap with
  | nil => exact hrest
  | cons c gap =>
    intro d hd
    obtain ⟨b, rfl, hb⟩ := hgap c List.mem_cons_self
    obtain rfl : b = d := by simpa using hd
    simp only [isBlank, Bool.or_eq_true, decide_eq_true_eq] at hb
    rcases hb with ((rfl | rfl) | rfl) | rfl <;> decide

lemma takeDigits_append {digits : List Char} {rest : Source}
    (hdigits : ∀ c ∈ digits, c.isDigit = true) (hrest : EndsDigits rest) :
    takeDigits (digits.map some ++ rest) = (digits, rest) := by
  induction digits with
  | nil =>
    match rest with
    | [] => rfl
    | none :: rest => rfl
    | some c :: rest => simp [takeDigits, hrest c rfl]
  | cons c digits ih =>
    have hc := hdigits c List.mem_cons_self
    have hmore := ih fun d hd => hdigits d (List.mem_cons_of_mem _ hd)
    simp [takeDigits, hc, hmore]

lemma takeDigits_cons {c : Char} {more : List Char} {rest : Source} (h : Text.IsDigits (c :: more))
    (hrest : EndsDigits rest) :
    takeDigits (some c :: (more.map some ++ rest)) = (c :: more, rest) :=
  takeDigits_append h.2 hrest

lemma readWhole_of_isWhole {digits : List Char} {rest : Source} (hdigits : IsWhole digits)
    (hrest : EndsDigits rest) : readWhole (digits.map some ++ rest) = some (digits, rest) := by
  rcases hdigits with rfl | ⟨hall, hzero⟩
  · rfl
  · obtain ⟨c, more, rfl, -⟩ := hall.exists_cons
    rw [List.map_cons, List.cons_append, readWhole]
    · simp only [takeDigits_cons hall hrest]
    · rintro after hafter
      exact hzero (by simpa using (List.cons.inj hafter).1)

lemma readFraction_of_text {digits : List Char} {s rest : Source} (h : FractionText digits s)
    (hrest : EndsDigits rest) (hpoint : ∀ more, rest ≠ some '.' :: more) :
    readFraction (s ++ rest) = some (digits, rest) := by
  cases h with
  | absent =>
    rw [List.nil_append, readFraction]
    exact fun more hmore => hpoint more hmore
  | present h =>
    obtain ⟨c, more, rfl, -⟩ := h.exists_cons
    simp only [List.map_cons, List.cons_append, readFraction, takeDigits_cons h hrest]

lemma readExponent_of_text {exponent : Option (Bool × List Char)} {s rest : Source}
    (h : ExponentText exponent s) (hrest : EndsNumber rest) :
    readExponent (s ++ rest) = some (exponent, rest) := by
  cases h with
  | absent =>
    match rest with
    | [] => rfl
    | none :: rest => rfl
    | some c :: rest =>
      obtain ⟨-, -, hlower, hupper⟩ := hrest c rfl
      simp [readExponent, hlower, hupper]
  | unsigned hletter h =>
    obtain ⟨c, more, rfl, hc⟩ := h.exists_cons
    have htake := takeDigits_cons h hrest.endsDigits
    -- The first digit is not taken for a sign.
    have hplus : c ≠ '+' := by rintro rfl; cases hc
    have hminus : c ≠ '-' := by rintro rfl; cases hc
    simp [readExponent, hletter, hplus, hminus, htake]
  | positive hletter h =>
    obtain ⟨c, more, rfl, -⟩ := h.exists_cons
    simp [readExponent, hletter, takeDigits_cons h hrest.endsDigits]
  | negative hletter h =>
    obtain ⟨c, more, rfl, -⟩ := h.exists_cons
    simp [readExponent, hletter, takeDigits_cons h hrest.endsDigits]

lemma endsDigits_cons {c : Char} (hc : c.isDigit = false) (rest : Source) :
    EndsDigits (some c :: rest) := by
  intro d hd
  obtain rfl : c = d := by simpa using hd
  exact hc

lemma exponent_head {exponent : Option (Bool × List Char)} {s rest : Source}
    (h : ExponentText exponent s) (hrest : EndsNumber rest) :
    EndsDigits (s ++ rest) ∧ ∀ more, s ++ rest ≠ some '.' :: more := by
  have hletter : ∀ c : Char, c = 'e' ∨ c = 'E' → ∀ after : Source,
      EndsDigits (some c :: after) ∧ ∀ more, some c :: after ≠ some '.' :: more := by
    rintro c (rfl | rfl) after <;> exact ⟨endsDigits_cons (by decide) after, by simp⟩
  cases h with
  | absent =>
    refine ⟨hrest.endsDigits, ?_⟩
    rintro more rfl
    exact (hrest '.' rfl).2.1 rfl
  | unsigned hc => exact hletter _ hc _
  | positive hc => exact hletter _ hc _
  | negative hc => exact hletter _ hc _

lemma endsDigits_fraction {digits : List Char} {s rest : Source} (h : FractionText digits s)
    (hrest : EndsDigits rest) : EndsDigits (s ++ rest) := by
  cases h with
  | absent => exact hrest
  | present => exact endsDigits_cons (by decide) _

/-- A number without its sign begins with a digit. -/
lemma MagnitudeText.exists_cons {n : Number} {s : Source} (h : MagnitudeText n s) :
    ∃ c rest, s = some c :: rest ∧ c.isDigit = true := by
  obtain ⟨hwhole, -, -⟩ := h
  rcases hwhole with rfl | ⟨hdigits, -⟩
  · exact ⟨'0', _, rfl, by decide⟩
  · obtain ⟨c, more, rfl, hc⟩ := hdigits.exists_cons
    exact ⟨c, _, rfl, hc⟩

/-- A number begins with a digit or with a minus sign, and so with no other character. -/
lemma NumberText.exists_cons {n : Number} {s : Source} (h : NumberText n s) :
    ∃ c rest, s = some c :: rest ∧ ∀ d : Char, d ≠ '-' → d.isDigit = false → c ≠ d := by
  cases h with
  | positive _ h =>
    obtain ⟨c, rest, rfl, hc⟩ := h.exists_cons
    refine ⟨c, rest, rfl, ?_⟩
    rintro d - hd rfl
    rw [hd] at hc
    cases hc
  | negative _ h => exact ⟨'-', _, rfl, fun d hd _ => hd.symm⟩

/-- Digits, fraction and exponent are read one after the other. -/
lemma MagnitudeText.read {n : Number} {s rest : Source} (h : MagnitudeText n s)
    (hrest : EndsNumber rest) :
    ∃ r₁ r₂, readWhole (s ++ rest) = some (n.whole, r₁) ∧
      readFraction r₁ = some (n.fraction, r₂) ∧ readExponent r₂ = some (n.exponent, rest) := by
  obtain ⟨hwhole, hfraction, hexponent⟩ := h
  obtain ⟨hends, hpoint⟩ := exponent_head hexponent hrest
  refine ⟨_, _, ?_, readFraction_of_text hfraction hends hpoint,
    readExponent_of_text hexponent hrest⟩
  rw [List.append_assoc, List.append_assoc]
  exact readWhole_of_isWhole hwhole (endsDigits_fraction hfraction hends)

lemma readNumber_of_text {n : Number} {s rest : Source} (h : NumberText n s)
    (hrest : EndsNumber rest) : readNumber (s ++ rest) = some (n, rest) := by
  cases h with
  | positive hsign h =>
    obtain ⟨r₁, r₂, hwhole, hfraction, hexponent⟩ := h.read hrest
    obtain ⟨c, more, rfl, hc⟩ := h.exists_cons
    -- The first digit is not taken for a minus sign.
    have hminus : c ≠ '-' := by rintro rfl; cases hc
    rw [List.cons_append] at hwhole ⊢
    rw [readNumber]
    · simp [hwhole, hfraction, hexponent, ← hsign]
    · intro after hafter
      exact hminus (Option.some.inj (List.cons.inj hafter).1)
  | negative hsign h =>
    obtain ⟨r₁, r₂, hwhole, hfraction, hexponent⟩ := h.read hrest
    simp [readNumber, hwhole, hfraction, hexponent, ← hsign]

/-! ## Strings -/

/-- The texts of the inside of a string, piece by piece: a character as itself, a short escape, a
code unit, or a damaged place. -/
inductive CharsText : List Piece → Source → Prop
  | nil : CharsText [] []
  | broken {pieces : List Piece} {s : Source} (h : CharsText pieces s) :
      CharsText (.broken :: pieces) (none :: s)
  | plain {c : Char} {pieces : List Piece} {s : Source} (hquote : c ≠ '"') (hescape : c ≠ '\\')
      (hcontrol : ¬ c.toNat < 0x20) (h : CharsText pieces s) :
      CharsText (.char c :: pieces) (some c :: s)
  | short {letter c : Char} {pieces : List Piece} {s : Source} (hc : shortEscape? letter = some c)
      (h : CharsText pieces s) : CharsText (.char c :: pieces) (some '\\' :: some letter :: s)
  | unit {d₁ d₂ d₃ d₄ : Option Char} {code : Nat} {pieces : List Piece} {s : Source}
      (hcode : codeUnit? d₁ d₂ d₃ d₄ = some code) (h : CharsText pieces s) :
      CharsText (.unit code :: pieces) (some '\\' :: some 'u' :: d₁ :: d₂ :: d₃ :: d₄ :: s)

/-- The inside of a string is read up to the closing quote. -/
lemma readString_of_text {pieces : List Piece} {s : Source} (h : CharsText pieces s)
    (rest : Source) : readString (s ++ some '"' :: rest) = some (pieces, rest) := by
  induction h with
  | nil => exact (readString.eq_def _).trans (if_pos rfl)
  | broken h ih => rw [List.cons_append, readString, ih, Option.map_some]
  | plain hquote hescape hcontrol h ih =>
    rw [List.cons_append, readString.eq_def]
    simp only [if_neg hquote, if_neg hescape, if_neg hcontrol, ih, Option.map_some]
  | short hc h ih =>
    have hletter : ∀ letter c, shortEscape? letter = some c → letter ≠ 'u' := by
      rintro letter c hc rfl
      cases hc
    rw [List.cons_append, List.cons_append, readString.eq_def]
    simp [hletter _ _ hc, hc, ih]
  | unit hcode h ih =>
    simp only [List.cons_append]
    rw [readString.eq_def]
    simp [hcode, ih]

/-! ## Values -/

mutual

/-- The texts of a value. -/
inductive ValueText : Json → Source → Prop
  | null : ValueText .null [some 'n', some 'u', some 'l', some 'l']
  | yes : ValueText (.bool true) [some 't', some 'r', some 'u', some 'e']
  | no : ValueText (.bool false) [some 'f', some 'a', some 'l', some 's', some 'e']
  | number {n : Number} {s : Source} (h : NumberText n s) : ValueText (.number n) s
  | string {pieces : List Piece} {s : Source} (h : CharsText pieces s) :
      ValueText (.string pieces) (some '"' :: (s ++ [some '"']))
  | noItems {gap : Source} (hgap : IsBlanks gap) :
      ValueText (.array []) (some '[' :: (gap ++ [some ']']))
  | array {items : List Json} {s : Source} (h : ItemsText items s) :
      ValueText (.array items) (some '[' :: s)
  | noMembers {gap : Source} (hgap : IsBlanks gap) :
      ValueText (.object []) (some '\x7b' :: (gap ++ [some '\x7d']))
  | object {members : List (List Piece × Json)} {s : Source} (h : MembersText members s) :
      ValueText (.object members) (some '\x7b' :: s)

/-- The texts of a value with white space around them. -/
inductive PaddedText : Json → Source → Prop
  | intro {value : Json} {before s behind : Source} (hbefore : IsBlanks before)
      (h : ValueText value s) (hbehind : IsBlanks behind) :
      PaddedText value (before ++ (s ++ behind))

/-- The texts of the items of an array, at least one, with the closing bracket. -/
inductive ItemsText : List Json → Source → Prop
  | last {item : Json} {s : Source} (h : PaddedText item s) : ItemsText [item] (s ++ [some ']'])
  | cons {item : Json} {items : List Json} {s more : Source} (h : PaddedText item s)
      (hmore : ItemsText items more) : ItemsText (item :: items) (s ++ some ',' :: more)

/-- The texts of the members of an object, at least one, with the closing brace. -/
inductive MembersText : List (List Piece × Json) → Source → Prop
  | last {key : List Piece} {value : Json} {before k between s : Source} (hbefore : IsBlanks before)
      (hkey : CharsText key k) (hbetween : IsBlanks between) (h : PaddedText value s) :
      MembersText [(key, value)]
        (before ++ some '"' :: (k ++ some '"' :: (between ++ some ':' :: (s ++ [some '\x7d']))))
  | cons {key : List Piece} {value : Json} {members : List (List Piece × Json)}
      {before k between s more : Source} (hbefore : IsBlanks before) (hkey : CharsText key k)
      (hbetween : IsBlanks between) (h : PaddedText value s) (hmore : MembersText members more) :
      MembersText ((key, value) :: members)
        (before ++ some '"' :: (k ++ some '"' :: (between ++ some ':' :: (s ++ some ',' :: more))))

end

/-- A value begins neither with white space nor with a closing bracket. -/
lemma ValueText.exists_cons {value : Json} {s : Source} (h : ValueText value s) :
    ∃ c rest, s = some c :: rest ∧ isBlank c = false ∧ c ≠ ']' := by
  cases h with
  | number h =>
    obtain ⟨c, rest, rfl, hother⟩ := h.exists_cons
    refine ⟨c, rest, rfl, ?_, hother ']' (by decide) (by decide)⟩
    simp [isBlank, hother ' ' (by decide) (by decide), hother '\n' (by decide) (by decide),
      hother '\r' (by decide) (by decide), hother '\t' (by decide) (by decide)]
  | _ => exact ⟨_, _, rfl, by decide, by decide⟩

lemma readValue_skipBlanks (fuel : Nat) (s : Source) :
    readValue fuel (skipBlanks s) = readValue fuel s := by
  cases fuel with
  | zero => rfl
  | succ fuel => rw [readValue, readValue, skipBlanks_skipBlanks]

lemma readItems_skipBlanks (fuel : Nat) (s : Source) :
    readItems fuel (skipBlanks s) = readItems fuel s := by
  cases fuel with
  | zero => rfl
  | succ fuel => rw [readItems, readItems, readValue_skipBlanks]

lemma readMembers_skipBlanks (fuel : Nat) (s : Source) :
    readMembers fuel (skipBlanks s) = readMembers fuel s := by
  cases fuel with
  | zero => rfl
  | succ fuel => rw [readMembers, readMembers, skipBlanks_skipBlanks]

/-! ### One step of the reader -/

section

variable {fuel : Nat} {s after more rest : Source}

lemma readItems_last {item : Json} (hvalue : readValue fuel s = some (item, after))
    (hafter : skipBlanks after = some ']' :: rest) :
    readItems (fuel + 1) s = some ([item], rest) := by
  rw [readItems, hvalue]
  simp [hafter]

lemma readItems_cons {item : Json} {items : List Json}
    (hvalue : readValue fuel s = some (item, after))
    (hafter : skipBlanks after = some ',' :: more)
    (hmore : readItems fuel more = some (items, rest)) :
    readItems (fuel + 1) s = some (item :: items, rest) := by
  rw [readItems, hvalue]
  simp [hafter, hmore]

variable {key : List Piece} {value : Json} {k before between : Source}

lemma readMembers_last (hbefore : IsBlanks before) (hkey : CharsText key k)
    (hbetween : IsBlanks between) (hvalue : readValue fuel s = some (value, after))
    (hafter : skipBlanks after = some '\x7d' :: rest) :
    readMembers (fuel + 1) (before ++ some '"' :: (k ++ some '"' :: (between ++ some ':' :: s))) =
      some ([(key, value)], rest) := by
  rw [readMembers, skipBlanks_append hbefore, skipBlanks_cons (by decide)]
  simp only [readString_of_text hkey, skipBlanks_append hbetween,
    skipBlanks_cons (show isBlank ':' = false by decide), hvalue, hafter]
  rfl

lemma readMembers_cons {members : List (List Piece × Json)} (hbefore : IsBlanks before)
    (hkey : CharsText key k) (hbetween : IsBlanks between)
    (hvalue : readValue fuel s = some (value, after))
    (hafter : skipBlanks after = some ',' :: more)
    (hmore : readMembers fuel more = some (members, rest)) :
    readMembers (fuel + 1) (before ++ some '"' :: (k ++ some '"' :: (between ++ some ':' :: s))) =
      some ((key, value) :: members, rest) := by
  rw [readMembers, skipBlanks_append hbefore, skipBlanks_cons (by decide)]
  simp only [readString_of_text hkey, skipBlanks_append hbetween,
    skipBlanks_cons (show isBlank ':' = false by decide), hvalue, hafter, hmore]
  rfl

/-- An array that is not empty is read item by item. -/
lemma readValue_array {items : List Json} {c : Char} (hhead : skipBlanks s = some c :: more)
    (hc : c ≠ ']') (hitems : readItems fuel s = some (items, rest)) :
    readValue (fuel + 1) (some '[' :: s) = some (.array items, rest) := by
  rw [← readItems_skipBlanks, hhead] at hitems
  simp [readValue, skipBlanks_cons (show isBlank '[' = false by decide), hhead, hc, hitems]

/-- An object that is not empty is read member by member. -/
lemma readValue_object {members : List (List Piece × Json)}
    (hhead : skipBlanks s = some '"' :: more)
    (hmembers : readMembers fuel s = some (members, rest)) :
    readValue (fuel + 1) (some '\x7b' :: s) = some (.object members, rest) := by
  rw [← readMembers_skipBlanks, hhead] at hmembers
  simp [readValue, skipBlanks_cons (show isBlank '\x7b' = false by decide), hhead, hmembers]

end

/-! ### The whole text of a value -/

lemma endsNumber_cons {c : Char} (hdigit : c.isDigit = false) (hpoint : c ≠ '.') (hlower : c ≠ 'e')
    (hupper : c ≠ 'E') (rest : Source) : EndsNumber (some c :: rest) := by
  intro d hd
  obtain rfl : c = d := by simpa using hd
  exact ⟨hdigit, hpoint, hlower, hupper⟩

lemma endsNumber_comma (rest : Source) : EndsNumber (some ',' :: rest) :=
  endsNumber_cons (by decide) (by decide) (by decide) (by decide) rest

lemma endsNumber_bracket (rest : Source) : EndsNumber (some ']' :: rest) :=
  endsNumber_cons (by decide) (by decide) (by decide) (by decide) rest

lemma endsNumber_brace (rest : Source) : EndsNumber (some '\x7d' :: rest) :=
  endsNumber_cons (by decide) (by decide) (by decide) (by decide) rest

lemma readValue_number {n : Number} {s rest : Source} (h : NumberText n s)
    (hrest : EndsNumber rest) (fuel : Nat) :
    readValue (fuel + 1) (s ++ rest) = some (.number n, rest) := by
  have hnumber := readNumber_of_text h hrest
  have hblank : skipBlanks (s ++ rest) = s ++ rest := by
    obtain ⟨c, more, rfl, hc, -⟩ := (ValueText.number h).exists_cons
    exact skipBlanks_cons hc _
  obtain ⟨c, more, rfl, hother⟩ := h.exists_cons
  rw [List.cons_append] at hnumber hblank ⊢
  rw [readValue, hblank]
  simp only
  rw [if_neg (hother _ (by decide) (by decide)), if_neg (hother _ (by decide) (by decide)),
    if_neg (hother _ (by decide) (by decide)), if_neg (hother _ (by decide) (by decide)),
    if_neg (hother _ (by decide) (by decide)), if_neg (hother _ (by decide) (by decide)), hnumber]
  rfl

/-- The texts of members begin with a quote, behind white space. -/
lemma MembersText.skipBlanks_eq {members : List (List Piece × Json)} {s : Source}
    (h : MembersText members s) (rest : Source) :
    ∃ more, skipBlanks (s ++ rest) = some '"' :: more := by
  cases h <;> rw [List.append_assoc, skipBlanks_append (by assumption)] <;>
    exact ⟨_, skipBlanks_cons (by decide) _⟩

lemma PaddedText.skipBlanks_eq {value : Json} {s : Source} (h : PaddedText value s)
    (rest : Source) : ∃ c more, skipBlanks (s ++ rest) = some c :: more ∧ c ≠ ']' := by
  obtain ⟨hbefore, h, -⟩ := h
  obtain ⟨c, more, rfl, hblank, hc⟩ := h.exists_cons
  rw [List.append_assoc, skipBlanks_append hbefore]
  exact ⟨c, _, skipBlanks_cons hblank _, hc⟩

/-- The texts of items begin like a value, behind white space. -/
lemma ItemsText.skipBlanks_eq {items : List Json} {s : Source} (h : ItemsText items s)
    (rest : Source) : ∃ c more, skipBlanks (s ++ rest) = some c :: more ∧ c ≠ ']' := by
  cases h <;> rw [List.append_assoc] <;> exact PaddedText.skipBlanks_eq (by assumption) _

mutual

/-- A value is read from its text, whatever follows that does not go on with a number. -/
theorem readValue_of_text {value : Json} {s rest : Source} (h : ValueText value s)
    (hrest : EndsNumber rest) (fuel : Nat) (hfuel : 2 * s.length ≤ fuel) :
    readValue (fuel + 1) (s ++ rest) = some (value, rest) := by
  match h with
  | .null => rfl
  | .yes => rfl
  | .no => rfl
  | .number h => exact readValue_number h hrest fuel
  | .string h =>
    simp [readValue, skipBlanks_cons (show isBlank '"' = false by decide), readString_of_text h]
  | .noItems hgap =>
    simp [readValue, skipBlanks_cons (show isBlank '[' = false by decide),
      skipBlanks_append hgap, skipBlanks_cons (show isBlank ']' = false by decide)]
  | .array h =>
    obtain ⟨c, more, hhead, hc⟩ := h.skipBlanks_eq rest
    obtain ⟨fuel, rfl⟩ : ∃ n, fuel = n + 1 := ⟨fuel - 1, by simp at hfuel; omega⟩
    exact readValue_array hhead hc (readItems_of_text h rest fuel (by simp at hfuel; omega))
  | .noMembers hgap =>
    simp [readValue, skipBlanks_cons (show isBlank '\x7b' = false by decide),
      skipBlanks_append hgap, skipBlanks_cons (show isBlank '\x7d' = false by decide)]
  | .object h =>
    obtain ⟨more, hhead⟩ := h.skipBlanks_eq rest
    obtain ⟨fuel, rfl⟩ : ∃ n, fuel = n + 1 := ⟨fuel - 1, by simp at hfuel; omega⟩
    exact readValue_object hhead (readMembers_of_text h rest fuel (by simp at hfuel; omega))

theorem readValue_of_padded {value : Json} {s rest : Source} (h : PaddedText value s)
    (hrest : EndsNumber rest) (fuel : Nat) (hfuel : 2 * s.length ≤ fuel) :
    ∃ after, readValue (fuel + 1) (s ++ rest) = some (value, after) ∧
      skipBlanks after = skipBlanks rest := by
  match h with
  | .intro hbefore h hbehind =>
    refine ⟨_, ?_, skipBlanks_append hbehind rest⟩
    rw [List.append_assoc, List.append_assoc, ← readValue_skipBlanks, skipBlanks_append hbefore,
      readValue_skipBlanks]
    exact readValue_of_text h (endsNumber_append hbehind hrest) fuel (by simp at hfuel; omega)

/-- The items of an array are read up to the closing bracket. -/
theorem readItems_of_text {items : List Json} {s : Source} (h : ItemsText items s) (rest : Source)
    (fuel : Nat) (hfuel : 2 * s.length ≤ fuel) :
    readItems (fuel + 1) (s ++ rest) = some (items, rest) := by
  obtain ⟨fuel, rfl⟩ : ∃ n, fuel = n + 1 := ⟨fuel - 1, by cases h <;> simp at hfuel <;> omega⟩
  match h with
  | .last h =>
    obtain ⟨after, hvalue, hafter⟩ :=
      readValue_of_padded h (endsNumber_bracket rest) fuel (by simp at hfuel; omega)
    rw [List.append_assoc]
    exact readItems_last hvalue (hafter.trans (skipBlanks_cons (by decide) rest))
  | @ItemsText.cons _ _ _ more h hmore =>
    have hitems := readItems_of_text hmore rest fuel (by simp at hfuel; omega)
    obtain ⟨after, hvalue, hafter⟩ :=
      readValue_of_padded h (endsNumber_comma (more ++ rest)) fuel (by simp at hfuel; omega)
    rw [List.append_assoc]
    exact readItems_cons hvalue (hafter.trans (skipBlanks_cons (by decide) _)) hitems

/-- The members of an object are read up to the closing brace. -/
theorem readMembers_of_text {members : List (List Piece × Json)} {s : Source}
    (h : MembersText members s) (rest : Source) (fuel : Nat) (hfuel : 2 * s.length ≤ fuel) :
    readMembers (fuel + 1) (s ++ rest) = some (members, rest) := by
  obtain ⟨fuel, rfl⟩ : ∃ n, fuel = n + 1 := ⟨fuel - 1, by cases h <;> simp at hfuel <;> omega⟩
  match h with
  | .last hbefore hkey hbetween h =>
    obtain ⟨after, hvalue, hafter⟩ :=
      readValue_of_padded h (endsNumber_brace rest) fuel (by simp at hfuel; omega)
    simp only [List.append_assoc, List.cons_append]
    exact readMembers_last hbefore hkey hbetween hvalue
      (hafter.trans (skipBlanks_cons (by decide) rest))
  | @MembersText.cons _ _ _ _ _ _ _ more hbefore hkey hbetween h hmore =>
    have hmembers := readMembers_of_text hmore rest fuel (by simp at hfuel; omega)
    obtain ⟨after, hvalue, hafter⟩ :=
      readValue_of_padded h (endsNumber_comma (more ++ rest)) fuel (by simp at hfuel; omega)
    simp only [List.append_assoc, List.cons_append]
    exact readMembers_cons hbefore hkey hbetween hvalue
      (hafter.trans (skipBlanks_cons (by decide) _)) hmembers

end

theorem parse?_of_text {value : Json} {s : Source} (h : PaddedText value s) :
    parse? s = some value := by
  obtain ⟨after, hvalue, hafter⟩ := readValue_of_padded h endsNumber_nil _ (Nat.le_succ _)
  rw [List.append_nil] at hvalue
  rw [parse?, hvalue]
  exact if_pos hafter

end Json

end CommitStore
