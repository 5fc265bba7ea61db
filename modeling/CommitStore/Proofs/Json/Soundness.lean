import CommitStore.Proofs.Json.Grammar
import CommitStore.Proofs.Json.Record

/-!
# The reader of JSON takes nothing but texts of the grammar

What each part of the reader has taken is a text of what it gives, and what it leaves is the rest of
its input.  For values this is by induction on the steps of descent, `Json.readsTexts`.  So a whole
text is read as a value only if it is a text of that value with white space around it.  Together
with the converse this determines the reader (`Json.parse?_eq_some_iff`).
-/

namespace CommitStore

namespace Json

variable {s rest : Source}

/-! ## White space and words -/

lemma exists_skipBlanks (s : Source) : ∃ gap, IsBlanks gap ∧ s = gap ++ skipBlanks s := by
  fun_induction skipBlanks s with
  | case1 c rest hc ih =>
    obtain ⟨gap, hgap, hrest⟩ := ih
    refine ⟨some c :: gap, ?_, by rw [List.cons_append, ← hrest]⟩
    rintro d hd
    rcases List.mem_cons.mp hd with rfl | hd
    · exact ⟨c, rfl, hc⟩
    · exact hgap d hd
  | case2 c rest hc => exact ⟨[], IsBlanks.nil, rfl⟩
  | case3 rest => exact ⟨[], IsBlanks.nil, rfl⟩
  | case4 => exact ⟨[], IsBlanks.nil, rfl⟩

/-- A value for which a fixed word stands was read past that word. -/
lemma readWord_ok {word : List Char} {value value' : Json}
    (h : ((readWord word s).map fun after => (value, after)) = some (value', rest)) :
    value = value' ∧ s = word.map some ++ rest := by
  obtain ⟨after, hword, heq⟩ := Option.map_eq_some_iff.mp h
  obtain ⟨rfl, rfl⟩ := Prod.mk.inj heq
  refine ⟨rfl, ?_⟩
  clear h heq
  fun_induction readWord word s with
  | case1 s => simpa using hword
  | case2 w word s ih => rw [ih hword]; rfl
  | case3 | case4 => cases hword

/-! ## Numbers -/

lemma takeDigits_ok (s : Source) : s = (takeDigits s).1.map some ++ (takeDigits s).2 ∧
    ∀ c ∈ (takeDigits s).1, c.isDigit = true := by
  fun_induction takeDigits s with
  | case1 c rest hc digits after htake ih =>
    rw [htake] at ih
    exact ⟨by rw [List.map_cons, List.cons_append, ← ih.1], List.forall_mem_cons.mpr ⟨hc, ih.2⟩⟩
  | case2 c rest hc => simp
  | case3 rest => simp
  | case4 => simp

/-- When digits have to follow, at least one was taken. -/
lemma isDigits_of_takeDigits {digits : List Char} (h : takeDigits s = (digits, rest))
    (hne : digits ≠ []) : Text.IsDigits digits ∧ s = digits.map some ++ rest := by
  have hok := takeDigits_ok s
  rw [h] at hok
  exact ⟨⟨hne, hok.2⟩, hok.1⟩

lemma readWhole_ok {digits : List Char} (h : readWhole s = some (digits, rest)) :
    IsWhole digits ∧ s = digits.map some ++ rest := by
  unfold readWhole at h
  split at h
  · obtain ⟨rfl, rfl⟩ := Prod.mk.inj (Option.some.inj h)
    exact ⟨.inl rfl, rfl⟩
  · rename_i hzero
    split at h
    · cases h
    · rename_i hsome
      have htake := Option.some.inj h
      obtain ⟨hdigits, hs⟩ := isDigits_of_takeDigits htake fun hnil =>
        hsome rest (by rw [htake, hnil])
      refine ⟨.inr ⟨hdigits, fun hhead => ?_⟩, hs⟩
      obtain ⟨more, rfl⟩ := List.head?_eq_some_iff.mp hhead
      exact hzero _ hs

lemma readFraction_ok {digits : List Char} (h : readFraction s = some (digits, rest)) :
    ∃ f, FractionText digits f ∧ s = f ++ rest := by
  unfold readFraction at h
  split at h
  · split at h
    · cases h
    · rename_i hsome
      have htake := Option.some.inj h
      obtain ⟨hdigits, rfl⟩ := isDigits_of_takeDigits htake fun hnil =>
        hsome rest (by rw [htake, hnil])
      exact ⟨_, .present hdigits, rfl⟩
  · obtain ⟨rfl, rfl⟩ := Prod.mk.inj (Option.some.inj h)
    exact ⟨[], .absent, rfl⟩

lemma readExponent_ok {exponent : Option (Bool × List Char)}
    (h : readExponent s = some (exponent, rest)) :
    ∃ e, ExponentText exponent e ∧ s = e ++ rest := by
  unfold readExponent at h
  split at h
  · rename_i c after
    split at h
    · rename_i hletter
      split at h
      -- The digits are those behind the sign, if there is one.
      rename_i negative unsigned hsign
      split at h
      · cases h
      · rename_i digits after' hne htake
        obtain ⟨hdigits, rfl⟩ := isDigits_of_takeDigits htake hne
        obtain ⟨rfl, rfl⟩ := Prod.mk.inj (Option.some.inj h)
        split at hsign <;> obtain ⟨rfl, rfl⟩ := Prod.mk.inj hsign
        · exact ⟨_, .positive hletter hdigits, rfl⟩
        · exact ⟨_, .negative hletter hdigits, rfl⟩
        · exact ⟨_, .unsigned hletter hdigits, rfl⟩
    · obtain ⟨rfl, rfl⟩ := Prod.mk.inj (Option.some.inj h)
      exact ⟨[], .absent, rfl⟩
  · obtain ⟨rfl, rfl⟩ := Prod.mk.inj (Option.some.inj h)
    exact ⟨[], .absent, rfl⟩

/-- Digits, fraction and exponent that were taken one after the other are a number without its
sign. -/
lemma magnitudeText_of_read {whole fraction : List Char} {exponent : Option (Bool × List Char)}
    {r₁ r₂ : Source} (negative : Bool) (hwhole : readWhole s = some (whole, r₁))
    (hfraction : readFraction r₁ = some (fraction, r₂))
    (hexponent : readExponent r₂ = some (exponent, rest)) :
    ∃ t, MagnitudeText ⟨negative, whole, fraction, exponent⟩ t ∧ s = t ++ rest := by
  obtain ⟨hdigits, rfl⟩ := readWhole_ok hwhole
  obtain ⟨f, hf, rfl⟩ := readFraction_ok hfraction
  obtain ⟨e, he, rfl⟩ := readExponent_ok hexponent
  exact ⟨_, .intro hdigits hf he, by simp⟩

/-- What was taken for a number is a text of it. -/
lemma readNumber_ok {n : Number} (h : readNumber s = some (n, rest)) :
    ∃ t, NumberText n t ∧ s = t ++ rest := by
  by_cases hminus : ∃ after, s = some '-' :: after
  · obtain ⟨after, rfl⟩ := hminus
    rw [readNumber] at h
    simp only [Option.bind_eq_bind, Option.bind_eq_some_iff, Prod.exists] at h
    obtain ⟨whole, r₁, hwhole, fraction, r₂, hfraction, exponent, r₃, hexponent, h⟩ := h
    obtain ⟨rfl, rfl⟩ := Prod.mk.inj (Option.some.inj h)
    obtain ⟨t, ht, rfl⟩ := magnitudeText_of_read true hwhole hfraction hexponent
    exact ⟨_, .negative rfl ht, rfl⟩
  · rw [readNumber] at h
    · simp only [Option.bind_eq_bind, Option.bind_eq_some_iff, Prod.exists] at h
      obtain ⟨whole, r₁, hwhole, fraction, r₂, hfraction, exponent, r₃, hexponent, h⟩ := h
      obtain ⟨rfl, rfl⟩ := Prod.mk.inj (Option.some.inj h)
      obtain ⟨t, ht, rfl⟩ := magnitudeText_of_read false hwhole hfraction hexponent
      exact ⟨_, .positive rfl ht, rfl⟩
    · exact fun after hs => hminus ⟨after, hs⟩

/-! ## Strings -/

/-- When more is to be said of what was read, the same was left. -/
lemma exists_of_map_eq_some {α β : Type} {g : α → β} {read : Option (α × Source)} {b : β}
    (h : (read.map fun (a, after) => (g a, after)) = some (b, rest)) :
    ∃ a, read = some (a, rest) ∧ g a = b := by
  obtain ⟨⟨a, after⟩, hread, heq⟩ := Option.map_eq_some_iff.mp h
  obtain ⟨hb, rfl⟩ := Prod.mk.inj heq
  exact ⟨a, hread, hb⟩

/-- What was taken for a string is a text of its inside, and then the closing quote. -/
lemma readString_ok {pieces : List Piece} (h : readString s = some (pieces, rest)) :
    ∃ t, CharsText pieces t ∧ s = t ++ some '"' :: rest := by
  fun_induction readString s generalizing pieces rest with
  | case1 | case5 | case6 | case8 | case9 | case10 => cases h
  | case2 after ih =>
    obtain ⟨more, hmore, rfl⟩ := exists_of_map_eq_some h
    obtain ⟨t, ht, rfl⟩ := ih hmore
    exact ⟨_, .broken ht, rfl⟩
  | case3 after =>
    obtain ⟨rfl, rfl⟩ := Prod.mk.inj (Option.some.inj h)
    exact ⟨[], .nil, rfl⟩
  | case4 d₁ d₂ d₃ d₄ after code hcode hquote ih =>
    obtain ⟨more, hmore, rfl⟩ := exists_of_map_eq_some h
    obtain ⟨t, ht, rfl⟩ := ih hmore
    exact ⟨_, .unit hcode ht, rfl⟩
  | case7 letter after hunit c hc hquote ih =>
    obtain ⟨more, hmore, rfl⟩ := exists_of_map_eq_some h
    obtain ⟨t, ht, rfl⟩ := ih hmore
    exact ⟨_, .short hc ht, rfl⟩
  | case11 c after hquote hescape hcontrol ih =>
    obtain ⟨more, hmore, rfl⟩ := exists_of_map_eq_some h
    obtain ⟨t, ht, rfl⟩ := ih hmore
    exact ⟨_, .plain hquote hescape hcontrol ht, rfl⟩

/-! ## Values -/

/-- With so many steps of descent, what is taken is a text of what is read. -/
structure ReadsTexts (fuel : Nat) : Prop where
  value : ∀ {s rest : Source} {value : Json}, readValue fuel s = some (value, rest) →
    ∃ gap t, IsBlanks gap ∧ ValueText value t ∧ s = gap ++ (t ++ rest)
  items : ∀ {s rest : Source} {items : List Json}, readItems fuel s = some (items, rest) →
    ∃ t, ItemsText items t ∧ s = t ++ rest
  members : ∀ {s rest : Source} {members : List (List Piece × Json)},
    readMembers fuel s = some (members, rest) → ∃ t, MembersText members t ∧ s = t ++ rest

namespace ReadsTexts

variable {fuel : Nat} (h : ReadsTexts fuel)
include h

lemma padded {value : Json} {after : Source} (hvalue : readValue fuel s = some (value, after)) :
    ∃ t, PaddedText value t ∧ s = t ++ skipBlanks after := by
  obtain ⟨gap, t, hgap, ht, rfl⟩ := h.value hvalue
  obtain ⟨gap', hgap', hafter⟩ := exists_skipBlanks after
  refine ⟨_, .intro hgap ht hgap', ?_⟩
  rw [List.append_assoc, List.append_assoc, ← hafter]

lemma readItems_succ {items : List Json} (hread : readItems (fuel + 1) s = some (items, rest)) :
    ∃ t, ItemsText items t ∧ s = t ++ rest := by
  rw [readItems] at hread
  split at hread
  · cases hread
  rename_i item after hvalue
  obtain ⟨t, ht, rfl⟩ := h.padded hvalue
  split at hread
  · rename_i c more hafter
    rw [hafter]
    split at hread
    · rename_i hcomma
      subst hcomma
      obtain ⟨items', hmore, rfl⟩ := exists_of_map_eq_some hread
      obtain ⟨t', ht', rfl⟩ := h.items hmore
      exact ⟨_, .cons ht ht', by simp⟩
    · split at hread
      · rename_i hbracket
        subst hbracket
        obtain ⟨rfl, rfl⟩ := Prod.mk.inj (Option.some.inj hread)
        exact ⟨_, .last ht, by simp⟩
      · cases hread
  · cases hread

lemma readMembers_succ {members : List (List Piece × Json)}
    (hread : readMembers (fuel + 1) s = some (members, rest)) :
    ∃ t, MembersText members t ∧ s = t ++ rest := by
  obtain ⟨before, hbefore, hs⟩ := exists_skipBlanks s
  rw [readMembers] at hread
  split at hread
  · rename_i inside hquote
    rw [hs, hquote]
    split at hread
    · cases hread
    rename_i key behind hkey
    obtain ⟨k, hk, rfl⟩ := readString_ok hkey
    obtain ⟨between, hbetween, hbehind⟩ := exists_skipBlanks behind
    split at hread
    · rename_i s' hcolon
      rw [hbehind, hcolon]
      split at hread
      · cases hread
      rename_i value after hvalue
      obtain ⟨t, ht, rfl⟩ := h.padded hvalue
      split at hread
      · rename_i c more hafter
        rw [hafter]
        split at hread
        · rename_i hcomma
          subst hcomma
          obtain ⟨members', hmore, rfl⟩ := exists_of_map_eq_some hread
          obtain ⟨t', ht', rfl⟩ := h.members hmore
          exact ⟨_, .cons hbefore hk hbetween ht ht', by simp⟩
        · split at hread
          · rename_i hbrace
            subst hbrace
            obtain ⟨rfl, rfl⟩ := Prod.mk.inj (Option.some.inj hread)
            exact ⟨_, .last hbefore hk hbetween ht, by simp⟩
          · cases hread
      · cases hread
    · cases hread
  · cases hread

/-- After an opening bracket an array was read. -/
lemma valueText_of_bracket {value : Json} {after : Source}
    (hhead : skipBlanks s = some '[' :: after)
    (hread : readValue (fuel + 1) s = some (value, rest)) :
    ∃ t, ValueText value t ∧ some '[' :: after = t ++ rest := by
  obtain ⟨inner, hinner, hafter⟩ := exists_skipBlanks after
  rw [readValue, hhead] at hread
  dsimp only at hread
  rw [if_neg (by decide), if_pos rfl] at hread
  split at hread
  · rename_i behind hclose
    obtain ⟨rfl, rfl⟩ := Prod.mk.inj (Option.some.inj hread)
    exact ⟨_, .noItems hinner, by rw [hafter, hclose]; simp⟩
  · obtain ⟨items, hitems, rfl⟩ := exists_of_map_eq_some hread
    rw [readItems_skipBlanks] at hitems
    obtain ⟨t, ht, rfl⟩ := h.items hitems
    exact ⟨_, .array ht, rfl⟩

/-- After an opening brace an object was read. -/
lemma valueText_of_brace {value : Json} {after : Source}
    (hhead : skipBlanks s = some '\x7b' :: after)
    (hread : readValue (fuel + 1) s = some (value, rest)) :
    ∃ t, ValueText value t ∧ some '\x7b' :: after = t ++ rest := by
  obtain ⟨inner, hinner, hafter⟩ := exists_skipBlanks after
  rw [readValue, hhead] at hread
  dsimp only at hread
  rw [if_neg (by decide), if_neg (by decide), if_pos rfl] at hread
  split at hread
  · rename_i behind hclose
    obtain ⟨rfl, rfl⟩ := Prod.mk.inj (Option.some.inj hread)
    exact ⟨_, .noMembers hinner, by rw [hafter, hclose]; simp⟩
  · obtain ⟨members, hmembers, rfl⟩ := exists_of_map_eq_some hread
    rw [readMembers_skipBlanks] at hmembers
    obtain ⟨t, ht, rfl⟩ := h.members hmembers
    exact ⟨_, .object ht, rfl⟩

lemma readValue_succ {value : Json} (hread : readValue (fuel + 1) s = some (value, rest)) :
    ∃ gap t, IsBlanks gap ∧ ValueText value t ∧ s = gap ++ (t ++ rest) := by
  obtain ⟨gap, hgap, hs⟩ := exists_skipBlanks s
  suffices htext : ∃ t, ValueText value t ∧ skipBlanks s = t ++ rest by
    obtain ⟨t, ht, hhead⟩ := htext
    exact ⟨gap, t, hgap, ht, by rw [← hhead]; exact hs⟩
  -- The first character decides which kind of value was read.
  have hread' := hread
  rw [readValue] at hread'
  split at hread'
  swap
  · cases hread'
  rename_i c after hhead
  rw [hhead]
  split at hread'
  · rename_i hquote
    subst hquote
    obtain ⟨pieces, hstring, rfl⟩ := exists_of_map_eq_some hread'
    obtain ⟨t, ht, rfl⟩ := readString_ok hstring
    exact ⟨_, .string ht, by simp⟩
  split at hread'
  · rename_i hbracket
    subst hbracket
    exact h.valueText_of_bracket hhead hread
  split at hread'
  · rename_i hbrace
    subst hbrace
    exact h.valueText_of_brace hhead hread
  split at hread'
  · rename_i hletter
    subst hletter
    obtain ⟨rfl, rfl⟩ := readWord_ok hread'
    exact ⟨_, .yes, rfl⟩
  split at hread'
  · rename_i hletter
    subst hletter
    obtain ⟨rfl, rfl⟩ := readWord_ok hread'
    exact ⟨_, .no, rfl⟩
  split at hread'
  · rename_i hletter
    subst hletter
    obtain ⟨rfl, rfl⟩ := readWord_ok hread'
    exact ⟨_, .null, rfl⟩
  · obtain ⟨n, hnumber, rfl⟩ := exists_of_map_eq_some hread'
    obtain ⟨t, ht, hs⟩ := readNumber_ok hnumber
    exact ⟨t, .number ht, hs⟩

end ReadsTexts

/-- However deep the reader may descend, what it takes is a text of what it reads. -/
theorem readsTexts (fuel : Nat) : ReadsTexts fuel := by
  induction fuel with
  | zero =>
    exact ⟨fun h => by simp [readValue] at h, fun h => by simp [readItems] at h,
      fun h => by simp [readMembers] at h⟩
  | succ fuel ih => exact ⟨ih.readValue_succ, ih.readItems_succ, ih.readMembers_succ⟩

/-- The texts that are read as a value are the texts of that value with white space around them. -/
theorem parse?_eq_some_iff {value : Json} : parse? s = some value ↔ PaddedText value s := by
  refine ⟨fun h => ?_, parse?_of_text⟩
  rw [parse?] at h
  split at h
  · rename_i value' after hvalue
    split at h
    · rename_i hend
      obtain rfl := Option.some.inj h
      obtain ⟨t, ht, hs⟩ := (readsTexts _).padded hvalue
      rw [hend, List.append_nil] at hs
      rwa [hs]
    · cases h
  · cases h

/-! ## What stands in a text -/

lemma PaddedText.exists_text {value : Json} (h : PaddedText value s) : ∃ t, ValueText value t := by
  obtain ⟨-, h, -⟩ := h
  exact ⟨_, h⟩

/-- The text of an array holds a text of each of its items. -/
lemma ItemsText.exists_text {items : List Json} {s : Source} (h : ItemsText items s) :
    ∀ item ∈ items, ∃ t, ValueText item t := by
  match h with
  | .last (.intro _ hitem _) => simpa using ⟨_, hitem⟩
  | .cons (.intro _ hitem _) hmore =>
    exact List.forall_mem_cons.mpr ⟨⟨_, hitem⟩, hmore.exists_text⟩

/-- The text of an object holds a text of the value of each of its members. -/
lemma MembersText.exists_text {members : List (List Piece × Json)} {s : Source}
    (h : MembersText members s) :
    ∀ member ∈ members, ∃ t, ValueText member.2 t := by
  match h with
  | .last _ _ _ (.intro _ hvalue _) => simpa using ⟨_, hvalue⟩
  | .cons _ _ _ (.intro _ hvalue _) hmore =>
    exact List.forall_mem_cons.mpr ⟨⟨_, hvalue⟩, hmore.exists_text⟩

lemma ValueText.exists_text_items {items : List Json} (h : ValueText (.array items) s) :
    ∀ item ∈ items, ∃ t, ValueText item t := by
  cases h with
  | noItems => simp
  | array h => exact h.exists_text

lemma ValueText.exists_text_members {members : List (List Piece × Json)}
    (h : ValueText (.object members) s) : ∀ member ∈ members, ∃ t, ValueText member.2 t := by
  cases h with
  | noMembers => simp
  | object h => exact h.exists_text

/-- The text of members ends with the closing brace. -/
lemma MembersText.closingBrace_mem {members : List (List Piece × Json)} {s : Source}
    (h : MembersText members s) : some '\x7d' ∈ s := by
  match h with
  | .last .. => simp
  | .cons _ _ _ _ hmore => simp [hmore.closingBrace_mem]

/-- The text of items ends with the closing bracket. -/
lemma ItemsText.closingBracket_mem {items : List Json} {s : Source} (h : ItemsText items s) :
    some ']' ∈ s := by
  match h with
  | .last .. => simp
  | .cons _ hmore => simp [hmore.closingBracket_mem]

/-- The text of an object begins with a brace and ends with one. -/
lemma PaddedText.braces_mem {members : List (List Piece × Json)}
    (h : PaddedText (.object members) s) : some '\x7b' ∈ s ∧ some '\x7d' ∈ s := by
  obtain ⟨-, h, -⟩ := h
  cases h with
  | noMembers => simp
  | object h => simp [h.closingBrace_mem]

/-- The text of an array ends with a bracket. -/
lemma PaddedText.closingBracket_mem {items : List Json} (h : PaddedText (.array items) s) :
    some ']' ∈ s := by
  obtain ⟨-, h, -⟩ := h
  cases h with
  | noItems => simp
  | array h => simp [h.closingBracket_mem]

/-- The digits in front of the point of a number that was written. -/
lemma NumberText.isWhole {n : Number} (h : NumberText n s) : IsWhole n.whole := by
  cases h with
  | positive _ h => obtain ⟨hwhole, -, -⟩ := h; exact hwhole
  | negative _ h => obtain ⟨hwhole, -, -⟩ := h; exact hwhole

/-- They are those that their number is written with. -/
lemma IsWhole.decimal_eq {digits : List Char} (h : IsWhole digits) :
    Text.decimal (Text.ofDecimal digits) = digits := by
  rcases h with rfl | ⟨hdigits, hzero⟩
  · rfl
  · exact Text.decimal_ofDecimal hdigits hzero

/-- An integer is written in one way only. -/
lemma eq_ofInt_of_text {value : Json} {n : Int} (h : ValueText value s)
    (hint : value.int? = some n) : value = .ofInt n := by
  cases h with
  | @number number _ htext =>
    have hwhole := htext.isWhole.decimal_eq
    obtain ⟨negative, whole, fraction, exponent⟩ := number
    simp only [int?, Number.toInt?] at hint hwhole
    split at hint
    swap
    · cases hint
    rename_i hplain
    obtain ⟨rfl, rfl⟩ := hplain
    rw [ofInt, Number.ofInt]
    split at hint
    · rename_i hnegative
      subst hnegative
      split at hint
      · cases hint
      · rename_i hzero
        obtain rfl := Option.some.inj hint
        simp [hwhole, Nat.pos_iff_ne_zero, hzero]
    · rename_i hnegative
      obtain rfl := Option.some.inj hint
      simp [hwhole, hnegative]
  | _ => cases hint

end Json

end CommitStore
