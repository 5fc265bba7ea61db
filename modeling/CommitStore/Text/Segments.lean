/-!
# Segments of a text

A text is cut at a separating character into its segments, and segments are joined with the
separator between them.  The two undo each other: `joinWith_splitAt` for every text, and
`splitAt_joinWith` for every non-empty list of segments that hold no separator.
-/

namespace CommitStore

namespace Text

/-- Cut a text at every occurrence of `sep`; a text without `sep` is its own single segment. -/
def splitAt (sep : Char) : List Char → List (List Char)
  | [] => [[]]
  | c :: rest =>
    if c = sep then [] :: splitAt sep rest
    else
      match splitAt sep rest with
      | [] => [[c]]
      | word :: words => (c :: word) :: words

/-- Write segments one after the other with `sep` between neighbours. -/
def joinWith (sep : Char) : List (List Char) → List Char
  | [] => []
  | [word] => word
  | word :: next :: words => word ++ sep :: joinWith sep (next :: words)

/-! ## Splitting and joining undo each other -/

theorem splitAt_ne_nil (sep : Char) (text : List Char) : splitAt sep text ≠ [] := by
  cases text with
  | nil => simp [splitAt]
  | cons c rest =>
    by_cases h : c = sep
    · simp [splitAt, h]
    · simp only [splitAt, h, if_false]
      split <;> simp

theorem joinWith_cons_of_ne_nil (sep : Char) (word : List Char) {words : List (List Char)}
    (h : words ≠ []) : joinWith sep (word :: words) = word ++ sep :: joinWith sep words := by
  cases words with
  | nil => exact absurd rfl h
  | cons next words => rfl

theorem joinWith_splitAt (sep : Char) (text : List Char) :
    joinWith sep (splitAt sep text) = text := by
  induction text with
  | nil => rfl
  | cons c rest ih =>
    by_cases h : c = sep
    · subst h
      simp [splitAt, joinWith_cons_of_ne_nil _ _ (splitAt_ne_nil c rest), ih]
    · cases hs : splitAt sep rest with
      | nil => exact absurd hs (splitAt_ne_nil sep rest)
      | cons word words =>
        rw [hs] at ih
        cases words with
        | nil => simpa [splitAt, h, hs, joinWith] using ih
        | cons next words =>
          rw [joinWith_cons_of_ne_nil _ _ (by simp)] at ih
          simp [splitAt, h, hs, joinWith_cons_of_ne_nil, ih]

theorem not_mem_of_mem_splitAt {sep : Char} {text word : List Char}
    (h : word ∈ splitAt sep text) : sep ∉ word := by
  induction text generalizing word with
  | nil => simp_all [splitAt]
  | cons c rest ih =>
    by_cases hc : c = sep
    · simp only [splitAt, hc, if_true, List.mem_cons] at h
      rcases h with rfl | h
      · simp
      · exact ih h
    · cases hs : splitAt sep rest with
      | nil => exact absurd hs (splitAt_ne_nil sep rest)
      | cons first words =>
        simp only [splitAt, hc, if_false, hs, List.mem_cons] at h
        rcases h with rfl | h
        · have := @ih first (by simp [hs])
          simp [this, Ne.symm hc]
        · exact ih (by simp [hs, h])

/-- Joining without the separator inside a segment loses nothing. -/
theorem splitAt_joinWith {sep : Char} {words : List (List Char)} (hne : words ≠ [])
    (h : ∀ word ∈ words, sep ∉ word) : splitAt sep (joinWith sep words) = words := by
  have single : ∀ word : List Char, sep ∉ word → splitAt sep word = [word] := by
    intro word
    induction word with
    | nil => intro _; rfl
    | cons c rest ih =>
      intro hw
      simp only [List.mem_cons, not_or] at hw
      simp [splitAt, Ne.symm hw.1, ih hw.2]
  have before : ∀ (word : List Char) (rest : List Char), sep ∉ word →
      splitAt sep (word ++ sep :: rest) = word :: splitAt sep rest := by
    intro word rest
    induction word with
    | nil => intro _; simp [splitAt]
    | cons c tail ih =>
      intro hw
      simp only [List.mem_cons, not_or] at hw
      simp [splitAt, Ne.symm hw.1, ih hw.2]
  induction words with
  | nil => exact absurd rfl hne
  | cons word words ih =>
    cases words with
    | nil => exact single word (h word (by simp))
    | cons next words =>
      rw [joinWith_cons_of_ne_nil _ _ (by simp), before _ _ (h word (by simp)),
        ih (by simp) (fun w hw => h w (by simp [hw]))]

end Text

end CommitStore
