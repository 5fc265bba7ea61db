import CommitStore.Json.Number
import CommitStore.Time.Calendar
import CommitStore.Toml.Text

/-!
# Numbers, truth values and dates in TOML

A configuration has no use for their values, so they are only checked and passed over.  The readers
give the text behind what they recognise.  Where a beginning settles what has to follow, `Reading`
tells a text that is something else from one that is wrong.
-/

namespace CommitStore

namespace Toml

/-- The outcome of looking for one kind of scalar. -/
inductive Reading
  /-- It is there, and this follows it. -/
  | found (rest : List Char)
  /-- It is not there; it may be something else. -/
  | other
  /-- It began and did not go on as it has to. -/
  | wrong

/-- What was found, or else the outcome of the next attempt. -/
def Reading.orElse (first : Reading) (next : Unit → Reading) : Reading :=
  match first with
  | .other => next ()
  | outcome => outcome

/-- A reader that may not fail any more. -/
def Reading.ofOption : Option (List Char) → Reading
  | some rest => .found rest
  | none => .wrong

/-! ## Numbers -/

/-- Digits of a base, with single underscores between them; the underscores are dropped. -/
def readDigits (isDigit : Char → Bool) : List Char → Option (List Char × List Char)
  | c :: '_' :: rest =>
    if isDigit c then (readDigits isDigit rest).map fun (digits, rest) => (c :: digits, rest)
    else none
  | c :: rest =>
    if isDigit c then
      match rest with
      | d :: _ =>
        if isDigit d then (readDigits isDigit rest).map fun (digits, rest) => (c :: digits, rest)
        else some ([c], rest)
      | [] => some ([c], [])
    else none
  | [] => none

/-- A sign, if one is next: whether it is a minus. -/
def readSign : List Char → Bool × List Char
  | '-' :: rest => (true, rest)
  | '+' :: rest => (false, rest)
  | s => (false, s)

/-- The digits of a decimal integer: a single zero, or digits that do not begin with zero. -/
def readWhole : List Char → Option (List Char × List Char)
  | '0' :: rest => some (['0'], rest)
  | s => readDigits Char.isDigit s

/-- The digits behind a point. -/
def readPointDigits : List Char → Option (List Char × List Char)
  | '.' :: rest => readDigits Char.isDigit rest
  | s => some ([], s)

/-- An exponent. -/
def readExponent : List Char → Option (Option (Bool × List Char) × List Char)
  | c :: rest =>
    if c = 'e' ∨ c = 'E' then
      let (negative, rest) := readSign rest
      (readDigits Char.isDigit rest).map fun (digits, rest) => (some (negative, digits), rest)
    else some (none, c :: rest)
  | [] => some (none, [])

/-- A floating-point number with a point or an exponent.  Only a positive number can be too
large. -/
def readFloat (s : List Char) : Reading :=
  let (negative, rest) := readSign s
  match readWhole rest with
  | none => .other
  | some (whole, rest) =>
    match rest with
    | [] => .other
    | c :: _ =>
      if c = '.' ∨ c = 'e' ∨ c = 'E' then
        .ofOption do
          let (fraction, rest) ← readPointDigits rest
          let (exponent, rest) ← readExponent rest
          let number : Json.Number := ⟨negative, whole, fraction, exponent⟩
          if negative || number.isFinite then some rest else none
      else .other

/-- An infinity or a value that is no number. -/
def readSpecialFloat (s : List Char) : Reading :=
  match (readSign s).2 with
  | 'i' :: 'n' :: 'f' :: rest => .found rest
  | 'n' :: 'a' :: 'n' :: rest => .found rest
  | _ => .other

/-- Whether a number fits into 64 bits with a sign. -/
def fitsInteger (negative : Bool) (magnitude : Nat) : Bool :=
  if negative then magnitude ≤ 1 <<< 63 else magnitude < 1 <<< 63

/-- A number of a base that a letter after a zero names. -/
def readBased (base : Nat) (isDigit : Char → Bool) (s : List Char) : Reading :=
  .ofOption do
    let (digits, rest) ← readDigits isDigit s
    let magnitude := digits.foldl (fun n c => n * base + (Text.hexValue? c).getD 0) 0
    if fitsInteger false magnitude then some rest else none

/-- An integer in any of the four bases. -/
def readInteger (s : List Char) : Reading :=
  match s with
  | '0' :: 'x' :: rest => readBased 16 (fun c => (Text.hexValue? c).isSome) rest
  | '0' :: 'o' :: rest => readBased 8 (fun c => '0' ≤ c && c ≤ '7') rest
  | '0' :: 'b' :: rest => readBased 2 (fun c => c = '0' || c = '1') rest
  | s =>
    let (negative, rest) := readSign s
    .ofOption do
      let (digits, rest) ← readWhole rest
      if fitsInteger negative (Text.ofDecimal digits) then some rest else none

/-! ## Dates and times -/

/-- A number of exactly `width` digits. -/
def readFixed (width : Nat) (s : List Char) : Option (Nat × List Char) :=
  let digits := s.take width
  if digits.length = width ∧ digits.all Char.isDigit then
    some (Text.ofDecimal digits, s.drop width)
  else none

/-- A number of two digits between two bounds. -/
def readTwo (low high : Nat) (s : List Char) : Option (List Char) :=
  match readFixed 2 s with
  | some (n, rest) => if low ≤ n ∧ n ≤ high then some rest else none
  | none => none

/-- Read past one character. -/
def readChar (c : Char) : List Char → Option (List Char)
  | d :: rest => if d = c then some rest else none
  | [] => none

/-- A fraction of a second, if there is one. -/
def skipFraction : List Char → List Char
  | '.' :: rest =>
    if (rest.takeWhile Char.isDigit) = [] then '.' :: rest else rest.dropWhile Char.isDigit
  | s => s

/-- A time of day.  Hours with a colon settle that it is one. -/
def readTime (s : List Char) : Reading :=
  match (readTwo 0 23 s).bind (readChar ':') with
  | none => .other
  | some rest =>
    .ofOption do
      let rest ← readTwo 0 59 rest
      let rest ← readChar ':' rest
      let rest ← readTwo 0 60 rest
      return skipFraction rest

/-- An offset from UTC, if there is one. -/
def readOffset : List Char → Reading
  | [] => .found []
  | c :: rest =>
    if c = 'Z' ∨ c = 'z' then .found rest
    else if c = '+' ∨ c = '-' then
      .ofOption do
        let rest ← readTwo 0 23 rest
        let rest ← readChar ':' rest
        readTwo 0 59 rest
    else .found (c :: rest)

/-- What may follow a date: a time of day with an offset. -/
def readTimeAfterDate (s : List Char) : Reading :=
  match s with
  | c :: rest =>
    if c = 'T' ∨ c = 't' ∨ c = ' ' then
      match readTime rest with
      | .found rest => readOffset rest
      | .other => .found s
      | .wrong => .wrong
    else .found s
  | [] => .found []

/-- A date, alone or with a time.  Four digits with a hyphen settle that it is one. -/
def readDate (s : List Char) : Reading :=
  match readFixed 4 s with
  | some (year, '-' :: rest) =>
    let day : Option (List Char) := do
      let (month, rest) ← readFixed 2 rest
      let rest ← readChar '-' rest
      let (day, rest) ← readFixed 2 rest
      if (⟨year, month, day⟩ : Date).IsValid then some rest else none
    match day with
    | some rest => readTimeAfterDate rest
    | none => .wrong
  | _ => .other

/-! ## All of them -/

/-- A number, a date or a time. -/
def readNumberOrDate (s : List Char) : Reading :=
  (readDate s).orElse fun _ =>
    (readTime s).orElse fun _ =>
      (readFloat s).orElse fun _ =>
        (readSpecialFloat s).orElse fun _ => readInteger s

/-- Any scalar. -/
def readScalar (s : List Char) : Option (List Char) :=
  match s with
  | 't' :: 'r' :: 'u' :: 'e' :: rest => some rest
  | 'f' :: 'a' :: 'l' :: 's' :: 'e' :: rest => some rest
  | s =>
    match readNumberOrDate s with
    | .found rest => some rest
    | _ => none

end Toml

end CommitStore
