import CommitStore.Text.Digits
import CommitStore.Text.Source

/-!
# Numbers in JSON

A number is kept as it is written: sign, digits, fraction and exponent.  Two questions are asked of
it: which integer it denotes, and whether it is finite in binary64.  Only a number without fraction
and exponent denotes an integer, and `-0` denotes none.

There are two ways into binary64.  The exact one takes the nearest binary64 number
(`Number.isFinite`).  The quick one gathers as many digits as 64 bits hold and multiplies once by a
power of ten (`Number.scalesFinite`), and so may overflow a little earlier or later.
-/

namespace CommitStore

namespace Json

/-- A number as it is written. -/
structure Number where
  /-- Whether a minus sign stands in front. -/
  negative : Bool
  /-- The digits before the point. -/
  whole : List Char
  /-- The digits after the point; empty when there is no point. -/
  fraction : List Char
  /-- The exponent, if there is one: whether it is negative, and its digits. -/
  exponent : Option (Bool × List Char)
  deriving DecidableEq

/-- The leading decimal digits of a text, and the rest. -/
def takeDigits : Source → List Char × Source
  | some c :: rest =>
    if c.isDigit then
      let (digits, after) := takeDigits rest
      (c :: digits, after)
    else ([], some c :: rest)
  | none :: rest => ([], none :: rest)
  | [] => ([], [])

/-- The digits before the point: a single zero, or digits that do not begin with zero. -/
def readWhole (s : Source) : Option (List Char × Source) :=
  match s with
  | some '0' :: rest => some (['0'], rest)
  | s =>
    match takeDigits s with
    | ([], _) => none
    | taken => some taken

/-- The digits after a point, if a point is next; at least one has to follow it. -/
def readFraction (s : Source) : Option (List Char × Source) :=
  match s with
  | some '.' :: rest =>
    match takeDigits rest with
    | ([], _) => none
    | taken => some taken
  | s => some ([], s)

/-- An exponent, if the letter for it is next; at least one digit has to follow letter and sign. -/
def readExponent (s : Source) : Option (Option (Bool × List Char) × Source) :=
  match s with
  | some c :: rest =>
    if c = 'e' ∨ c = 'E' then
      let (negative, rest) :=
        match rest with
        | some '+' :: rest => (false, rest)
        | some '-' :: rest => (true, rest)
        | rest => (false, rest)
      match takeDigits rest with
      | ([], _) => none
      | (digits, after) => some (some (negative, digits), after)
    else some (none, s)
  | s => some (none, s)

/-- Read a number: sign, digits, fraction and exponent, in this order. -/
def readNumber (s : Source) : Option (Number × Source) := do
  let (negative, rest) :=
    match s with
    | some '-' :: rest => (true, rest)
    | rest => (false, rest)
  let (whole, rest) ← readWhole rest
  let (fraction, rest) ← readFraction rest
  let (exponent, rest) ← readExponent rest
  return (⟨negative, whole, fraction, exponent⟩, rest)

namespace Number

/-- The integer that a number denotes.  A fraction or an exponent, and a minus sign in front of
zero, make it denote none. -/
def toInt? (n : Number) : Option Int :=
  if n.fraction = [] ∧ n.exponent = none then
    let magnitude := Text.ofDecimal n.whole
    if n.negative then (if magnitude = 0 then none else some (-(magnitude : Int)))
    else some magnitude
  else none

/-- The number that denotes a given integer. -/
def ofInt (n : Int) : Number := ⟨n < 0, Text.decimal n.natAbs, [], none⟩

/-- The number that denotes a given natural number. -/
def ofNat (n : Nat) : Number := ⟨false, Text.decimal n, [], none⟩

/-- A number with its first 53 binary digits kept, as the nearest binary64 number has it; a half
goes to the even neighbour. -/
def roundBinary64 (n : Nat) : Nat :=
  let unit := 1 <<< (n.log2 + 1 - 53)
  let whole := n / unit
  let rest := n % unit
  if unit < 2 * rest ∨ (2 * rest = unit ∧ whole % 2 = 1) then (whole + 1) * unit else whole * unit

/-- The least size that rounds to no finite binary64 number. -/
def overflowBound : Nat := 1 <<< 1024 - 1 <<< 970

/-- Whether the size `mantissa * 10 ^ (exponent - scale)` rounds to a finite binary64 number.  The
exponent is compared with the number of digits first, so no huge power is computed. -/
def isFiniteSize (mantissa exponent scale : Nat) : Bool :=
  if mantissa = 0 then true
  else
    let digits := (Text.decimal mantissa).length
    if exponent + digits > scale + 400 then false
    else if exponent + digits < scale then true
    else mantissa * Nat.pow 10 exponent < overflowBound * Nat.pow 10 scale

/-- Whether the number has a finite binary64 neighbour. -/
def isFinite (n : Number) : Bool :=
  let mantissa := Text.ofDecimal (n.whole ++ n.fraction)
  match n.exponent with
  | none => isFiniteSize mantissa 0 n.fraction.length
  | some (false, digits) => isFiniteSize mantissa (Text.ofDecimal digits) n.fraction.length
  | some (true, digits) => isFiniteSize mantissa 0 (n.fraction.length + Text.ofDecimal digits)

/-- Append digits to a mantissa as long as it fits into 64 bits: the mantissa and the digits from
the first one that finds no room. -/
def gather (mantissa : Nat) : List Char → Nat × List Char
  | [] => (mantissa, [])
  | digit :: rest =>
    let longer := mantissa * 10 + Text.ofDecimal [digit]
    if longer < UInt64.size then gather longer rest else (mantissa, digit :: rest)

/-- The mantissa and the power of ten by which a number is read quickly.  Digits before the point
that find no room in the mantissa still count in the power; those behind it are dropped. -/
def scaled (n : Number) : Nat × Int :=
  let (leading, beyond) := gather 0 n.whole
  let (mantissa, dropped) := gather leading n.fraction
  let shift : Int := match n.exponent with
    | none => 0
    | some (false, digits) => Text.ofDecimal digits
    | some (true, digits) => -(Text.ofDecimal digits : Int)
  (mantissa, beyond.length - (n.fraction.length - dropped.length : Nat) + shift)

/-- The largest power of ten by which a mantissa is multiplied at once. -/
def largestPower : Nat := 308

/-- Whether the number stays finite when it is read quickly: the product of the binary64 numbers
that are nearest to mantissa and power must not overflow. -/
def scalesFinite (n : Number) : Bool :=
  let (mantissa, power) := n.scaled
  mantissa = 0 || power ≤ 0
    || (power ≤ largestPower
      && roundBinary64 mantissa * roundBinary64 (Nat.pow 10 power.toNat) < overflowBound)

/-- The written form of a number. -/
def write (n : Number) : List Char :=
  (if n.negative then ['-'] else []) ++ n.whole
    ++ (if n.fraction = [] then [] else '.' :: n.fraction)
    ++ (match n.exponent with
      | none => []
      | some (negative, digits) => 'e' :: (if negative then ['-'] else []) ++ digits)

end Number

end Json

end CommitStore
