import CommitStore.Text.Blank
import CommitStore.Text.Digits
import CommitStore.Time.Instant

/-!
# Times in the format of RFC 3339

Instants are written in UTC, with the fewest of 0, 3, 6 or 9 fraction digits that lose nothing.
Years outside 0 to 9999 carry a sign.  The reader takes more: an offset from UTC, which it applies;
a blank between date and time; white space in front of a number, of the mark behind it or of the
offset; fewer digits than the format asks for; and fraction digits beyond the ninth, which it drops.
-/

namespace CommitStore

namespace Instant

/-! ## Writing -/

/-- A year with at least four digits, and with a sign outside 0 to 9999. -/
def writeYear (year : Int) : List Char :=
  if year < 0 then '-' :: Text.zeroPadded 4 year.natAbs
  else if 9999 < year then '+' :: Text.zeroPadded 4 year.natAbs
  else Text.zeroPadded 4 year.natAbs

/-- A date as year, month and day with hyphens between them. -/
def writeDate (d : Date) : List Char :=
  writeYear d.year ++ '-' :: Text.zeroPadded 2 d.month ++ '-' :: Text.zeroPadded 2 d.day

/-- A time of day as hours, minutes and seconds with colons between them. -/
def writeClock (t : DateTime) : List Char :=
  Text.zeroPadded 2 t.hour ++ ':' :: Text.zeroPadded 2 t.minute
    ++ ':' :: Text.zeroPadded 2 t.second

/-- The fraction of a second with 0, 3, 6 or 9 digits. -/
def writeFraction (nanos : Nat) : List Char :=
  if nanos = 0 then []
  else if nanos % 1000000 = 0 then '.' :: Text.zeroPadded 3 (nanos / 1000000)
  else if nanos % 1000 = 0 then '.' :: Text.zeroPadded 6 (nanos / 1000)
  else '.' :: Text.zeroPadded 9 nanos

/-- The time in UTC in the format of RFC 3339. -/
def write (t : Instant) : List Char :=
  let shown := t.dateTime
  writeDate shown.date ++ 'T' :: writeClock shown ++ writeFraction shown.nanos ++ ['Z']

/-- The date and the time of day to the second, with a blank between them. -/
def writeColumns (t : Instant) : List Char :=
  writeDate t.dateTime.date ++ ' ' :: writeClock t.dateTime

/-! ## Reading -/

/-- Read a number of at least one and at most `width` digits. -/
def readNumber (width : Nat) (s : List Char) : Option (Nat × List Char) :=
  let digits := (s.take width).takeWhile Char.isDigit
  if digits = [] then none else some (Text.ofDecimal digits, s.drop digits.length)

/-- Read a year: up to four digits, or a sign and any number of digits. -/
def readYear (s : List Char) : Option (Int × List Char) :=
  match Text.trimStart s with
  | '-' :: rest => (readNumber rest.length rest).map fun (n, after) => (-(n : Int), after)
  | '+' :: rest => (readNumber rest.length rest).map fun (n, after) => ((n : Int), after)
  | rest => (readNumber 4 rest).map fun (n, after) => ((n : Int), after)

/-- Read a number of one or two digits after any white space. -/
def readPair (s : List Char) : Option (Nat × List Char) := readNumber 2 (Text.trimStart s)

/-- Read past a given character after any white space. -/
def readMark (c : Char) (s : List Char) : Option (List Char) :=
  match Text.trimStart s with
  | d :: rest => if d = c then some rest else none
  | [] => none

/-- Read a fraction of a second in nanoseconds, if a point is next.  Digits beyond the ninth are
dropped. -/
def readFraction : List Char → Option (Nat × List Char)
  | '.' :: rest =>
    (readNumber 9 rest).map fun (n, after) =>
      (n * Nat.pow 10 (9 - (rest.length - after.length)), after.dropWhile Char.isDigit)
  | s => some (0, s)

/-- Two decimal digits, read as the number they denote. -/
def readTwoDigits : List Char → Option (Nat × List Char)
  | a :: b :: rest =>
    if a.isDigit && b.isDigit then some (Text.ofDecimal [a, b], rest) else none
  | _ => none

/-- Read an offset from UTC in seconds: `Z`, or a sign with hours and minutes, between which colons
and white space may stand.  The minus sign of typography counts as a minus. -/
def readOffset (s : List Char) : Option (Int × List Char) :=
  match s with
  | [] => none
  | c :: rest =>
    if c = 'Z' ∨ c = 'z' then some (0, rest)
    else if c = '+' ∨ c = '-' ∨ c = '\u2212' then do
      let (hours, rest) ← readTwoDigits rest
      let (minutes, rest) ← readTwoDigits (rest.dropWhile fun c => c = ':' || Text.isBlank c)
      if minutes ≤ 59 then
        let seconds : Int := (hours * 3600 + minutes * 60 : Nat)
        some (if c = '+' then seconds else -seconds, rest)
      else none
    else none

/-- Read the end of a time: `UTC` in either case, or an offset. -/
def readZone (s : List Char) : Option (Int × List Char) :=
  let s := Text.trimStart s
  if (s.take 3).map Char.toUpper = ['U', 'T', 'C'] then some (0, s.drop 3) else readOffset s

/-- The instant that a text denotes: date, time of day and offset, with nothing but white space
behind them. -/
def read? (s : List Char) : Option Instant := do
  let (year, s) ← readYear s
  let s ← readMark '-' s
  let (month, s) ← readPair s
  let s ← readMark '-' s
  let (day, s) ← readPair s
  let s ← match s with
    | c :: rest => if c = 'T' ∨ c = 't' ∨ c = ' ' then some rest else none
    | [] => none
  let (hour, s) ← readPair s
  let s ← readMark ':' s
  let (minute, s) ← readPair s
  let s ← readMark ':' s
  let (second, s) ← readPair s
  let (nanos, s) ← readFraction s
  let (offset, s) ← readZone s
  if Text.trimStart s = [] ∧ offset.natAbs < 86400 then
    ofDateTime? ⟨⟨year, month, day⟩, hour, minute, second, nanos⟩ offset
  else none

end Instant

end CommitStore
