import CommitStore.Time.Calendar

/-!
# Instants

An instant is a time in UTC with a precision of nanoseconds, in one of the years from -262143 to
262142.  It is counted in seconds from the start of 1970.  The last second of any minute may be
followed by a leap second, which is written as nanoseconds from one thousand million on.
-/

namespace CommitStore

/-- The seconds and nanoseconds that make an instant. -/
def IsInstant (seconds : Int) (nanos : Nat) : Prop :=
  -8334601228800 ≤ seconds ∧ seconds ≤ 8210266876799 ∧
    (nanos < 1000000000 ∨ nanos < 2000000000 ∧ seconds % 60 = 59)

instance (seconds : Int) (nanos : Nat) : Decidable (IsInstant seconds nanos) := by
  unfold IsInstant; infer_instance

/-- A point in time. -/
@[ext]
structure Instant where
  /-- Seconds since the start of 1970. -/
  seconds : Int
  /-- Nanoseconds since that second; from one thousand million on, of the leap second after it. -/
  nanos : Nat
  isInstant : IsInstant seconds nanos
  deriving DecidableEq

/-- A calendar date with a time of day.  The second is 60 in a leap second. -/
structure DateTime where
  date : Date
  hour : Nat
  minute : Nat
  second : Nat
  nanos : Nat
  deriving DecidableEq

namespace DateTime

/-- The dates and times that exist. -/
def IsValid (t : DateTime) : Prop :=
  t.date.IsValid ∧ t.hour ≤ 23 ∧ t.minute ≤ 59 ∧ t.second ≤ 60 ∧ t.nanos < 1000000000

instance (t : DateTime) : Decidable t.IsValid := by unfold IsValid; infer_instance

/-- The seconds from the start of 1970 to a date and time; a leap second counts as the second
before it. -/
def seconds (t : DateTime) : Int :=
  (t.date.dayNumber - Date.epochDay) * 86400 +
    (t.hour * 3600 + t.minute * 60 + min t.second 59 : Nat)

/-- The nanoseconds since that second. -/
def nanosOfSecond (t : DateTime) : Nat := if t.second = 60 then t.nanos + 1000000000 else t.nanos

end DateTime

namespace Instant

/-- The instant at a Unix time, if there is one. -/
def ofUnix? (seconds : Int) (nanos : Nat) : Option Instant :=
  if h : IsInstant seconds nanos then some ⟨seconds, nanos, h⟩ else none

/-- The start of 1970. -/
def epoch : Instant := ⟨0, 0, by decide⟩

instance : Inhabited Instant := ⟨epoch⟩

/-- The date and time of an instant in UTC. -/
def dateTime (t : Instant) : DateTime :=
  let inDay := (t.seconds % 86400).toNat
  let leap := 1000000000 ≤ t.nanos
  { date := Date.ofDayNumber (t.seconds / 86400 + Date.epochDay)
    hour := inDay / 3600
    minute := inDay / 60 % 60
    second := if leap then 60 else inDay % 60
    nanos := if leap then t.nanos - 1000000000 else t.nanos }

/-- The instant of a date and time whose clock is `offset` seconds ahead of UTC.  Both the time
shown and the time in UTC have to be in range. -/
def ofDateTime? (t : DateTime) (offset : Int) : Option Instant :=
  if t.IsValid ∧ IsInstant t.seconds t.nanosOfSecond then
    ofUnix? (t.seconds - offset) t.nanosOfSecond
  else none

/-- Instants are ordered by time. -/
instance : LE Instant where
  le a b := a.seconds < b.seconds ∨ a.seconds = b.seconds ∧ a.nanos ≤ b.nanos

instance (a b : Instant) : Decidable (a ≤ b) :=
  inferInstanceAs (Decidable (a.seconds < b.seconds ∨ a.seconds = b.seconds ∧ a.nanos ≤ b.nanos))

/-- The later of two instants. -/
def later (a b : Instant) : Instant := if a ≤ b then b else a

end Instant

end CommitStore
