import CommitStore.Json.Record

/-!
# The commit state

The commit state is the number of the last version that is known to be committed.  It is a hint: it
saves a reader from listing the whole log, and it may lag behind the log.
-/

namespace CommitStore

/-- The last version known to be committed. -/
structure CommitState where
  version : Int64
  deriving DecidableEq

namespace CommitState

/-- The version as decimal digits with their sign. -/
def digits (c : CommitState) : List Char := Text.signedDecimal c.version.toInt

/-- The state in words. -/
def summary (c : CommitState) : String := "version " ++ String.ofList c.digits

/-- The JSON object of a state. -/
def toJson (c : CommitState) : Json := .ofMembers [("version", .ofInt c.version.toInt)]

/-- The state that a JSON value denotes.  The version has to fit into 64 bits with a sign. -/
def ofJson? (value : Json) : Option CommitState := do
  match ← value.fields? ["version"] with
  | [some version] =>
    return ⟨.ofInt (← version.intWithin? Int64.minValue.toInt Int64.maxValue.toInt)⟩
  | _ => none

end CommitState

end CommitStore
