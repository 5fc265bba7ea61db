import CommitStore.Json.Value

/-!
# Reading records from JSON

A record with named fields is read from an object or from an array.  In an object the members may
come in any order; a member that names no field is passed over, whatever its value, but every name
has to make sense, and no field may be given twice.  In an array the fields stand in their order,
and the last ones may be missing.
-/

namespace CommitStore

namespace Json

/-- The text that a JSON string stands for. -/
def text? : Json → Option String
  | .string pieces => (decode pieces).map String.ofList
  | _ => none

/-- The integer that a JSON number denotes. -/
def int? : Json → Option Int
  | .number value => value.toInt?
  | _ => none

/-- The integer that a JSON number denotes, if it lies between the two bounds, ends included. -/
def intWithin? (low high : Int) (value : Json) : Option Int := do
  let n ← value.int?
  if low ≤ n ∧ n ≤ high then some n else none

/-- The value of the only member called `name`: `none` when there are several, `some none` when
there is no such member. -/
def single? {α : Type} (members : List (String × α)) (name : String) : Option (Option α) :=
  match members.filter (fun member => member.1 = name) with
  | [] => some none
  | [member] => some (some member.2)
  | _ => none

/-- The members of an object under the names they stand for, if every name stands for a text. -/
def namedMembers? (members : List (List Piece × Json)) : Option (List (String × Json)) :=
  members.mapM fun (key, value) => (decode key).map fun name => (String.ofList name, value)

/-- Line items up with the fields of a record; `none` when there are more items than fields. -/
def fillFields {α β : Type} : List α → List β → Option (List (Option β))
  | [], [] => some []
  | [], _ :: _ => none
  | _ :: fields, [] => (fillFields fields []).map (none :: ·)
  | _ :: fields, item :: items => (fillFields fields items).map (some item :: ·)

/-- What a value gives for each of the named fields of a record, in the order of the names. -/
def fields? (names : List String) : Json → Option (List (Option Json))
  | .object members => do
    let members ← namedMembers? members
    names.mapM (single? members)
  | .array items => fillFields names items
  | _ => none

end Json

end CommitStore
