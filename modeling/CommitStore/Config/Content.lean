import CommitStore.Json.Record

/-!
# Contents of configuration files

What a configuration says is read the same way from JSON and from TOML, through the few things that
matter to it: texts, lists and tables with their members in order.  Numbers, truth values and dates
are all the same to it, since no setting is one.

Reading JSON into contents is stricter than skipping a value is: every string and name has to make
sense, every number has to stay finite in binary64, and nesting ends at `Content.depthLimit`.
-/

namespace CommitStore

/-- A value in a configuration. -/
inductive Content
  | null
  /-- A number, a truth value or a date. -/
  | scalar
  | text (value : String)
  | list (items : List Content)
  | table (members : List (String × Content))

namespace Content

/-- The number of nested arrays and objects from which on a JSON text is refused. -/
def depthLimit : Nat := 128

mutual

/-- The content of a JSON value that stands inside fewer than `depthLimit - depth` others. -/
def ofJson? (depth : Nat) : Json → Option Content
  | .null => some .null
  | .bool _ => some .scalar
  | .number value => if value.scalesFinite then some .scalar else none
  | .string pieces => (Json.decode pieces).map fun text => .text (String.ofList text)
  | .array items => if depth ≤ 1 then none else (ofItems? (depth - 1) items).map .list
  | .object members => if depth ≤ 1 then none else (ofMembers? (depth - 1) members).map .table

/-- The contents of the items of an array. -/
def ofItems? (depth : Nat) : List Json → Option (List Content)
  | [] => some []
  | item :: items => do
    let content ← ofJson? depth item
    let contents ← ofItems? depth items
    return content :: contents

/-- The contents of the members of an object. -/
def ofMembers? (depth : Nat) : List (List Json.Piece × Json) → Option (List (String × Content))
  | [] => some []
  | (key, value) :: members => do
    let name ← Json.decode key
    let content ← ofJson? depth value
    let contents ← ofMembers? depth members
    return (String.ofList name, content) :: contents

end

/-- The text that a content is. -/
def text? : Content → Option String
  | .text value => some value
  | _ => none

/-- The name that a content chooses among several: the text of it, or the name of the only member of
a table that says nothing more. -/
def choice? : Content → Option String
  | .text value => some value
  | .table [(name, .null)] => some name
  | .table [(name, .table [])] => some name
  | _ => none

/-- A choice between kinds of a thing, each with settings of its own: the tag that names the kind
and what the kind gives for each of its settings, in their order.  The kind stands in the member
`tag` of a table, among the settings, or at the head of a list, before them; `settingsOf` lists the
settings of a kind, and a kind without settings passes over all other members. -/
def tagged? (tag : String) (settingsOf : String → Option (List String)) :
    Content → Option (String × List (Option Content))
  | .table members => do
    let kind ← (← Json.single? members tag).bind text?
    let settings ← settingsOf kind
    return (kind, ← settings.mapM (Json.single? members))
  | .list (.text kind :: items) => do
    let settings ← settingsOf kind
    return (kind, ← Json.fillFields settings items)
  | _ => none

end Content

end CommitStore
