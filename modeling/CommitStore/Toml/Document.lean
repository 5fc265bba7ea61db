import CommitStore.Config.Content
import CommitStore.Toml.Scalar

/-!
# TOML documents

A document is a sequence of lines: members `key = value`, and headers that say to which table the
following members belong.  A table can be begun by a header, be implied by the header of a table
below it, or grow from keys with dots; which of these it is decides what may still be added to it,
so `Toml.Item` keeps it while a document is read.  `Toml.descend` reaches a table along a key and
makes the tables on the way, and `Toml.parse?` gives the members of a whole document.
-/

namespace CommitStore

namespace Toml

/-! ## Tables under construction -/

/-- Where a table comes from. -/
inductive Origin
  /-- A header of its own. -/
  | header
  /-- The header of a table below it. -/
  | implied
  /-- A key with dots. -/
  | dotted
  deriving DecidableEq

/-- What stands under a name while a document is read. -/
inductive Item
  /-- A finished value. -/
  | value (content : Content)
  | table (origin : Origin) (members : List (String × Item))
  /-- Tables with headers in double brackets; members are added to the last one. -/
  | tables (elements : List (List (String × Item)))

/-- The members of a table under construction. -/
abbrev Members := List (String × Item)

/-- What stands under a name. -/
def Members.find? (members : Members) (name : String) : Option Item :=
  (List.find? (fun member => member.1 = name) members).map (·.2)

/-- Put an item in the place of what stands under a name. -/
def Members.replace (members : Members) (name : String) (item : Item) : Members :=
  List.map (fun member => if member.1 = name then (name, item) else member) members

/-- Change the table that some names lead to.  What is missing on the way is made, as tables of the
given origin; an array of tables is entered at its last table.  A key with dots must not enter a
table that has a header. -/
def descend (making : Origin) (change : Origin → Members → Option Members) (origin : Origin)
    (members : Members) : List String → Option Members
  | [] => change origin members
  | name :: names =>
    match members.find? name with
    | none => do
      let made ← descend making change making [] names
      return members ++ [(name, .table making made)]
    | some (.value _) => none
    | some (.table origin inner) =>
      if making = .dotted ∧ origin = .header then none
      else do
        let inner ← descend making change origin inner names
        return members.replace name (.table origin inner)
    | some (.tables elements) =>
      match elements.getLast? with
      | none => none
      | some last => do
        let last ← descend making change .header last names
        return members.replace name (.tables (elements.dropLast ++ [last]))

/-- Add a member to a table.  A key with dots adds only to tables that grew from such keys. -/
def addMember (names : List String) (name : String) (content : Content) (_origin : Origin)
    (members : Members) : Option Members :=
  descend .dotted
    (fun origin members =>
      if names ≠ [] ∧ origin ≠ .dotted then none
      else if (members.find? name).isSome then none
      else some (members ++ [(name, .value content)]))
    .header members names

/-- Begin a table with a header.  A table that was only implied so far is taken over. -/
def beginTable (name : String) (_origin : Origin) (members : Members) : Option Members :=
  match members.find? name with
  | none => some (members ++ [(name, .table .header [])])
  | some (.table .implied inner) => some (members.replace name (.table .header inner))
  | _ => none

/-- Begin a table with a header in double brackets, behind the tables that are there. -/
def beginElement (name : String) (_origin : Origin) (members : Members) : Option Members :=
  match members.find? name with
  | none => some (members ++ [(name, .tables [[]])])
  | some (.tables elements) => some (members.replace name (.tables (elements ++ [[]])))
  | _ => none

mutual

/-- The finished content of an item. -/
def Item.content : Item → Content
  | .value content => content
  | .table _ members => .table (contentOfMembers members)
  | .tables elements => .list (contentOfElements elements)

/-- The finished contents of the members of a table. -/
def contentOfMembers : List (String × Item) → List (String × Content)
  | [] => []
  | (name, item) :: members => (name, item.content) :: contentOfMembers members

/-- The finished contents of the tables of an array. -/
def contentOfElements : List (List (String × Item)) → List Content
  | [] => []
  | members :: elements => .table (contentOfMembers members) :: contentOfElements elements

end

/-! ## Values -/

/-- The members of an inline table, added one after the other. -/
def inlineMembers (pairs : List ((List String × String) × Content)) : Option Members :=
  pairs.foldlM (fun members (key, content) => addMember key.1 key.2 content .header members) []

mutual

/-- Read one value that stands inside `depth` others. -/
def readValue (depth : Nat) : Nat → List Char → Option (Content × List Char)
  | 0, _ => none
  | fuel + 1, s =>
    match s with
    | [] => none
    | c :: rest =>
      if c = '"' ∨ c = '\'' then (readString s).map fun (text, rest) => (.text text, rest)
      else if c = '[' then
        if depthLimit ≤ depth + 1 then none
        else (readItems (depth + 1) fuel rest).map fun (items, rest) => (.list items, rest)
      else if c = '\x7b' then
        if depthLimit ≤ depth + 1 then none
        else
          match skipBlanks rest with
          | '\x7d' :: rest => some (.table [], rest)
          | _ => do
            let (pairs, rest) ← readPairs (depth + 1) fuel rest
            let members ← inlineMembers pairs
            return (.table (contentOfMembers members), rest)
      else (readScalar s).map fun rest => (.scalar, rest)

/-- Read the items of an array up to its closing bracket.  A comma may stand behind the last item,
and comments and newlines between any two of its parts. -/
def readItems (depth : Nat) : Nat → List Char → Option (List Content × List Char)
  | 0, _ => none
  | fuel + 1, s =>
    match skipLines s.length s with
    | ']' :: rest => some ([], rest)
    | s => do
      let (item, rest) ← readValue depth fuel s
      match skipLines rest.length rest with
      | ',' :: rest =>
        let (items, rest) ← readItems depth fuel rest
        return (item :: items, rest)
      | ']' :: rest => return ([item], rest)
      | _ => none

/-- Read the members of an inline table, at least one, up to its closing brace. -/
def readPairs (depth : Nat) :
    Nat → List Char → Option (List ((List String × String) × Content) × List Char)
  | 0, _ => none
  | fuel + 1, s => do
    let (key, rest) ← readKey s
    match rest with
    | '=' :: rest =>
      let (content, rest) ← readValue depth fuel (skipBlanks rest)
      match skipBlanks rest with
      | ',' :: rest =>
        let (pairs, rest) ← readPairs depth fuel rest
        return ((key, content) :: pairs, rest)
      | '\x7d' :: rest => return ([(key, content)], rest)
      | _ => none
    | _ => none

end

/-! ## Lines -/

/-- A document as far as it is read: its members, and the names that lead to the table of the last
header. -/
structure Reader where
  members : Members
  current : List String

/-- Read a header from behind its opening bracket. -/
def readHeader (reader : Reader) (s : List Char) : Option (Reader × List Char) :=
  match s with
  | '[' :: rest => do
    let ((names, name), rest) ← readKey rest
    match rest with
    | ']' :: ']' :: rest =>
      let rest ← readLineEnd rest
      let members ← descend .implied (beginElement name) .header reader.members names
      return (⟨members, names ++ [name]⟩, rest)
    | _ => none
  | rest => do
    let ((names, name), rest) ← readKey rest
    match rest with
    | ']' :: rest =>
      let rest ← readLineEnd rest
      let members ← descend .implied (beginTable name) .header reader.members names
      return (⟨members, names ++ [name]⟩, rest)
    | _ => none

/-- Read a member and the end of its line. -/
def readMember (reader : Reader) (s : List Char) : Option (Reader × List Char) := do
  let ((names, name), rest) ← readKey s
  match rest with
  | '=' :: rest =>
    let (content, rest) ← readValue 0 (2 * s.length) (skipBlanks rest)
    let rest ← readLineEnd rest
    let members ←
      descend .implied (addMember names name content) .header reader.members reader.current
    return ({ reader with members }, rest)
  | _ => none

/-- Read the lines of a document. -/
def readLines : Nat → Reader → List Char → Option Reader
  | 0, _, _ => none
  | fuel + 1, reader, s =>
    match skipBlanks s with
    | [] => some reader
    | '#' :: rest => (readLineEnd ('#' :: rest)).bind (readLines fuel reader)
    | '[' :: rest => do
      let (reader, rest) ← readHeader reader rest
      readLines fuel reader rest
    | s =>
      match readNewline s with
      | some rest => readLines fuel reader rest
      | none => do
        let (reader, rest) ← readMember reader s
        readLines fuel reader rest

/-- The members of a document.  A byte order mark in front is passed over. -/
def parse? (text : String) : Option (List (String × Content)) :=
  let s := match text.toList with
    | '\uFEFF' :: rest => rest
    | s => s
  (readLines (s.length + 1) ⟨[], []⟩ s).map fun reader => contentOfMembers reader.members

end Toml

end CommitStore
