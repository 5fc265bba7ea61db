import CommitStore.Json.Number
import CommitStore.Json.Text

/-!
# JSON values

A JSON value is kept the way it is written: members of an object in their order and with their
repetitions, numbers digit by digit, strings as pieces.  What a member that nobody asks for holds
therefore never has to make sense.

`Json.parse?` reads a whole text, which is one value with nothing but white space around it.
`Json.compact` prints a value on one line and `Json.pretty` over several.
-/

namespace CommitStore

/-- A JSON value as it is written. -/
inductive Json
  | null
  | bool (value : Bool)
  | number (value : Json.Number)
  | string (pieces : List Json.Piece)
  | array (items : List Json)
  | object (members : List (List Json.Piece × Json))

namespace Json

/-- The string that stands for a text. -/
def ofString (text : String) : Json := .string (text.toList.map .char)

/-- The number that stands for a natural number. -/
def ofNat (n : Nat) : Json := .number (.ofNat n)

/-- The number that stands for an integer. -/
def ofInt (n : Int) : Json := .number (.ofInt n)

/-- The object with the given members. -/
def ofMembers (members : List (String × Json)) : Json :=
  .object (members.map fun (key, value) => (key.toList.map .char, value))

/-! ## Reading -/

/-- The white space of JSON. -/
def isBlank (c : Char) : Bool := c = ' ' || c = '\n' || c = '\r' || c = '\t'

/-- Pass over white space. -/
def skipBlanks : Source → Source
  | some c :: rest => if isBlank c then skipBlanks rest else some c :: rest
  | none :: rest => none :: rest
  | [] => []

/-- Read past a fixed word. -/
def readWord : List Char → Source → Option Source
  | [], rest => some rest
  | w :: word, some c :: rest => if w = c then readWord word rest else none
  | _ :: _, _ => none

mutual

/-- Read one value, with at most `fuel` steps of descent. -/
def readValue : Nat → Source → Option (Json × Source)
  | 0, _ => none
  | fuel + 1, s =>
    match skipBlanks s with
    | some c :: rest =>
      if c = '"' then (readString rest).map fun (pieces, after) => (.string pieces, after)
      else if c = '[' then
        match skipBlanks rest with
        | some ']' :: after => some (.array [], after)
        | rest => (readItems fuel rest).map fun (items, after) => (.array items, after)
      else if c = '\x7b' then
        match skipBlanks rest with
        | some '\x7d' :: after => some (.object [], after)
        | rest => (readMembers fuel rest).map fun (members, after) => (.object members, after)
      else if c = 't' then (readWord ['r', 'u', 'e'] rest).map fun after => (.bool true, after)
      else if c = 'f' then
        (readWord ['a', 'l', 's', 'e'] rest).map fun after => (.bool false, after)
      else if c = 'n' then (readWord ['u', 'l', 'l'] rest).map fun after => (.null, after)
      else (readNumber (some c :: rest)).map fun (value, after) => (.number value, after)
    | _ => none

/-- Read the items of an array, at least one, up to its closing bracket. -/
def readItems : Nat → Source → Option (List Json × Source)
  | 0, _ => none
  | fuel + 1, s =>
    match readValue fuel s with
    | none => none
    | some (item, rest) =>
      match skipBlanks rest with
      | some c :: rest =>
        if c = ',' then (readItems fuel rest).map fun (items, after) => (item :: items, after)
        else if c = ']' then some ([item], rest)
        else none
      | _ => none

/-- Read the members of an object, at least one, up to its closing brace. -/
def readMembers : Nat → Source → Option (List (List Piece × Json) × Source)
  | 0, _ => none
  | fuel + 1, s =>
    match skipBlanks s with
    | some '"' :: rest =>
      match readString rest with
      | none => none
      | some (key, rest) =>
        match skipBlanks rest with
        | some ':' :: rest =>
          match readValue fuel rest with
          | none => none
          | some (value, rest) =>
            match skipBlanks rest with
            | some c :: rest =>
              if c = ',' then
                (readMembers fuel rest).map fun (members, after) => ((key, value) :: members, after)
              else if c = '\x7d' then some ([(key, value)], rest)
              else none
            | _ => none
        | _ => none
    | _ => none

end

/-- The value that a text consists of: nothing but white space may surround it.  Every second step
of descent passes a character, so the length of the text bounds them. -/
def parse? (s : Source) : Option Json :=
  match readValue (2 * s.length + 2) s with
  | some (value, rest) => if skipBlanks rest = [] then some value else none
  | none => none

/-! ## Writing -/

mutual

/-- The value on one line, without white space. -/
def compact : Json → List Char
  | .null => ['n', 'u', 'l', 'l']
  | .bool true => ['t', 'r', 'u', 'e']
  | .bool false => ['f', 'a', 'l', 's', 'e']
  | .number value => value.write
  | .string pieces => writeString pieces
  | .array items => '[' :: compactItems items ++ [']']
  | .object members => '\x7b' :: compactMembers members ++ ['\x7d']

/-- Values with commas between them. -/
def compactItems : List Json → List Char
  | [] => []
  | [item] => compact item
  | item :: next :: items => compact item ++ ',' :: compactItems (next :: items)

/-- Members with commas between them. -/
def compactMembers : List (List Piece × Json) → List Char
  | [] => []
  | [(key, value)] => writeString key ++ ':' :: compact value
  | (key, value) :: next :: members =>
    writeString key ++ ':' :: compact value ++ ',' :: compactMembers (next :: members)

end

/-- The start of a new line, `depth` levels of two blanks deep. -/
def newLine (depth : Nat) : List Char := '\n' :: List.replicate (2 * depth) ' '

mutual

/-- The value over several lines, each level of nesting indented by two blanks; what is empty stays
on one line. -/
def prettyAt (depth : Nat) : Json → List Char
  | .null => ['n', 'u', 'l', 'l']
  | .bool true => ['t', 'r', 'u', 'e']
  | .bool false => ['f', 'a', 'l', 's', 'e']
  | .number value => value.write
  | .string pieces => writeString pieces
  | .array [] => ['[', ']']
  | .array items => '[' :: prettyItems (depth + 1) items ++ newLine depth ++ [']']
  | .object [] => ['\x7b', '\x7d']
  | .object members => '\x7b' :: prettyMembers (depth + 1) members ++ newLine depth ++ ['\x7d']

/-- Values, each on lines of its own, with commas between them. -/
def prettyItems (depth : Nat) : List Json → List Char
  | [] => []
  | [item] => newLine depth ++ prettyAt depth item
  | item :: next :: items =>
    newLine depth ++ prettyAt depth item ++ ',' :: prettyItems depth (next :: items)

/-- Members, each on lines of its own, with commas between them. -/
def prettyMembers (depth : Nat) : List (List Piece × Json) → List Char
  | [] => []
  | [(key, value)] => newLine depth ++ writeString key ++ ':' :: ' ' :: prettyAt depth value
  | (key, value) :: next :: members =>
    newLine depth ++ writeString key ++ ':' :: ' ' :: prettyAt depth value
      ++ ',' :: prettyMembers depth (next :: members)

end

/-- The value over several lines, from the left margin. -/
def pretty (value : Json) : List Char := prettyAt 0 value

end Json

end CommitStore
