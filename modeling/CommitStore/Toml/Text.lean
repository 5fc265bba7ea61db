import CommitStore.Text.Digits

/-!
# Strings, names and blank space in TOML

The readers here take a text and give what they read together with the text behind it, or nothing if
the text does not begin with what they look for.  A reader that has to loop is given the length of
the text as the number of rounds, which no text can exceed.
-/

namespace CommitStore

namespace Toml

/-! ## Blank space -/

/-- Blanks and tabs. -/
def isBlank (c : Char) : Bool := c = ' ' || c = '\t'

/-- Pass over blanks and tabs. -/
def skipBlanks (s : List Char) : List Char := s.dropWhile isBlank

/-- Read past a line feed, with or without a carriage return before it. -/
def readNewline : List Char → Option (List Char)
  | '\n' :: rest => some rest
  | '\r' :: '\n' :: rest => some rest
  | _ => none

/-- The characters of comments and literal strings: everything but control characters, of which only
the tab is allowed. -/
def isPlain (c : Char) : Bool := c = '\t' || (0x20 ≤ c.toNat && c.toNat != 0x7F)

/-- Pass over a comment, if one is next. -/
def skipComment : List Char → List Char
  | '#' :: rest => rest.dropWhile isPlain
  | s => s

/-- Read the end of a line: blanks, a comment and a newline, or the end of the text. -/
def readLineEnd (s : List Char) : Option (List Char) :=
  match skipComment (skipBlanks s) with
  | [] => some []
  | s => readNewline s

/-- Pass over blank space, comments and newlines.  A comment has to end with a newline. -/
def skipLines : Nat → List Char → List Char
  | 0, s => s
  | fuel + 1, s =>
    match s with
    | [] => []
    | c :: rest =>
      if isBlank c then skipLines fuel rest
      else
        match readNewline (skipComment s) with
        | some rest => skipLines fuel rest
        | none => s

/-! ## Basic strings -/

/-- The character that an escape of exactly `digits` hexadecimal digits stands for. -/
def readCodePoint (digits : Nat) (s : List Char) : Option (Char × List Char) := do
  let values ← (s.take digits).mapM Text.hexValue?
  if values.length = digits then
    let code := values.foldl (fun code value => code * 16 + value) 0
    if code.isValidChar then some (Char.ofNat code, s.drop digits) else none
  else none

/-- The character that an escape stands for, from behind its backslash. -/
def readEscape : List Char → Option (Char × List Char)
  | 'b' :: rest => some ('\x08', rest)
  | 't' :: rest => some ('\t', rest)
  | 'n' :: rest => some ('\n', rest)
  | 'f' :: rest => some ('\x0c', rest)
  | 'r' :: rest => some ('\r', rest)
  | '"' :: rest => some ('"', rest)
  | '\\' :: rest => some ('\\', rest)
  | 'u' :: rest => readCodePoint 4 rest
  | 'U' :: rest => readCodePoint 8 rest
  | _ => none

/-- The inside of a basic string, from behind its opening quote. -/
def readBasic : Nat → List Char → Option (List Char × List Char)
  | 0, _ => none
  | fuel + 1, s =>
    match s with
    | [] => none
    | c :: rest =>
      if c = '"' then some ([], rest)
      else if c = '\\' then do
        let (c, rest) ← readEscape rest
        let (text, rest) ← readBasic fuel rest
        return (c :: text, rest)
      else if isPlain c then do
        let (text, rest) ← readBasic fuel rest
        return (c :: text, rest)
      else none

/-- The inside of a literal string, from behind its opening quote. -/
def readLiteral (s : List Char) : Option (List Char × List Char) :=
  let text := s.takeWhile fun c => isPlain c && c != '\''
  match s.drop text.length with
  | '\'' :: rest => some (text, rest)
  | _ => none

/-! ## Strings over several lines -/

/-- The number of times that a text begins with a quote. -/
def quotes (quote : Char) (s : List Char) : Nat := (s.takeWhile (· = quote)).length

/-- Pass over blank space and newlines. -/
def skipSpace : Nat → List Char → List Char
  | 0, s => s
  | fuel + 1, s =>
    match s with
    | [] => []
    | c :: rest =>
      if isBlank c then skipSpace fuel rest
      else
        match readNewline s with
        | some rest => skipSpace fuel rest
        | none => s

/-- Read the end of a line behind a backslash, with the blank space up to the next text. -/
def readContinuation (s : List Char) : Option (List Char) :=
  (readNewline (skipBlanks s)).map (skipSpace s.length)

/-- The inside of a string between three quotes, from behind the opening ones.  Up to two quotes may
stand in it, also right before the closing three.  Escapes are read in a basic string only. -/
def readMultiline (quote : Char) : Nat → List Char → Option (List Char × List Char)
  | 0, _ => none
  | fuel + 1, s =>
    match s with
    | [] => none
    | c :: rest =>
      if c = quote then
        let n := min (quotes quote s) 5
        if 3 ≤ n then some (List.replicate (n - 3) quote, s.drop n)
        else do
          let (text, rest) ← readMultiline quote fuel (s.drop n)
          return (List.replicate n quote ++ text, rest)
      else if c = '\\' ∧ quote = '"' then
        match readContinuation rest with
        | some rest => readMultiline quote fuel rest
        | none => do
          let (c, rest) ← readEscape rest
          let (text, rest) ← readMultiline quote fuel rest
          return (c :: text, rest)
      else
        match readNewline s with
        | some rest => do
          let (text, rest) ← readMultiline quote fuel rest
          return ('\n' :: text, rest)
        | none =>
          if isPlain c then do
            let (text, rest) ← readMultiline quote fuel rest
            return (c :: text, rest)
          else none

/-- A newline right behind the opening quotes does not belong to the string. -/
def skipFirstNewline (s : List Char) : List Char := (readNewline s).getD s

/-- A string of any of the four forms. -/
def readString (s : List Char) : Option (String × List Char) :=
  let read : Option (List Char × List Char) :=
    match s with
    | '"' :: '"' :: '"' :: rest => readMultiline '"' s.length (skipFirstNewline rest)
    | '\'' :: '\'' :: '\'' :: rest => readMultiline '\'' s.length (skipFirstNewline rest)
    | '"' :: rest => readBasic s.length rest
    | '\'' :: rest => readLiteral rest
    | _ => none
  read.map fun (text, rest) => (String.ofList text, rest)

/-! ## Keys -/

/-- The characters of a name without quotes. -/
def isBareKeyChar (c : Char) : Bool := c.isAlphanum || c = '_' || c = '-'

/-- One name of a key, with or without quotes. -/
def readName (s : List Char) : Option (String × List Char) :=
  match s with
  | '"' :: rest =>
    (readBasic s.length rest).map fun (text, rest) => (String.ofList text, rest)
  | '\'' :: rest => (readLiteral rest).map fun (text, rest) => (String.ofList text, rest)
  | s =>
    let name := s.takeWhile isBareKeyChar
    if name = [] then none else some (String.ofList name, s.drop name.length)

/-- The names of a key with dots between them; blank space may surround each of them. -/
def readNames : Nat → List Char → Option (List String × List Char)
  | 0, _ => none
  | fuel + 1, s => do
    let (name, rest) ← readName (skipBlanks s)
    match skipBlanks rest with
    | '.' :: rest =>
      let (names, rest) ← readNames fuel rest
      return (name :: names, rest)
    | rest => return ([name], rest)

/-- The number of nested values, and of names in a key, from which on a text is refused. -/
def depthLimit : Nat := 80

/-- A key: the names that lead to a member, and the name of the member. -/
def readKey (s : List Char) : Option ((List String × String) × List Char) := do
  let (names, rest) ← readNames s.length s
  match names.getLast? with
  | some last => if names.length < depthLimit then some ((names.dropLast, last), rest) else none
  | none => none

end Toml

end CommitStore
