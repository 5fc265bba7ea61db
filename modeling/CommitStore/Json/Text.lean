import CommitStore.Text.Digits
import CommitStore.Text.Source

/-!
# Strings in JSON

`Json.readString` reads the inside of a JSON string into a list of `Json.Piece`: characters, the
code units that `\u` escapes stand for, and damaged places.  A string that is only skipped over
needs no more than that; one that is to be understood is decoded by `Json.decode`, which joins
surrogate pairs and refuses everything that is not a character.

`Json.writeString` goes the other way.  It uses the short escapes where JSON has them and `\u00xx`
for the other control characters, and writes every other character as it is.
-/

namespace CommitStore

namespace Json

/-- What stands between the quotes of a JSON string. -/
inductive Piece
  /-- A character, written as itself or by a short escape. -/
  | char (c : Char)
  /-- A sixteen-bit code unit, written with four hexadecimal digits. -/
  | unit (code : Nat)
  /-- A byte that belongs to no character. -/
  | broken
  deriving DecidableEq

/-! ## Reading -/

/-- The character that a one-letter escape stands for. -/
def shortEscape? (letter : Char) : Option Char :=
  if letter = '"' then some '"'
  else if letter = '\\' then some '\\'
  else if letter = '/' then some '/'
  else if letter = 'b' then some '\x08'
  else if letter = 'f' then some '\x0c'
  else if letter = 'n' then some '\n'
  else if letter = 'r' then some '\r'
  else if letter = 't' then some '\t'
  else none

/-- The code unit that four hexadecimal digits stand for. -/
def codeUnit? (a b c d : Option Char) : Option Nat := do
  let a ← a.bind Text.hexValue?
  let b ← b.bind Text.hexValue?
  let c ← c.bind Text.hexValue?
  let d ← d.bind Text.hexValue?
  return ((a * 16 + b) * 16 + c) * 16 + d

/-- Read a string from behind its opening quote: its pieces, and what follows the closing quote.
Control characters have to be escaped. -/
def readString : Source → Option (List Piece × Source)
  | [] => none
  | none :: rest => (readString rest).map fun (pieces, after) => (.broken :: pieces, after)
  | some c :: rest =>
    if c = '"' then some ([], rest)
    else if c = '\\' then
      match rest with
      | some letter :: rest =>
        if letter = 'u' then
          match rest with
          | d₁ :: d₂ :: d₃ :: d₄ :: rest =>
            match codeUnit? d₁ d₂ d₃ d₄ with
            | some code =>
              (readString rest).map fun (pieces, after) => (.unit code :: pieces, after)
            | none => none
          | _ => none
        else
          match shortEscape? letter with
          | some c => (readString rest).map fun (pieces, after) => (.char c :: pieces, after)
          | none => none
      | _ => none
    else if c.toNat < 0x20 then none
    else (readString rest).map fun (pieces, after) => (.char c :: pieces, after)

/-- The text that a list of pieces stands for.  A surrogate counts only as one half of a pair, and
a damaged place stands for nothing. -/
def decode : List Piece → Option (List Char)
  | [] => some []
  | .broken :: _ => none
  | .char c :: rest => (decode rest).map (c :: ·)
  | .unit code :: rest =>
    if code < 0xD800 ∨ 0xDFFF < code then (decode rest).map (Char.ofNat code :: ·)
    else if 0xDC00 ≤ code then none
    else
      match rest with
      | .unit low :: rest =>
        if 0xDC00 ≤ low ∧ low ≤ 0xDFFF then
          (decode rest).map
            (Char.ofNat (0x10000 + (code - 0xD800) * 0x400 + (low - 0xDC00)) :: ·)
        else none
      | _ => none

/-! ## Writing -/

/-- A character as it is written inside a string. -/
def escape (c : Char) : List Char :=
  if c = '"' then ['\\', '"']
  else if c = '\\' then ['\\', '\\']
  else if c = '\x08' then ['\\', 'b']
  else if c = '\x0c' then ['\\', 'f']
  else if c = '\n' then ['\\', 'n']
  else if c = '\r' then ['\\', 'r']
  else if c = '\t' then ['\\', 't']
  else if c.toNat < 0x20 then
    ['\\', 'u', '0', '0', Nat.digitChar (c.toNat / 16), Nat.digitChar (c.toNat % 16)]
  else [c]

/-- A piece as it is written inside a string. -/
def writePiece : Piece → List Char
  | .char c => escape c
  | .unit code => '\\' :: 'u' :: Text.padLeft 4 '0' (Text.hexadecimal code)
  | .broken => ['\uFFFD']

/-- The written form of a string, with its quotes. -/
def writeString (pieces : List Piece) : List Char :=
  '"' :: pieces.flatMap writePiece ++ ['"']

end Json

end CommitStore
