/-!
# Texts read from bytes

A byte sequence is read as UTF-8 into a list of characters in which `none` stands for a byte that
belongs to no character.  A reader of such a list can tell apart a damaged place that it has to
understand from one that it only skips.
-/

namespace CommitStore

/-- Byte sequences are compared byte by byte. -/
instance decidableEqByteArray : DecidableEq ByteArray := ByteArray.instDecidableEq

/-- A text to be read: its characters, with `none` for each byte that belongs to none. -/
abbrev Source := List (Option Char)

namespace Source

/-- The text of a string, which holds nothing but characters. -/
def ofString (text : String) : Source := text.toList.map some

/-- Read on from byte `start`, at most `fuel` characters or stray bytes. -/
def charactersFrom (bytes : ByteArray) : Nat → Nat → Source
  | 0, _ => []
  | fuel + 1, start =>
    if start < bytes.size then
      match bytes.utf8DecodeChar? start with
      | some c => some c :: charactersFrom bytes fuel (start + c.utf8Size)
      | none => none :: charactersFrom bytes fuel (start + 1)
    else []

/-- The characters of a byte sequence.  Bytes that are UTF-8 throughout are the characters of their
string; otherwise each byte that begins no character is passed over on its own. -/
def ofBytes (bytes : ByteArray) : Source :=
  match String.fromUTF8? bytes with
  | some text => ofString text
  | none => charactersFrom bytes bytes.size 0

theorem fromUTF8?_toUTF8 (text : String) : String.fromUTF8? text.toUTF8 = some text := by
  have valid : text.toUTF8.IsValidUTF8 := text.isValidUTF8
  rw [String.fromUTF8?, dif_pos valid]
  rfl

theorem ofBytes_toUTF8 (text : String) : ofBytes text.toUTF8 = ofString text := by
  rw [ofBytes, fromUTF8?_toUTF8]

end Source

end CommitStore
