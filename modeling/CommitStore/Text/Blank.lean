/-!
# White space

The characters with the Unicode property `White_Space`, and the bytes that are white space in
ASCII.
-/

namespace CommitStore

namespace Text

/-- The characters with the Unicode property `White_Space`. -/
def isBlank (c : Char) : Bool :=
  let n := c.toNat
  (9 ≤ n && n ≤ 13) || n = 0x20 || n = 0x85 || n = 0xA0 || n = 0x1680
    || (0x2000 ≤ n && n ≤ 0x200A) || n = 0x2028 || n = 0x2029 || n = 0x202F || n = 0x205F
    || n = 0x3000

/-- The bytes that are white space in ASCII: blank, tab, line feed, form feed, carriage return. -/
def isBlankByte (b : UInt8) : Bool := b = 32 || b = 9 || b = 10 || b = 12 || b = 13

/-- A text without the white space it begins with. -/
def trimStart (text : List Char) : List Char := text.dropWhile isBlank

end Text

end CommitStore
