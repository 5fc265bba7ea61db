import CommitStore.Text.Digits
import CommitStore.Text.Unprintable

/-!
# Quoted texts

A text is quoted for a message between double quotes.  Double quotes and backslashes are escaped, as
are the characters that do not show; a single quote stands for itself.
-/

namespace CommitStore

namespace Text

/-- A character as it is written between quotes. -/
def quotedChar (c : Char) : List Char :=
  if c = '\x00' then ['\\', '0']
  else if c = '\t' then ['\\', 't']
  else if c = '\r' then ['\\', 'r']
  else if c = '\n' then ['\\', 'n']
  else if c = '"' ∨ c = '\\' then ['\\', c]
  else if isUnprintable c then ['\\', 'u', '\x7b'] ++ hexadecimal c.toNat ++ ['\x7d']
  else [c]

/-- A text between double quotes. -/
def quoted (text : String) : String :=
  String.ofList ('"' :: text.toList.flatMap quotedChar ++ ['"'])

example : quoted "a b" = "\"a b\"" := by decide +kernel

example : quoted "\u200b" = "\"\\u\x7b200b\x7d\"" := by decide +kernel

end Text

end CommitStore
