import MenuPages.Text.Basic
import MenuPages.Text.Unseen

/-!
# Quoted texts

A text between double quotes, as it stands in a message: what would end the text, or would not be
seen, is written as an escape.
-/

namespace MenuPages.Text

/-- A number in lower case hexadecimal digits, without leading zeros. -/
def hexDigits (n : Nat) : Text := Nat.toDigits 16 n

/-- The escape that names a character by its number. -/
def codeEscape (c : Char) : Text := ['\\', 'u', '{'] ++ hexDigits c.toNat ++ ['}']

/-- A character between double quotes. -/
def quoteChar (c : Char) : Text :=
  if c == '"' then ['\\', '"']
  else if c == '\\' then ['\\', '\\']
  else if c == '\n' then ['\\', 'n']
  else if c == '\r' then ['\\', 'r']
  else if c == '\t' then ['\\', 't']
  else if c == '\x00' then ['\\', '0']
  else if isUnseen c then codeEscape c
  else [c]

/-- A text between double quotes. -/
def quoted (s : Text) : Text := '"' :: s.flatMap quoteChar ++ ['"']

end MenuPages.Text
