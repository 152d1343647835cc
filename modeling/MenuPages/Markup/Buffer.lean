import MenuPages.Text.Quoted
import MenuPages.Text.Utf8

/-!
# Buffers

Markup that was written to memory, kept as the bytes that were written.
-/

namespace MenuPages

/-- Rendered markup, as bytes. -/
structure Buffer where
  bytes : List UInt8
  deriving DecidableEq

namespace Buffer

/-- The buffer to which a text was written. -/
def ofText (s : Text) : Buffer := ⟨s.encode⟩

/-- What a buffer holds. Everything that is written as text reads back unchanged. -/
def text (b : Buffer) : Text := Text.decodeLossy b.bytes

/-- A buffer holds exactly a text if it holds the bytes of that text. -/
def holds (b : Buffer) (s : Text) : Bool := b.bytes == s.encode

/-- A buffer as it is shown in messages. -/
def describe (b : Buffer) : Text := "HtmlBuffer(".toList ++ b.text.quoted ++ [')']

end Buffer

end MenuPages
