import MenuPages.Text.Basic

/-!
# White space

The Unicode property `White_Space`, and trimming by it. This is wider than the four characters that
a JSON text or the inside of a tag allows between its parts; where only those count, the modules
concerned say so.
-/

namespace MenuPages.Text

/-- Unicode `White_Space`. -/
def isBlank (c : Char) : Bool :=
  let n := c.toNat
  (0x09 ≤ n && n ≤ 0x0D) || n == 0x20 || n == 0x85 || n == 0xA0 || n == 0x1680 ||
    (0x2000 ≤ n && n ≤ 0x200A) || n == 0x2028 || n == 0x2029 || n == 0x202F || n == 0x205F ||
    n == 0x3000

/-- A text without the white space at either end. -/
def trim (s : Text) : Text := ((s.dropWhile isBlank).reverse.dropWhile isBlank).reverse

/-- A text is blank if nothing but white space is in it. -/
def allBlank (s : Text) : Bool := s.all isBlank

/-- White space as markup and JSON have it between their parts: space, tab, carriage return and
line feed. -/
def isPlainSpace (c : Char) : Bool := c == ' ' || c == '\t' || c == '\r' || c == '\n'

/-- Dropping characters from the front leaves no more than there were. -/
theorem length_dropWhile_le (p : Char → Bool) (s : Text) : (s.dropWhile p).length ≤ s.length :=
  (List.dropWhile_sublist p).length_le

end MenuPages.Text
