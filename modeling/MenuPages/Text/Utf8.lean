import MenuPages.Text.Basic

/-!
# UTF-8

`encode` writes a text as bytes. Reading goes byte by byte: a lead byte says how many tail bytes it
asks for and which values the first of them may have, and a sequence that breaks off is given up at
the byte that breaks it. So one reading serves both readers: `decode?` refuses a broken sequence,
and `decodeLossy` puts U+FFFD for it, one for each longest stretch that began like a character.
-/

namespace MenuPages.Text

/-- The bytes of a text. -/
def encode (s : Text) : List UInt8 := s.flatMap String.utf8EncodeChar

/-! ## Reading one character -/

/-- What a lead byte announces: the bits of the character it holds, how many tail bytes follow, and
the least and the greatest value of the first of them. -/
structure Lead where
  bits : Nat
  tails : Nat
  low : Nat := 0x80
  high : Nat := 0xBF

/-- The lead bytes. The bounds on the first tail byte leave out the sequences that are longer than
needed, the surrogates, and what lies beyond U+10FFFF. -/
def lead? (b : Nat) : Option Lead :=
  if b ≤ 0x7F then some ⟨b, 0, 0x80, 0xBF⟩
  else if b < 0xC2 then none
  else if b ≤ 0xDF then some ⟨b - 0xC0, 1, 0x80, 0xBF⟩
  else if b = 0xE0 then some ⟨0, 2, 0xA0, 0xBF⟩
  else if b = 0xED then some ⟨0xD, 2, 0x80, 0x9F⟩
  else if b ≤ 0xEF then some ⟨b - 0xE0, 2, 0x80, 0xBF⟩
  else if b = 0xF0 then some ⟨0, 3, 0x90, 0xBF⟩
  else if b ≤ 0xF3 then some ⟨b - 0xF0, 3, 0x80, 0xBF⟩
  else if b = 0xF4 then some ⟨4, 3, 0x80, 0x8F⟩
  else none

/-- Reads the tail bytes that are still owed. A byte out of bounds is left to be read again. -/
def readTails : (owed low high code : Nat) → List UInt8 → Option Nat × List UInt8
  | 0, _, _, code, bytes => (some code, bytes)
  | _ + 1, _, _, _, [] => (none, [])
  | owed + 1, low, high, code, b :: bytes =>
    if low ≤ b.toNat ∧ b.toNat ≤ high then
      readTails owed 0x80 0xBF (code * 64 + (b.toNat - 0x80)) bytes
    else
      (none, b :: bytes)

/-- Reading tail bytes never gives back more than it was given. -/
theorem length_readTails_le (owed low high code : Nat) (bytes : List UInt8) :
    (readTails owed low high code bytes).2.length ≤ bytes.length := by
  fun_induction readTails owed low high code bytes with
  | case1 => simp
  | case2 => simp
  | case3 _ _ _ _ _ _ _ ih => exact Nat.le_succ_of_le ih
  | case4 => simp

/-- The character that starts with the lead byte `b`, or none for a sequence that is broken, and
what is left behind it. -/
def readChar (b : UInt8) (bytes : List UInt8) : Option Char × List UInt8 :=
  match lead? b.toNat with
  | none => (none, bytes)
  | some lead =>
    let (code, rest) := readTails lead.tails lead.low lead.high lead.bits bytes
    (code.map Char.ofNat, rest)

theorem length_readChar_le (b : UInt8) (bytes : List UInt8) :
    (readChar b bytes).2.length ≤ bytes.length := by
  unfold readChar
  split
  · exact Nat.le_refl _
  · exact length_readTails_le ..

/-! ## Reading a whole sequence -/

/-- The characters of a byte sequence, with none for each broken stretch. -/
def readChars : List UInt8 → List (Option Char)
  | [] => []
  | b :: bytes => (readChar b bytes).1 :: readChars (readChar b bytes).2
termination_by bytes => bytes.length
decreasing_by exact Nat.lt_succ_of_le (length_readChar_le b bytes)

/-- The text that a byte sequence encodes, if it encodes one. -/
def decode? (bytes : List UInt8) : Option Text := (readChars bytes).mapM id

/-- The text of a byte sequence, with U+FFFD for each broken stretch. -/
def decodeLossy (bytes : List UInt8) : Text := (readChars bytes).map (·.getD '\uFFFD')

end MenuPages.Text
