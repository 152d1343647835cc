import MenuPages.Number.Shortest
import MenuPages.Text.Blank
import MenuPages.Text.Quoted

/-!
# Faults of JSON texts

What can be wrong with a JSON text or with what it says, and where. A fault keeps how many bytes of
the text lie behind the place that it is reported at; the place itself is found from the whole text
when the fault is shown. Two kinds of place occur:

* what was read and did not fit is behind the place (`failAt`);
* what is looked at and not yet read is in front of it by one byte (`failPeek`), or the place is the
  end of the text.

A place need not be the start of a character: one byte of a longer character may have been read.
-/

namespace MenuPages.Json

/-- A value that was found where another kind of value was expected. -/
inductive Found where
  | null
  | boolean (b : Bool)
  | integer (n : Int)
  | binary (x : Binary64)
  | string (s : Text)
  | sequence
  | map
  deriving DecidableEq

/-- A finite number as a JSON text has it: written out if its leading digit is the fifth behind the
point, the sixteenth before it, or between the two. -/
def binaryText (x : Binary64) : Text :=
  let magnitude : Text :=
    if x.isZero then "0.0".toList
    else
      let d := x.shortest .toEven
      if -5 ≤ d.scientificExponent ∧ d.scientificExponent ≤ 15 then d.positional else d.scientific
  if x.isNegative then '-' :: magnitude else magnitude

def Found.describe : Found → Text
  | .null => "null".toList
  | .boolean true => "boolean `true`".toList
  | .boolean false => "boolean `false`".toList
  | .integer n => "integer `".toList ++ Digits.ofInt n ++ ['`']
  | .binary x => "floating point `".toList ++ binaryText x ++ ['`']
  | .string s => "string ".toList ++ s.quoted
  | .sequence => "sequence".toList
  | .map => "map".toList

/-- What is wrong. -/
inductive Cause where
  | endInList
  | endInObject
  | endInString
  | endInValue
  | expectedColon
  | expectedListCommaOrEnd
  | expectedObjectCommaOrEnd
  | expectedIdent
  | expectedValue
  | invalidEscape
  | invalidNumber
  | numberOutOfRange
  | loneSurrogate
  | unfinishedSurrogate
  | controlCharacter
  | keyNotString
  | trailingComma
  | trailingCharacters
  | wrongType (found : Found) (expected : Text)
  | duplicateField (name : Text)
  | missingField (name : Text)
  | invalidLength (length : Nat) (expected : Text)
  deriving DecidableEq

def Cause.message : Cause → Text
  | .endInList => "EOF while parsing a list".toList
  | .endInObject => "EOF while parsing an object".toList
  | .endInString => "EOF while parsing a string".toList
  | .endInValue => "EOF while parsing a value".toList
  | .expectedColon => "expected `:`".toList
  | .expectedListCommaOrEnd => "expected `,` or `]`".toList
  | .expectedObjectCommaOrEnd => "expected `,` or `\x7d`".toList
  | .expectedIdent => "expected ident".toList
  | .expectedValue => "expected value".toList
  | .invalidEscape => "invalid escape".toList
  | .invalidNumber => "invalid number".toList
  | .numberOutOfRange => "number out of range".toList
  | .loneSurrogate => "lone leading surrogate in hex escape".toList
  | .unfinishedSurrogate => "unexpected end of hex escape".toList
  | .controlCharacter =>
    "control character (\\u0000-\\u001F) found while parsing a string".toList
  | .keyNotString => "key must be a string".toList
  | .trailingComma => "trailing comma".toList
  | .trailingCharacters => "trailing characters".toList
  | .wrongType found expected =>
    "invalid type: ".toList ++ found.describe ++ ", expected ".toList ++ expected
  | .duplicateField name => "duplicate field `".toList ++ name ++ ['`']
  | .missingField name => "missing field `".toList ++ name ++ ['`']
  | .invalidLength length expected =>
    "invalid length ".toList ++ Digits.ofNat length ++ ", expected ".toList ++ expected

/-- What is wrong, and how many bytes lie behind the place that it is reported at. -/
structure Fault where
  cause : Cause
  left : Nat
  deriving DecidableEq

/-- What reading gives: a value and the text behind it, or a fault. -/
abbrev Outcome (α : Type) := Except Fault (α × Text)

section

variable {α β : Type}

/-- Turns the value that was read into another. -/
def Outcome.map (f : α → β) : Outcome α → Outcome β
  | .error e => .error e
  | .ok (a, rest) => .ok (f a, rest)

theorem Outcome.map_eq_ok {f : α → β} {o : Outcome α} {b : β} {rest : Text}
    (h : Outcome.map f o = .ok (b, rest)) : ∃ a, o = .ok (a, rest) ∧ f a = b := by
  unfold Outcome.map at h
  split at h
  · simp at h
  · next a after =>
    simp only [Except.ok.injEq, Prod.mk.injEq] at h
    exact ⟨a, by rw [h.2], h.1⟩

/-- A fault in what stands before `rest`. -/
def failAt (cause : Cause) (rest : Text) : Except Fault α := .error ⟨cause, rest.byteCount⟩

/-- A fault after so many bytes of `rest` were read. -/
def failAfter (cause : Cause) (bytes : Nat) (rest : Text) : Except Fault α :=
  .error ⟨cause, rest.byteCount - bytes⟩

/-- A fault in what `rest` starts with. -/
def failPeek (cause : Cause) (rest : Text) : Except Fault α := failAfter cause 1 rest

end

/-! ## Places -/

/-- The bytes of a text since its last newline within the first `bytes` bytes, if there were
`column` of them in front of it. -/
def columnFrom (column : Nat) : (bytes : Nat) → Text → Nat
  | 0, _ => column
  | bytes, [] => column + bytes
  | bytes + 1, c :: s =>
    if c = '\n' then columnFrom 0 bytes s
    else columnFrom (column + min c.utf8Size (bytes + 1)) (bytes + 1 - c.utf8Size) s

/-- A fault of a text as it is reported. -/
def Fault.message (source : Text) (f : Fault) : Text :=
  let pos := source.byteCount - f.left
  f.cause.message ++ " at line ".toList ++ Digits.ofNat (source.lineAt pos) ++
    " column ".toList ++ Digits.ofNat (columnFrom 0 pos source)

/-! ## White space -/

/-- Passes over white space. -/
def skipSpace (s : Text) : Text := s.dropWhile Text.isPlainSpace

theorem length_skipSpace_le (s : Text) : (skipSpace s).length ≤ s.length :=
  Text.length_dropWhile_le _ s

end MenuPages.Json
