import MenuPages.Text.Basic

/-!
# Entities

The character references that are read in attribute values: the five characters of
`Markup.Escape`, the apostrophe in four spellings. Any other `&` stands for itself. Decoding goes
on behind the reference, so an escaped reference is not decoded twice.
-/

namespace MenuPages.Markup

/-- The references that are read, and the character each stands for. -/
def references : List (Text × Char) :=
  [("&amp;".toList, '&'), ("&lt;".toList, '<'), ("&gt;".toList, '>'), ("&quot;".toList, '"'),
    ("&apos;".toList, '\''), ("&#039;".toList, '\''), ("&#39;".toList, '\''),
    ("&#x27;".toList, '\'')]

/-- The reference that a text starts with: the character it stands for, and how long it is. -/
def reference? (s : Text) : Option (Char × Nat) :=
  (references.find? fun r => r.1.isPrefixOf s).map fun r => (r.2, r.1.length)

/-- The text in which `skip` more characters belong to a reference that was read. -/
def decodeFrom : (skip : Nat) → Text → Text
  | _, [] => []
  | skip + 1, _ :: s => decodeFrom skip s
  | 0, c :: s =>
    match reference? (c :: s) with
    | some (character, size) => character :: decodeFrom (size - 1) s
    | none => c :: decodeFrom 0 s

/-- A text with its references replaced by the characters they stand for. -/
def decode (s : Text) : Text := decodeFrom 0 s

end MenuPages.Markup
