import MenuPages.Text.Basic

/-!
# Template tokens

A template is text with tags in it. A tag is two opening braces, an optional `#` or `/`, a name of
ASCII letters, digits and underscores, and two closing braces, with nothing between them; whatever
else stands between braces is text.

The scan tries a tag at every character, so a tag is found behind a half tag or a further brace as
well. A text token grows to the front (`Token.extend`): two texts never stand next to each other.
-/

namespace MenuPages.Template

/-- What a tag does. -/
inductive TagKind where
  /-- Stands for a value. -/
  | value
  /-- Opens a section. -/
  | opening
  /-- Closes a section. -/
  | closing
  deriving DecidableEq, Repr

/-- The character that tells a tag's kind, if it has one. -/
def TagKind.sigil : TagKind → Text
  | .value => []
  | .opening => ['#']
  | .closing => ['/']

structure Tag where
  kind : TagKind
  name : Text
  deriving DecidableEq, Repr

/-- The characters of a name. -/
def isNameChar (c : Char) : Bool := c.isAlphanum || c == '_'

/-- A tag as it is written. -/
def Tag.text (t : Tag) : Text := '{' :: '{' :: (t.kind.sigil ++ t.name ++ ['}', '}'])

/-- The kind of a tag, from what follows its opening braces, and the rest behind it. -/
def TagKind.read : Text → TagKind × Text
  | '#' :: s => (.opening, s)
  | '/' :: s => (.closing, s)
  | s => (.value, s)

/-- The tag that a text starts with, and what is behind it. -/
def Tag.read? : Text → Option (Tag × Text)
  | '{' :: '{' :: s =>
    let kind := (TagKind.read s).1
    let body := (TagKind.read s).2
    let name := body.takeWhile isNameChar
    if name.isEmpty then none
    else
      match body.dropWhile isNameChar with
      | '}' :: '}' :: rest => some (⟨kind, name⟩, rest)
      | _ => none
  | _ => none

theorem TagKind.read_eq (s : Text) : s = (TagKind.read s).1.sigil ++ (TagKind.read s).2 := by
  unfold TagKind.read
  split <;> rfl

/-- Reading a tag loses nothing. -/
theorem Tag.eq_of_read? {s rest : Text} {t : Tag} (h : Tag.read? s = some (t, rest)) :
    s = t.text ++ rest := by
  unfold Tag.read? at h
  split at h
  · next s =>
    dsimp only at h
    split at h
    · simp at h
    · split at h
      · next hbehind =>
        simp only [Option.some.injEq, Prod.mk.injEq] at h
        obtain ⟨rfl, rfl⟩ := h
        have hsplit := @List.takeWhile_append_dropWhile _ isNameChar (TagKind.read s).2
        rw [hbehind] at hsplit
        conv => lhs; rw [TagKind.read_eq s, ← hsplit]
        simp [Tag.text]
      · simp at h
  · simp at h

/-- What is behind a tag is shorter than what it was read from. -/
theorem Tag.length_of_read? {s rest : Text} {t : Tag} (h : Tag.read? s = some (t, rest)) :
    rest.length < s.length := by
  rw [Tag.eq_of_read? h]
  simp only [Tag.text, List.length_append, List.length_cons]
  omega

/-- A part of a template: text without tags, or a tag and the byte offset at which it stands. -/
inductive Token where
  | text (s : Text)
  | tag (t : Tag) (pos : Nat)
  deriving DecidableEq, Repr

/-- A token as it is written. -/
def Token.raw : Token → Text
  | .text s => s
  | .tag t _ => t.text

/-- Puts a character in front of tokens, into the text they start with if they start with one. -/
def Token.extend (c : Char) : List Token → List Token
  | .text s :: tokens => .text (c :: s) :: tokens
  | tokens => .text [c] :: tokens

/-- The tokens of a text that starts at the byte offset `pos`. -/
def Token.scanFrom (pos : Nat) : Text → List Token
  | [] => []
  | c :: s =>
    match _h : Tag.read? (c :: s) with
    | some (t, rest) => .tag t pos :: scanFrom (pos + t.text.byteCount) rest
    | none => Token.extend c (scanFrom (pos + c.utf8Size) s)
termination_by s => s.length
decreasing_by
  · exact Tag.length_of_read? _h
  · simp

/-- The tokens of a template. -/
def Token.scan (source : Text) : List Token := Token.scanFrom 0 source

end MenuPages.Template
