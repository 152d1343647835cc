import MenuPages.Text.Basic

/-!
# Escaping

A text is put into markup by writing the five characters that markup reads as its own as entities.
Everything else is copied, so an escaped text says the same thing in any place where markup allows
text or a quoted attribute value.

`Piece` is the unit in which a page is put together: markup, which is copied, or a value, which is
escaped. What a page comes to is fixed by its pieces, whether they are joined in memory
(`Piece.text`) or written one after the other.
-/

namespace MenuPages

namespace Markup

/-- The entity that stands for a character that markup reads as its own. -/
def entity? : Char → Option Text
  | '&' => some "&amp;".toList
  | '<' => some "&lt;".toList
  | '>' => some "&gt;".toList
  | '"' => some "&quot;".toList
  | '\'' => some "&#039;".toList
  | _ => none

/-- A character as it stands in markup. -/
def escapeChar (c : Char) : Text := (entity? c).getD [c]

/-- A text as it stands in markup. -/
def escape (s : Text) : Text := s.flatMap escapeChar

@[simp] theorem escape_nil : escape [] = [] := rfl

@[simp] theorem escape_cons (c : Char) (s : Text) : escape (c :: s) = escapeChar c ++ escape s := by
  simp [escape]

@[simp] theorem escape_append (s t : Text) : escape (s ++ t) = escape s ++ escape t := by
  simp [escape]

end Markup

/-- A part of a page: markup that is copied, or a value that is escaped. -/
inductive Piece where
  | markup (s : Text)
  | value (s : Text)
  deriving DecidableEq, Repr

/-- What a piece adds to the page. -/
def Piece.text : Piece → Text
  | .markup s => s
  | .value s => Markup.escape s

/-- The page that pieces make up. -/
def Piece.textAll (pieces : List Piece) : Text := pieces.flatMap Piece.text

/-- The pieces of a list of values with a separator between each two. -/
def Piece.joined (separator : Piece) (items : List Text) : List Piece :=
  (items.map Piece.value).intersperse separator

end MenuPages
