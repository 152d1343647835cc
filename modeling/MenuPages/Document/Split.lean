import MenuPages.Text.Blank

/-!
# Splitting documents

A page that a restaurant wrote may be a whole document or a fragment. Of a document, the host page
can use what is inside the first `head` and the first `body`, in any case of their names.

The content of an element reaches from the first `>` behind its opening to the first end tag. If
the first opening has no such content then no later one has, since what it lacks stands behind it;
so only the first one is looked at. The opening is found by the letters alone: `<header>` opens a
`head`.
-/

namespace MenuPages.Document

open Text

/-- White space as it is dropped from the front of a document: with the byte order mark, without
U+0085. -/
def isLeadingSpace (c : Char) : Bool := c == '\ufeff' || (isBlank c && c != '\u0085')

/-- How a whole document starts. These four spellings count, and no other case. -/
def openings : List Text :=
  ["<!DOCTYPE".toList, "<!doctype".toList, "<html".toList, "<HTML".toList]

/-- A text is a whole document rather than a fragment. -/
def isFull (html : Text) : Bool :=
  openings.any fun opening => opening.isPrefixOf (html.dropWhile isLeadingSpace)

/-- What is inside the first element of a name. -/
def content? (name html : Text) : Option Text :=
  match breakAt? ('<' :: name) html with
  | none => none
  | some opened =>
    match opened.2.dropWhile (· != '>') with
    | [] => none
    | _ :: inside => (breakAt? ('<' :: '/' :: (name ++ ['>'])) inside).map Prod.fst

/-- The parts of a page that a host page can use. -/
structure Parts where
  head : Text
  body : Text
  deriving DecidableEq, Repr

/-- The head and the body of a page. Without a head there is nothing for it, and without a body the
whole page is the body. -/
def split (html : Text) : Parts :=
  ⟨(content? "head".toList html).getD [], (content? "body".toList html).getD html⟩

end MenuPages.Document
