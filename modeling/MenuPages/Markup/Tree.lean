import MenuPages.Markup.Escape

/-!
# Markup trees

Markup as a tree of elements and text, and its printed form. A text may be anything, since it is
escaped; names of elements and attributes are the library's own.
-/

namespace MenuPages.Markup

/-- An attribute, which need not have a value. -/
structure TreeAttribute where
  name : Text
  value : Option Text
  deriving DecidableEq, Repr

/-- An attribute as it is printed, behind a space. -/
def TreeAttribute.print (a : TreeAttribute) : Text :=
  match a.value with
  | none => ' ' :: a.name
  | some v => ' ' :: (a.name ++ '=' :: '"' :: (escape v ++ ['"']))

/-- A part of a page. -/
inductive Tree where
  | text (s : Text)
  | element (name : Text) (attributes : List TreeAttribute) (children : List Tree)
  deriving Repr

namespace Tree

/-- The opening tag of an element. -/
def openingTag (name : Text) (attributes : List TreeAttribute) : Text :=
  '<' :: (name ++ attributes.flatMap TreeAttribute.print ++ ['>'])

/-- The closing tag of an element. -/
def closingTag (name : Text) : Text := '<' :: '/' :: (name ++ ['>'])

mutual
/-- A part of a page as it is printed. -/
def print : Tree → Text
  | .text s => escape s
  | .element name attributes children =>
    openingTag name attributes ++ printAll children ++ closingTag name
/-- The parts of a page as they are printed. -/
def printAll : List Tree → Text
  | [] => []
  | t :: ts => print t ++ printAll ts
end

/-- Parts are printed one after the other, with nothing between them. -/
theorem printAll_eq_flatMap (ts : List Tree) : printAll ts = ts.flatMap print := by
  induction ts with
  | nil => rfl
  | cons t ts ih => rw [printAll, ih, List.flatMap_cons]

/-- The end of a line. -/
def newline : Tree := .text ['\n']

/-- An element with a class. -/
def classed (name className : Text) (children : List Tree) : Tree :=
  .element name [⟨"class".toList, some className⟩] children

end Tree

end MenuPages.Markup
