import MenuPages.Markup.Escape

/-!
# Head elements

The elements that a menu may put into the head of a live page: style sheets, written out or linked.
-/

namespace MenuPages

/-- An attribute of an element, its value as it is meant and not as it is written. -/
structure Attribute where
  name : Text
  value : Text
  deriving DecidableEq, Repr

/-- An attribute as it is written, behind a space. -/
def Attribute.markup (a : Attribute) : Text :=
  ' ' :: (a.name ++ '=' :: '"' :: (Markup.escape a.value ++ ['"']))

/-- Which element it is. -/
inductive HeadTag where
  | style
  | link
  deriving DecidableEq, Repr

def HeadTag.name : HeadTag → Text
  | .style => "style".toList
  | .link => "link".toList

/-- A `style` or `link` element, apart from any page. -/
structure HeadElement where
  tag : HeadTag
  attributes : List Attribute
  /-- The style sheet of a `style` element. A `link` element has no text. -/
  text : Text
  deriving DecidableEq, Repr

namespace HeadElement

/-- The value of an attribute: that of the first one of this name. -/
def attribute? (e : HeadElement) (name : Text) : Option Text :=
  (e.attributes.find? fun a => a.name == name).map Attribute.value

/-- Attributes with one of them set: the first one of this name, or else a new one at the end. -/
def setIn (name value : Text) : List Attribute → List Attribute
  | [] => [⟨name, value⟩]
  | a :: rest => if a.name = name then ⟨name, value⟩ :: rest else a :: setIn name value rest

/-- The element with an attribute set. -/
def setAttribute (e : HeadElement) (name value : Text) : HeadElement :=
  { e with attributes := setIn name value e.attributes }

/-- The element without any attribute of this name. -/
def dropAttribute (e : HeadElement) (name : Text) : HeadElement :=
  { e with attributes := e.attributes.filter fun a => a.name != name }

/-- The opening tag of an element. -/
def openingTag (e : HeadElement) : Text :=
  '<' :: (e.tag.name ++ e.attributes.flatMap Attribute.markup ++ ['>'])

/-- The element as it is written. A style sheet is raw text, so nothing in it is escaped. -/
def markup (e : HeadElement) : Text :=
  match e.tag with
  | .style => e.openingTag ++ e.text ++ "</style>".toList
  | .link => e.openingTag

end HeadElement

end MenuPages
