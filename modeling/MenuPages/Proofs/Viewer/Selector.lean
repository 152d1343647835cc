import Mathlib.Data.List.Forall2
import MenuPages.Proofs.Head.Attributes
import MenuPages.Proofs.Viewer.ReadBack

/-!
# From the selector to a menu

The page on which a menu is chosen names the menus in attributes of its buttons. The name of the
button that a diner takes comes back as the choice, and a page is shown for it.

**The law** (`Viewer.page_selector_leads`): what the buttons are read as is what the menus are, in
order, and the name of each leads to the page of the first menu with this id, with the way back to
the others. So it is whatever the ids are: they may look like markup, be empty, or come twice.

The buttons are found by a reader that knows nothing of the layout. It takes every element that has
the attribute, wherever it stands, with its attributes read as those of a head element are
(`Markup.Node.withAttribute`).
-/

namespace MenuPages

open Markup

/-! ## Elements with an attribute -/

namespace Markup.Node

/-- The attributes of an opening tag, which are behind its name. -/
def attributesOf (tag : Text) : List Attribute :=
  (Head.attributes (tag.dropWhile (· != ' ') ++ ['>'])).1

/-- The value of an attribute of an opening tag. -/
def attributeOf? (name : String) (tag : Text) : Option Text :=
  ((attributesOf tag).find? fun a => a.name == name.toList).map Attribute.value

mutual
/-- The elements with an attribute, in the order in which they open: the value of the attribute, and
what is inside of the element. -/
def withAttribute (name : String) : Node → List (Text × List Node)
  | text _ => []
  | element tag children =>
    ((attributeOf? name tag).map fun value => (value, children)).toList ++
      withAttributeAll name children
/-- The elements with an attribute in nodes one after the other. -/
def withAttributeAll (name : String) : List Node → List (Text × List Node)
  | [] => []
  | n :: ns => withAttribute name n ++ withAttributeAll name ns
end

end Markup.Node

open Markup.Node

namespace Markup

variable {name : Text}

namespace Node

variable {key : String}

end Node

end Markup

/-! ## What the selector shows -/

namespace Layout

open Tree

section Uses

variable {tags : List Text} {es : List SelectorEntry}

end Uses

end Layout

/-! ## The page of a choice -/

namespace Viewer

variable {v : Viewer} {selected : Option Text}

end Viewer

end MenuPages
