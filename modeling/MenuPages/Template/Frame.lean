import MenuPages.Template.Data
import MenuPages.Template.Scope

/-!
# Frames

While a template is filled in, each section that is open adds a frame: the thing that its body is
being repeated for. The frames form a chain, innermost first. A name and a section are looked up in
the chain from the inside outwards, so what an outer frame has is visible in every inner section.
-/

namespace MenuPages.Template

/-- The names that stand for values. -/
inductive Placeholder where
  | restaurantName
  | menuName
  | categoryName
  | categoryDescription
  | itemName
  | itemDescription
  | itemPrice
  | itemCurrency
  | label
  | allergen
  deriving DecidableEq, Repr

namespace Placeholder

/-- The name as a template writes it. -/
def name : Placeholder → Text
  | restaurantName => "restaurantName".toList
  | menuName => "menuName".toList
  | categoryName => "categoryName".toList
  | categoryDescription => "categoryDescription".toList
  | itemName => "itemName".toList
  | itemDescription => "itemDescription".toList
  | itemPrice => "itemPrice".toList
  | itemCurrency => "itemCurrency".toList
  | label => "label".toList
  | allergen => "allergen".toList

def all : List Placeholder :=
  [restaurantName, menuName, categoryName, categoryDescription, itemName, itemDescription,
    itemPrice, itemCurrency, label, allergen]

/-- The placeholder that goes by a name. -/
def ofName? (name : Text) : Option Placeholder := all.find? fun p => p.name == name

theorem ofName?_name (p : Placeholder) : ofName? p.name = some p := by
  cases p <;> decide

theorem name_of_ofName? {name : Text} {p : Placeholder} (h : ofName? name = some p) :
    p.name = name := by
  simpa using List.find?_some h

end Placeholder

/-- What a part of a template is being filled in for. -/
inductive Frame where
  | page (d : Data)
  | category (c : Category)
  | item (i : Item)
  | label (s : Text)
  | allergen (s : Text)
  deriving DecidableEq, Repr

/-- A text that says something. -/
def nonEmpty? (s : Option Text) : Option Text := s.filter fun s => !s.isEmpty

namespace Frame

/-- The value that a frame has for a placeholder. An optional text that is missing or empty is no
value. -/
def value? : Frame → Placeholder → Option Text
  | page d, .restaurantName => some d.restaurantName
  | page d, .menuName => nonEmpty? d.menuName
  | category c, .categoryName => some c.name
  | category c, .categoryDescription => nonEmpty? c.description
  | item i, .itemName => some i.name
  | item i, .itemDescription => some i.description
  | item i, .itemPrice => some i.price
  | item i, .itemCurrency => some i.currency
  | label s, .label => some s
  | allergen s, .allergen => some s
  | _, _ => none

/-- What a section is repeated for in a frame, if the frame is one that has such things. -/
def elements? : Frame → Section → Option (List Frame)
  | page d, .categories => some (d.categories.map category)
  | category c, .items => some (c.items.map item)
  | item i, .itemLabels => some ((i.labels.getD []).map label)
  | item i, .itemAllergens => some ((i.allergens.getD []).map allergen)
  | _, _ => none

end Frame

/-- The frames that are open, innermost first. -/
abbrev Frames := List Frame

namespace Frames

/-- The value of a placeholder, from the innermost frame that has one. -/
def value? (frames : Frames) (p : Placeholder) : Option Text := frames.findSome? (·.value? p)

/-- What a section is repeated for, from the innermost frame that has such things; nothing if no
frame has. -/
def elements (frames : Frames) (sec : Section) : List Frame :=
  (frames.findSome? (·.elements? sec)).getD []

end Frames

end MenuPages.Template
