import MenuPages.Text.Basic

/-!
# Template data

Everything a template can refer to, as texts: a page has categories, a category has items, an item
has labels and allergens.
-/

namespace MenuPages.Template

/-- A dish as templates see it. -/
structure Item where
  name : Text
  description : Text
  /-- The price with exactly two decimals. -/
  price : Text
  currency : Text
  labels : Option (List Text)
  allergens : Option (List Text)
  deriving DecidableEq, Repr

/-- A category as templates see it. -/
structure Category where
  name : Text
  description : Option Text
  items : List Item
  deriving DecidableEq, Repr

/-- What a menu page is filled with. -/
structure Data where
  restaurantName : Text
  menuName : Option Text
  categories : List Category
  deriving DecidableEq, Repr

/-- The data of a page without a menu. -/
def Data.ofRestaurant (name : Text) : Data := ⟨name, none, []⟩

end MenuPages.Template
