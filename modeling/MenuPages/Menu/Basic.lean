import MenuPages.Number.Binary64
import MenuPages.Text.Blank

/-!
# Menus

A menu as the application around it supplies it. Nothing here changes or stores one.
-/

namespace MenuPages

/-- A dish on a menu. -/
structure Dish where
  id : Text
  name : Text
  description : Text
  /-- The price in whole units of the currency. -/
  price : Binary64
  currency : Text
  thumbnail : Text
  isVisible : Bool
  labels : List Text
  allergens : List Text
  deriving DecidableEq

/-- A category of a menu, with its dishes in order. -/
structure Category where
  id : Text
  name : Text
  description : Text
  dishes : List Dish
  deriving DecidableEq

/-- The dishes of a category that diners can see. -/
def Category.visibleDishes (c : Category) : List Dish := c.dishes.filter Dish.isVisible

/-- A menu of a restaurant. -/
structure Menu where
  id : Text
  name : Text
  categories : List Category
  isDefault : Bool
  createdAt : Text
  /-- A page of its own, if the menu has one. -/
  htmlContent : Option Text
  deriving DecidableEq

namespace Menu

/-- The page of its own that a menu is shown with. A blank one does not count. -/
def customHtml? (m : Menu) : Option Text := m.htmlContent.filter fun html => !Text.allBlank html

/-- How many dishes of a menu diners can see. -/
def visibleDishCount (m : Menu) : Nat := (m.categories.flatMap fun c => c.visibleDishes).length

end Menu

end MenuPages
