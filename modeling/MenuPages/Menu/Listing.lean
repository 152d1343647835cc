import MenuPages.Menu.Basic
import MenuPages.Price
import MenuPages.Template.Render

/-!
# Menus in templates

What a template sees of a menu: the dishes that diners can see, and the categories that have one.
Values are taken as they are; they are escaped when a template is filled in.
-/

namespace MenuPages

/-- What templates see of a dish. -/
def Dish.listed (d : Dish) : Template.Item where
  name := d.name
  description := d.description
  price := Price.fixed d.price
  currency := d.currency
  labels := some d.labels
  allergens := some d.allergens

/-- What templates see of a category. -/
def Category.listed (c : Category) : Template.Category where
  name := c.name
  description := some c.description
  items := c.visibleDishes.map Dish.listed

/-- What templates see of a menu. -/
def Menu.listed (m : Menu) (restaurant : Text) : Template.Data where
  restaurantName := restaurant
  menuName := some m.name
  categories := (m.categories.map Category.listed).filter fun c => !c.items.isEmpty

/-- A page of a restaurant, filled in for a menu. Without a menu only the name of the restaurant is
filled in, and no section is opened. -/
def fillIn (html restaurant : Text) : Option Menu → Text × List Event
  | some menu =>
    let (t, events) := Template.parse html
    (t.render (menu.listed restaurant), events)
  | none =>
    let (t, events) := Template.parseBare html
    (t.render (Template.Data.ofRestaurant restaurant), events)

end MenuPages
