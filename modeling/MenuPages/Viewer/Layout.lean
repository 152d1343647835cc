import MenuPages.Markup.Tree
import MenuPages.Price
import MenuPages.Viewer.Entry

/-!
# The built-in layout

The pages for menus that have none of their own, as markup trees: the menu itself, the selector of
menus, and what is shown where there are no menus. A dish that diners cannot see is nowhere in them.
-/

namespace MenuPages.Layout

open Markup Tree

/-- A button with a class and an attribute of its own. -/
def button (className : Text) (extra : TreeAttribute) (children : List Tree) : Tree :=
  .element "button".toList
    [⟨"type".toList, some "button".toList⟩, ⟨"class".toList, some className⟩, extra] children

/-- A part that is there only under a condition, on a line of its own. -/
def lineIf (condition : Bool) (t : Tree) : List Tree := if condition then [t, newline] else []

/-- The name of the restaurant. -/
def restaurantHeading (name : Text) : List Tree :=
  [classed "h1".toList "menu-restaurant".toList [.text name], newline]

/-- A page with the name of the restaurant, and what is before and behind the name. -/
def page (restaurant : Text) (before behind : List Tree) : Text :=
  printAll [classed "div".toList "menu-page".toList
    (newline :: (before ++ restaurantHeading restaurant ++ behind)), newline]

/-- A dish. -/
def dish (w : Wording) (d : Dish) : List Tree :=
  [classed "article".toList "menu-dish".toList
    ([newline,
        classed "div".toList "menu-dish-header".toList
          [.element "h3".toList [] [.text d.name],
            classed "p".toList "menu-dish-price".toList [.text (Price.format d.price d.currency)]],
        newline] ++
      lineIf (!d.description.isEmpty)
        (classed "p".toList "menu-dish-description".toList [.text d.description]) ++
      lineIf (!d.labels.isEmpty)
        (classed "div".toList "menu-dish-labels".toList
          (d.labels.map fun label => classed "span".toList "menu-label".toList [.text label])) ++
      lineIf (!d.allergens.isEmpty)
        (classed "p".toList "menu-dish-allergens".toList
          [.text w.allergensPrefix, .text [' '], .text (", ".toList.intercalate d.allergens)])),
    newline]

/-- The dishes of a category that diners can see, or what is said where there are none. -/
def categoryDishes (w : Wording) : List Dish → List Tree
  | [] => [classed "p".toList "menu-coming-soon".toList [.text w.comingSoon], newline]
  | d :: ds =>
    [classed "div".toList "menu-dishes".toList (newline :: (d :: ds).flatMap (dish w)), newline]

/-- A category. -/
def category (w : Wording) (c : Category) : List Tree :=
  [classed "div".toList "menu-category".toList
    ([newline, .element "h2".toList [] [.text c.name], newline] ++
      categoryDishes w c.visibleDishes),
    newline]

/-- The categories of a menu. -/
def menuSection (w : Wording) (m : Menu) : List Tree :=
  [classed "div".toList "menu-section".toList
    (newline ::
      (lineIf m.categories.isEmpty (classed "p".toList "menu-empty".toList [.text w.noCategories]) ++
        m.categories.flatMap (category w))),
    newline]

/-- The page of a menu, with the way back to the other menus if there are any. -/
def menuPage (restaurant : Text) (m : Menu) (showBack : Bool) (w : Wording) : Text :=
  page restaurant
    (lineIf showBack
      (button "menu-back".toList ⟨"data-menu-back".toList, none⟩ [.text w.backToMenus]))
    (menuSection w m)

/-- The page of a restaurant without menus. -/
def emptyPage (restaurant : Text) (w : Wording) : Text :=
  page restaurant []
    [classed "div".toList "menu-none".toList
      [newline, classed "p".toList "menu-none-title".toList [.text w.noMenusTitle], newline,
        classed "p".toList "menu-none-detail".toList [.text w.noMenusDetail], newline],
      newline]

/-- An entry of the selector. -/
def entry (e : SelectorEntry) : List Tree :=
  [button "menu-entry".toList ⟨"data-menu-id".toList, some e.menuId⟩
    [.element "h2".toList [] [.text e.name],
      classed "p".toList "menu-entry-summary".toList [.text e.summary]],
    newline]

/-- The entries of the selector, with a line between each two. -/
def entries : List SelectorEntry → List Tree
  | [] => []
  | e :: es =>
    entry e ++ es.flatMap fun e =>
      [classed "div".toList "menu-divider".toList [], newline] ++ entry e

/-- The page on which a menu is chosen. -/
def selectorPage (restaurant : Text) (es : List SelectorEntry) : Text :=
  page restaurant []
    [classed "div".toList "menu-selector".toList (newline :: entries es), newline]

end MenuPages.Layout
