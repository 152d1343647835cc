import MenuPages.Viewer.Page

/-!
# Hidden dishes

A dish that diners cannot see leaves no trace on any page. Each part of a page that looks at dishes
looks for itself: what templates see of a menu, the built-in layout, and the number of dishes in the
selector. **The law** (`Viewer.page_eq_of_withoutHidden_eq`): restaurants whose menus are the same
once the hidden dishes are taken out show the same page for every choice.

It is enough to compare a restaurant with itself, with and without its hidden dishes
(`Viewer.page_withoutHidden`): whoever has the same menus without them has the same page as well.
Categories stay, also those of which nothing is left. The built-in layout and the selector show
them, and templates do not, whether the hidden dishes are there or not.
-/

namespace MenuPages

/-- The category with its hidden dishes taken out. -/
def Category.withoutHidden (c : Category) : Category :=
  { c with dishes := c.dishes.filter fun d => d.isVisible }

/-- The menu with the hidden dishes taken out of every category. -/
def Menu.withoutHidden (m : Menu) : Menu :=
  { m with categories := m.categories.map Category.withoutHidden }

/-- The menus of a restaurant with the hidden dishes taken out. -/
def Viewer.withoutHidden (v : Viewer) : Viewer :=
  { v with menus := v.menus.map Menu.withoutHidden }

/-! ## What looks at dishes -/

theorem Category.visibleDishes_withoutHidden (c : Category) :
    c.withoutHidden.visibleDishes = c.visibleDishes := by
  simp [visibleDishes, withoutHidden]

/-- Templates see the same of a menu. -/
theorem Menu.listed_withoutHidden (m : Menu) (restaurant : Text) :
    m.withoutHidden.listed restaurant = m.listed restaurant := by
  have hcategory (c : Category) : c.withoutHidden.listed = c.listed := by
    rw [Category.listed, c.visibleDishes_withoutHidden]
    rfl
  simp [listed, withoutHidden, List.map_map, Function.comp_def, hcategory]

/-- The selector lists a menu in the same way. -/
theorem Menu.entry_withoutHidden (m : Menu) (w : Wording) : m.withoutHidden.entry w = m.entry w := by
  have hcount : m.withoutHidden.visibleDishCount = m.visibleDishCount := by
    simp [visibleDishCount, withoutHidden, List.map_map, Function.comp_def,
      Category.visibleDishes_withoutHidden]
  have hlength : m.withoutHidden.categories.length = m.categories.length := List.length_map _
  rw [entry, hcount, hlength]
  rfl

/-- The built-in layout shows a menu in the same way. -/
theorem Layout.menuPage_withoutHidden (restaurant : Text) (m : Menu) (showBack : Bool)
    (w : Wording) : menuPage restaurant m.withoutHidden showBack w =
      menuPage restaurant m showBack w := by
  have hcategory (c : Category) : category w c.withoutHidden = category w c := by
    rw [category, c.visibleDishes_withoutHidden]
    rfl
  have hcategories : m.withoutHidden.categories.flatMap (category w) =
      m.categories.flatMap (category w) := by
    simp [Menu.withoutHidden, List.flatMap_map, hcategory]
  have hempty : m.withoutHidden.categories.isEmpty = m.categories.isEmpty := by
    simp [Menu.withoutHidden]
  rw [menuPage, menuSection, hcategories, hempty]
  rfl

namespace Viewer

/-! ## Pages -/

/-- A choice falls on the same menu. -/
theorem defaultMenu?_withoutHidden (v : Viewer) (selected : Option Text) :
    v.withoutHidden.defaultMenu? selected =
      (v.defaultMenu? selected).map Menu.withoutHidden := by
  have hchosen : (selected.bind fun id => v.withoutHidden.menus.find? fun m => m.id == id) =
      (selected.bind fun id => v.menus.find? fun m => m.id == id).map Menu.withoutHidden := by
    cases selected with
    | none => rfl
    | some id => exact List.find?_map
  rw [defaultMenu?, defaultMenu?, Option.map_or, hchosen]
  congr 1
  rw [withoutHidden]
  rcases v.menus with _ | ⟨only, _ | ⟨second, more⟩⟩ <;> rfl

/-- The page of a menu is the same, be it the menu's own or in the built-in layout. -/
theorem menuPage_withoutHidden (v : Viewer) (m : Menu) :
    v.withoutHidden.menuPage m.withoutHidden = v.menuPage m := by
  have hback : v.withoutHidden.showsBack = v.showsBack := by
    simp [showsBack, withoutHidden]
  have hcustom (template : Text) :
      v.withoutHidden.customMenu m.withoutHidden template = v.customMenu m template := by
    rw [customMenu, customMenu, hback, fillIn, fillIn, m.listed_withoutHidden]
    rfl
  have hhtml : m.withoutHidden.customHtml? = m.customHtml? := rfl
  rw [menuPage, menuPage, hhtml]
  cases m.customHtml? with
  | some template =>
    dsimp only
    rw [hcustom]
    rfl
  | none =>
    dsimp only
    rw [hback, Layout.menuPage_withoutHidden]
    rfl

/-- Taking out the hidden dishes changes no page. -/
theorem page_withoutHidden (v : Viewer) (selected : Option Text) :
    v.withoutHidden.page selected = v.page selected := by
  have hentries : v.withoutHidden.entries = v.entries := by
    simp [entries, withoutHidden, List.map_map, Function.comp_def, Menu.entry_withoutHidden]
  have hempty : v.withoutHidden.menus.isEmpty = v.menus.isEmpty := by
    simp [withoutHidden]
  rw [page, page, hempty, defaultMenu?_withoutHidden, hentries]
  cases v.defaultMenu? selected with
  | none => rfl
  | some m =>
    rw [Option.map_some]
    dsimp only
    rw [menuPage_withoutHidden]
    rfl

/-- **Hidden dishes leave no trace.** Restaurants of one name and one wording, whose menus are the
same once the hidden dishes are taken out of every category, show the same page for every choice,
and report the same about it. -/
theorem page_eq_of_withoutHidden_eq {v w : Viewer} (hrestaurant : v.restaurant = w.restaurant)
    (hwording : v.wording = w.wording)
    (hmenus : v.menus.map Menu.withoutHidden = w.menus.map Menu.withoutHidden)
    (selected : Option Text) : v.page selected = w.page selected := by
  have hsame : v.withoutHidden = w.withoutHidden := by
    rw [withoutHidden, withoutHidden, hmenus, hrestaurant, hwording]
  calc v.page selected = v.withoutHidden.page selected := (page_withoutHidden v selected).symm
    _ = w.withoutHidden.page selected := by rw [hsame]
    _ = w.page selected := page_withoutHidden w selected

/-- Two restaurants that differ in hidden dishes only, one of which makes up a whole category. -/
theorem page_eq_of_withoutHidden_eq_soup :
    let soup : Dish := ⟨[], "Soup".toList, [], ⟨0⟩, [], [], true, [], []⟩
    let secret : Dish := ⟨[], "Secret".toList, [], ⟨0⟩, [], [], false, [], []⟩
    let tag (kind : Template.TagKind) (name : String) : Text := Template.Tag.text ⟨kind, name.toList⟩
    let template := tag .opening "categories" ++ tag .opening "items" ++ tag .value "itemName" ++
      tag .closing "items" ++ tag .closing "categories"
    let menu (starters mains : List Dish) : Menu :=
      ⟨"m".toList, [], [⟨[], "Starters".toList, [], starters⟩, ⟨[], "Mains".toList, [], mains⟩],
        false, [], some template⟩
    let v : Viewer := ⟨"Sol".toList, [menu [secret, soup] [secret]], .spanish⟩
    let w : Viewer := ⟨"Sol".toList, [menu [soup] []], .spanish⟩
    v.restaurant = w.restaurant ∧ v.wording = w.wording ∧
      v.menus.map Menu.withoutHidden = w.menus.map Menu.withoutHidden ∧
      v.page (some "m".toList) = w.page (some "m".toList) := by
  intro soup secret tag template menu v w
  have hmenus : v.menus.map Menu.withoutHidden = w.menus.map Menu.withoutHidden := rfl
  exact ⟨rfl, rfl, hmenus, page_eq_of_withoutHidden_eq rfl rfl hmenus _⟩

end Viewer

end MenuPages
