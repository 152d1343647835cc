import MenuPages.Menu.Basic
import MenuPages.Menu.Wording

/-!
# Entries of the menu selector
-/

namespace MenuPages

/-- A menu as the selector lists it. -/
structure SelectorEntry where
  menuId : Text
  name : Text
  categoryCount : Nat
  /-- Only the dishes that diners can see. -/
  dishCount : Nat
  /-- What is on the menu, in a few words. -/
  summary : Text
  deriving DecidableEq, Repr

/-- What is on a menu of so many categories and dishes, in a few words. -/
def Wording.summary (w : Wording) (categoryCount dishCount : Nat) : Text :=
  if categoryCount = 0 then w.emptyMenu
  else if dishCount = 0 then w.categories categoryCount
  else w.categories categoryCount ++ " · ".toList ++ w.dishes dishCount

/-- A menu as the selector lists it. -/
def Menu.entry (m : Menu) (w : Wording) : SelectorEntry where
  menuId := m.id
  name := m.name
  categoryCount := m.categories.length
  dishCount := m.visibleDishCount
  summary := w.summary m.categories.length m.visibleDishCount

end MenuPages
