import MenuPages.Document.Split
import MenuPages.Menu.Listing
import MenuPages.Viewer.Layout

/-!
# What a diner sees

The menus of a restaurant, and the page to show for a choice among them: the chosen menu, or the
only one, with its own page or in the built-in layout; else the selector; and if there are no menus,
a page that says so.
-/

namespace MenuPages

/-- A menu with a page of its own, ready for a host page. -/
structure CustomMenu where
  menuId : Text
  /-- For the head of the host page. -/
  head : Text
  /-- To be shown in the host page. -/
  body : Text
  /-- The menu's page is a whole document. -/
  isFullDocument : Bool
  /-- There are other menus to go back to. -/
  showBack : Bool
  backLabel : Text
  deriving DecidableEq, Repr

/-- A page to show. -/
inductive MenuPage where
  /-- The restaurant has no menus. -/
  | empty (html : Text)
  /-- A menu is to be chosen. -/
  | selector (entries : List SelectorEntry) (html : Text)
  /-- A menu in the built-in layout. -/
  | builtin (html : Text)
  /-- A menu with a page of its own. -/
  | custom (menu : CustomMenu)
  deriving DecidableEq, Repr

/-- The published menus of a restaurant. -/
structure Viewer where
  restaurant : Text
  menus : List Menu
  wording : Wording
  deriving DecidableEq

namespace Viewer

/-- The menu that is shown without asking: the chosen one, or the only one. A choice that is no
menu's id is no choice. -/
def defaultMenu? (v : Viewer) (selected : Option Text) : Option Menu :=
  (selected.bind fun id => v.menus.find? fun m => m.id == id).or
    (match v.menus with
      | [only] => some only
      | _ => none)

/-- The entries of the selector, one for each menu in order. -/
def entries (v : Viewer) : List SelectorEntry := v.menus.map fun m => m.entry v.wording

/-- There are other menus to go back to. -/
def showsBack (v : Viewer) : Bool := 2 ≤ v.menus.length

/-- A menu with a page of its own, filled in and split. A body without content gives way to the
whole page. -/
def customMenu (v : Viewer) (m : Menu) (template : Text) : CustomMenu × List Event :=
  let (html, events) := fillIn template v.restaurant (some m)
  let parts := Document.split html
  ({ menuId := m.id
     head := parts.head
     body := if parts.body.isEmpty then html else parts.body
     isFullDocument := Document.isFull html
     showBack := v.showsBack
     backLabel := v.wording.back }, events)

/-- The page of one menu. -/
def menuPage (v : Viewer) (m : Menu) : MenuPage × List Event :=
  match m.customHtml? with
  | some template =>
    let (menu, events) := v.customMenu m template
    (.custom menu, .customMenu m.id :: events)
  | none =>
    (.builtin (Layout.menuPage v.restaurant m v.showsBack v.wording), [.builtinMenu m.id])

/-- The page to show when this menu is chosen. -/
def page (v : Viewer) (selected : Option Text) : MenuPage × List Event :=
  if v.menus.isEmpty then
    (.empty (Layout.emptyPage v.restaurant v.wording), [.noMenus v.restaurant])
  else
    match v.defaultMenu? selected with
    | none => (.selector v.entries (Layout.selectorPage v.restaurant v.entries), [])
    | some m => v.menuPage m

end Viewer

end MenuPages
