import MenuPages.Template.Token

/-!
# Events

What happened while a page was made, for the application to collect: nothing is printed here. Each
event has a level, a message and fields. Events come in the order in which things happened.
-/

namespace MenuPages

/-- How much an event matters. -/
inductive Level where
  | trace
  | debug
  deriving DecidableEq, Repr

def Level.name : Level → Text
  | .trace => "TRACE".toList
  | .debug => "DEBUG".toList

/-- The value of a field of an event. -/
inductive FieldValue where
  | text (s : Text)
  | number (n : Nat)
  deriving DecidableEq, Repr

inductive Event where
  /-- An opening tag of a section that nothing closes was left as text. -/
  | neverClosed (name : Text) (line : Nat)
  /-- A closing tag that closes nothing was left as text. -/
  | strayClosing (name : Text) (line : Nat)
  /-- So many elements were put into the head for a menu. -/
  | injected (menuId : Text) (count : Nat)
  /-- The elements of a menu were taken out of the head. -/
  | removed (menuId : Text)
  /-- A restaurant has no menus. -/
  | noMenus (restaurant : Text)
  /-- A menu with a page of its own is shown. -/
  | customMenu (menuId : Text)
  /-- A menu is shown in the built-in layout. -/
  | builtinMenu (menuId : Text)
  deriving DecidableEq, Repr

namespace Event

def level : Event → Level
  | neverClosed .. => .trace
  | strayClosing .. => .trace
  | injected .. => .debug
  | removed .. => .debug
  | noMenus .. => .debug
  | customMenu .. => .debug
  | builtinMenu .. => .debug

def message : Event → Text
  | neverClosed name _ => "Section \"".toList ++ name ++ "\" is never closed".toList
  | strayClosing name _ => "Stray closing tag ".toList ++ (⟨.closing, name⟩ : Template.Tag).text
  | injected .. => "Injected head elements".toList
  | removed .. => "Removed injected head elements".toList
  | noMenus .. => "No menus to show".toList
  | customMenu .. => "Showing custom html menu".toList
  | builtinMenu .. => "Showing built-in menu".toList

def fields : Event → List (Text × FieldValue)
  | neverClosed _ line => [("line".toList, .number line)]
  | strayClosing _ line => [("line".toList, .number line)]
  | injected menuId count => [("menu_id".toList, .text menuId), ("count".toList, .number count)]
  | removed menuId => [("menu_id".toList, .text menuId)]
  | noMenus restaurant => [("restaurant".toList, .text restaurant)]
  | customMenu menuId => [("menu_id".toList, .text menuId)]
  | builtinMenu menuId => [("menu_id".toList, .text menuId)]

end Event

end MenuPages
