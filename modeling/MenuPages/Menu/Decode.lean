import MenuPages.Json.Record
import MenuPages.Menu.Basic
import MenuPages.Menu.Wording
import MenuPages.Text.Utf8

/-!
# Menus and wordings from JSON

How menus and wordings are written in JSON: which members each kind of record has, under which keys
and in which order, and which of them may be left out. A wording starts from the Spanish texts, so
texts that are left out stay as they are there.
-/

namespace MenuPages

open Json

/-- How a dish is written. -/
def Dish.record : Record Dish where
  name := "Dish".toList
  blank := ⟨[], [], [], ⟨0⟩, [], [], false, [], []⟩
  members :=
    [.required "id" .text fun a d => { d with id := a },
      .required "name" .text fun a d => { d with name := a },
      .optional "description" .text fun a d => { d with description := a },
      .required "price" .number fun a d => { d with price := a },
      .required "currency" .text fun a d => { d with currency := a },
      .optional "thumbnail" .text fun a d => { d with thumbnail := a },
      .required "isVisible" .flag fun a d => { d with isVisible := a },
      .optional "labels" (.list .text) fun a d => { d with labels := a },
      .optional "allergens" (.list .text) fun a d => { d with allergens := a }]

/-- How a category is written. -/
def Category.record : Record Category where
  name := "MenuDetailCategory".toList
  blank := ⟨[], [], [], []⟩
  members :=
    [.required "id" .text fun a c => { c with id := a },
      .required "name" .text fun a c => { c with name := a },
      .optional "description" .text fun a c => { c with description := a },
      .optional "dishes" (.list Dish.record.reader) fun a c => { c with dishes := a }]

/-- How a menu is written. -/
def Menu.record : Record Menu where
  name := "RestaurantMenuDetail".toList
  blank := ⟨[], [], [], false, [], none⟩
  members :=
    [.required "id" .text fun a m => { m with id := a },
      .required "name" .text fun a m => { m with name := a },
      .optional "categories" (.list Category.record.reader) fun a m => { m with categories := a },
      .optional "isDefault" .flag fun a m => { m with isDefault := a },
      .optional "createdAt" .text fun a m => { m with createdAt := a },
      .optional "htmlContent" .optionalText fun a m => { m with htmlContent := a }]

/-- How a wording is written. -/
def Wording.record : Record Wording where
  name := "ViewerText".toList
  blank := Wording.spanish
  members :=
    [.optional "noCategories" .text fun a w => { w with noCategories := a },
      .optional "comingSoon" .text fun a w => { w with comingSoon := a },
      .optional "allergensPrefix" .text fun a w => { w with allergensPrefix := a },
      .optional "backToMenus" .text fun a w => { w with backToMenus := a },
      .optional "back" .text fun a w => { w with back := a },
      .optional "noMenusTitle" .text fun a w => { w with noMenusTitle := a },
      .optional "noMenusDetail" .text fun a w => { w with noMenusDetail := a },
      .optional "categorySingular" .text fun a w => { w with categorySingular := a },
      .optional "categoryPlural" .text fun a w => { w with categoryPlural := a },
      .optional "dishSingular" .text fun a w => { w with dishSingular := a },
      .optional "dishPlural" .text fun a w => { w with dishPlural := a },
      .optional "emptyMenu" .text fun a w => { w with emptyMenu := a }]

/-! ## Reading -/

/-- Why nothing could be read. -/
inductive LoadError where
  /-- The text is no JSON, or says something else than was asked for. -/
  | json (source : Text) (fault : Fault)
  /-- There is no file. -/
  | fileNotFound
  /-- The bytes of the file encode no text. -/
  | notUtf8

namespace LoadError

/-- Whether the text or the way to it is to blame. -/
def kind : LoadError → Text
  | json .. => "Json".toList
  | fileNotFound => "Io".toList
  | notUtf8 => "Io".toList

def message : LoadError → Text
  | json source fault => "Invalid menu json: ".toList ++ fault.message source
  | fileNotFound => "Failed to read input: No such file or directory (os error 2)".toList
  | notUtf8 => "Failed to read input: stream did not contain valid UTF-8".toList

end LoadError

/-- Reads a text with a reader. -/
def load {α : Type} (r : Reader α) (source : Text) : Except LoadError α :=
  (r.decode source).mapError (.json source)

/-- Reads a menu. -/
def Menu.ofJson (source : Text) : Except LoadError Menu := load Menu.record.reader source

/-- Reads a list of menus. -/
def Menu.listOfJson (source : Text) : Except LoadError (List Menu) :=
  load (.list Menu.record.reader) source

/-- Reads a wording. -/
def Wording.ofJson (source : Text) : Except LoadError Wording := load Wording.record.reader source

/-- Reads a wording from the bytes of a file, or from no file. -/
def Wording.ofFile : Option (List UInt8) → Except LoadError Wording
  | none => .error .fileNotFound
  | some bytes =>
    match Text.decode? bytes with
    | none => .error .notUtf8
    | some source => Wording.ofJson source

end MenuPages
