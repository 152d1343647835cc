import MenuPages.Text.Basic

/-!
# Scopes

Which sections a template may open where. A section repeats its body, once for each of the things
it is named for, and its body is a scope of its own. The two lists of an item may also be opened
inside each other.
-/

namespace MenuPages.Template

/-- What a template may repeat a part of itself for. -/
inductive Section where
  | categories
  | items
  | itemLabels
  | itemAllergens
  deriving DecidableEq, Repr

namespace Section

/-- The name by which a template opens the section. -/
def name : Section → Text
  | categories => "categories".toList
  | items => "items".toList
  | itemLabels => "itemLabels".toList
  | itemAllergens => "itemAllergens".toList

def all : List Section := [categories, items, itemLabels, itemAllergens]

/-- The section that goes by a name. -/
def ofName? (name : Text) : Option Section := all.find? fun s => s.name == name

theorem ofName?_name (s : Section) : ofName? s.name = some s := by
  cases s <;> decide

theorem name_of_ofName? {name : Text} {s : Section} (h : ofName? name = some s) : s.name = name := by
  simpa using List.find?_some h

end Section

/-- Where in a template a tag stands. -/
inductive Scope where
  /-- A template in which no section may be opened. -/
  | bare
  /-- A template outside of all sections. -/
  | page
  | category
  | item
  | label
  | allergen
  deriving DecidableEq, Repr

/-- The scope inside a section, if it may be opened here. -/
def Scope.inside? : Scope → Section → Option Scope
  | .page, .categories => some .category
  | .category, .items => some .item
  | .item, .itemLabels => some .label
  | .allergen, .itemLabels => some .label
  | .item, .itemAllergens => some .allergen
  | .label, .itemAllergens => some .allergen
  | _, _ => none

/-- The section that an opening tag of this name opens here, and the scope inside it. -/
def Scope.opens? (scope : Scope) (name : Text) : Option (Section × Scope) :=
  (Section.ofName? name).bind fun s => (scope.inside? s).map fun inner => (s, inner)

end MenuPages.Template
