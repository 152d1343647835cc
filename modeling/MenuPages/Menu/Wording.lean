import MenuPages.Number.Digits

/-!
# Wording

The texts that diners see on pages that are not a restaurant's own.
-/

namespace MenuPages

structure Wording where
  /-- Shown for a menu without categories. -/
  noCategories : Text
  /-- Shown for a category without visible dishes. -/
  comingSoon : Text
  /-- Stands before the allergens of a dish. -/
  allergensPrefix : Text
  /-- The way back from a menu in the built-in layout. -/
  backToMenus : Text
  /-- The way back from a menu with a page of its own. -/
  back : Text
  noMenusTitle : Text
  noMenusDetail : Text
  categorySingular : Text
  categoryPlural : Text
  dishSingular : Text
  dishPlural : Text
  /-- The summary of a menu without categories. -/
  emptyMenu : Text
  deriving DecidableEq, Repr

namespace Wording

/-- The Spanish texts, which hold unless others are given. -/
def spanish : Wording where
  noCategories := "Todavía no hay categorías publicadas en este menú.".toList
  comingSoon := "Próximamente añadiremos platos en esta sección.".toList
  allergensPrefix := "Alérgenos:".toList
  backToMenus := "Volver a menús".toList
  back := "Volver".toList
  noMenusTitle := "Aún no hay menús publicados".toList
  noMenusDetail :=
    "El equipo está preparando la carta. ".toList ++
      "Vuelve a consultar este enlace en unos minutos.".toList
  categorySingular := "categoría".toList
  categoryPlural := "categorías".toList
  dishSingular := "plato".toList
  dishPlural := "platos".toList
  emptyMenu := "Menú vacío".toList

/-- A number of things, with the word for one or for several. -/
def counted (n : Nat) (singular plural : Text) : Text :=
  Digits.ofNat n ++ ' ' :: (if n = 1 then singular else plural)

/-- A number of categories. -/
def categories (w : Wording) (n : Nat) : Text := counted n w.categorySingular w.categoryPlural

/-- A number of dishes. -/
def dishes (w : Wording) (n : Nat) : Text := counted n w.dishSingular w.dishPlural

end Wording

end MenuPages
