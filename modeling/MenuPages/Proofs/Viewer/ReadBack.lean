import MenuPages.Proofs.Viewer.Lines
import MenuPages.Viewer.Page

/-!
# The built-in page read back

What a page in the built-in layout shows, as data (`ShownMenu`), and a reader that gets it out of
the nodes of a page (`readMenu`). The reader knows the tags of the layout and nothing of menus; it
takes no page that has anything else in it than what it asks for.

**The law** (`Viewer.page_builtin_read_back`): a page in the built-in layout is well-formed markup
of which only the tags of the layout (`Layout.tags`) have angle brackets, and is read back as what
the menu is (`Viewer.shown`). This is so whatever the texts of the menu and of the wording are: none
of them can look like a tag, and each is where it belongs.

The reader is followed part by part. Each part of the layout is one element on a line of its own,
which is read as what is shown of it: a dish (`exists_lines_dish`), a category
(`exists_lines_category`), the categories of a menu (`exists_lines_menuSection`) and the page
(`readMenu_menuTrees`). Optional parts have no place of their own; what tells them apart is that no
two of them have one tag.
-/

namespace MenuPages

open Markup

/-! ## What is shown -/

/-- A dish on a page. -/
structure ShownDish where
  name : Text
  price : Text
  description : Option Text
  labels : Option (List Text)
  allergens : Option Text
  deriving DecidableEq

/-- What a category has to offer. -/
inductive Offer where
  | comingSoon (s : Text)
  | dishes (ds : List ShownDish)
  deriving DecidableEq

/-- A category on a page. -/
structure ShownCategory where
  name : Text
  offer : Offer
  deriving DecidableEq

/-- A menu on a page. -/
structure ShownMenu where
  back : Option Text
  restaurant : Text
  noCategories : Option Text
  categories : List ShownCategory
  deriving DecidableEq

/-- What diners see of a dish. -/
def Dish.shown (w : Wording) (d : Dish) : ShownDish where
  name := d.name
  price := Price.format d.price d.currency
  description := if d.description = [] then none else some d.description
  labels := if d.labels = [] then none else some d.labels
  allergens :=
    if d.allergens = [] then none
    else some (w.allergensPrefix ++ ' ' :: ", ".toList.intercalate d.allergens)

/-- What diners see of a category. -/
def Category.shown (w : Wording) (c : Category) : ShownCategory where
  name := c.name
  offer :=
    let visible := c.dishes.filter Dish.isVisible
    if visible = [] then .comingSoon w.comingSoon else .dishes (visible.map (Dish.shown w))

/-- What diners see of a menu. -/
def Viewer.shown (v : Viewer) (m : Menu) : ShownMenu where
  back := if 2 ≤ v.menus.length then some v.wording.backToMenus else none
  restaurant := v.restaurant
  noCategories := if m.categories = [] then some v.wording.noCategories else none
  categories := m.categories.map (Category.shown v.wording)

/-! ## Reading -/

/-- The tags of the layout. -/
def Layout.tags : List Text :=
  ["div class=\"menu-page\"".toList,
    "button type=\"button\" class=\"menu-back\" data-menu-back".toList,
    "h1 class=\"menu-restaurant\"".toList, "div class=\"menu-section\"".toList,
    "p class=\"menu-empty\"".toList, "div class=\"menu-category\"".toList, "h2".toList,
    "p class=\"menu-coming-soon\"".toList, "div class=\"menu-dishes\"".toList,
    "article class=\"menu-dish\"".toList, "div class=\"menu-dish-header\"".toList, "h3".toList,
    "p class=\"menu-dish-price\"".toList, "p class=\"menu-dish-description\"".toList,
    "div class=\"menu-dish-labels\"".toList, "span class=\"menu-label\"".toList,
    "p class=\"menu-dish-allergens\"".toList]

open Markup.Node

/-- Reads the labels of a dish. -/
def readLabels (n : Node) : Option (List Text) :=
  (n.inside? "div class=\"menu-dish-labels\"").bind fun ns =>
    ns.mapM fun n => n.textIn? "span class=\"menu-label\""

/-- Reads a dish. -/
def readDish (n : Node) : Option ShownDish :=
  match n.parts? "article class=\"menu-dish\"" with
  | some (header :: parts) =>
    let (description, parts) := optionally (textIn? "p class=\"menu-dish-description\"") parts
    let (labels, parts) := optionally readLabels parts
    let (allergens, parts) := optionally (textIn? "p class=\"menu-dish-allergens\"") parts
    match header.inside? "div class=\"menu-dish-header\"", parts with
    | some [heading, amount], [] => do
      let name ← heading.textIn? "h3"
      let price ← amount.textIn? "p class=\"menu-dish-price\""
      return { name, price, description, labels, allergens }
    | _, _ => none
  | _ => none

/-- Reads the dishes of a category, or what is said where there are none. -/
def readOffer (n : Node) : Option Offer :=
  match n.textIn? "p class=\"menu-coming-soon\"" with
  | some s => some (.comingSoon s)
  | none => ((n.parts? "div class=\"menu-dishes\"").bind fun ns => ns.mapM readDish).map .dishes

/-- Reads a category. -/
def readCategory (n : Node) : Option ShownCategory :=
  match n.parts? "div class=\"menu-category\"" with
  | some [heading, dishes] => do
    let name ← heading.textIn? "h2"
    let offer ← readOffer dishes
    return { name, offer }
  | _ => none

/-- Reads the categories of a menu, and what is said where there are none. -/
def readSection (n : Node) : Option (Option Text × List ShownCategory) := do
  let (noCategories, parts) := optionally (textIn? "p class=\"menu-empty\"")
    (← n.parts? "div class=\"menu-section\"")
  let categories ← parts.mapM readCategory
  return (noCategories, categories)

/-- Reads a page. -/
def readMenu (ns : List Node) : Option ShownMenu := do
  let [page] := ns.filter fun n => !n.isBreak | none
  let (back, parts) := optionally
    (textIn? "button type=\"button\" class=\"menu-back\" data-menu-back")
    (← page.parts? "div class=\"menu-page\"")
  let [heading, menu] := parts | none
  let restaurant ← heading.textIn? "h1 class=\"menu-restaurant\""
  let (noCategories, categories) ← readSection menu
  return { back, restaurant, noCategories, categories }

/-! ## A dish -/

namespace Layout

open Tree

/-- The name and the price of a dish. -/
def dishHeader (d : Dish) : Tree :=
  classed "div".toList "menu-dish-header".toList
    [.element "h3".toList [] [.text d.name],
      classed "p".toList "menu-dish-price".toList [.text (Price.format d.price d.currency)]]

/-- The description of a dish. -/
def dishDescription (d : Dish) : Tree :=
  classed "p".toList "menu-dish-description".toList [.text d.description]

/-- The labels of a dish. -/
def dishLabels (d : Dish) : Tree :=
  classed "div".toList "menu-dish-labels".toList
    (d.labels.map fun label => classed "span".toList "menu-label".toList [.text label])

/-- The allergens of a dish. -/
def dishAllergens (w : Wording) (d : Dish) : Tree :=
  classed "p".toList "menu-dish-allergens".toList
    [.text w.allergensPrefix, .text [' '], .text (", ".toList.intercalate d.allergens)]

/-- The parts of a dish, each on a line of its own. -/
def dishParts (w : Wording) (d : Dish) : List Tree :=
  [dishHeader d, newline] ++ (lineIf (!d.description.isEmpty) (dishDescription d) ++
    (lineIf (!d.labels.isEmpty) (dishLabels d) ++
      lineIf (!d.allergens.isEmpty) (dishAllergens w d)))

theorem dish_eq (w : Wording) (d : Dish) :
    dish w d =
      [classed "article".toList "menu-dish".toList (newline :: dishParts w d), newline] := by
  simp [dish, dishParts, dishHeader, dishDescription, dishLabels, dishAllergens]

end Layout

open Layout

theorem textIn?_dishDescription (d : Dish) :
    textIn? "p class=\"menu-dish-description\"" (dishDescription d).node = some d.description :=
  textIn?_text (by rfl) _

theorem readLabels_dishLabels (d : Dish) : readLabels (dishLabels d).node = some d.labels := by
  rw [readLabels, dishLabels, Tree.classed, inside?_element (by rfl), Option.bind_some]
  induction d.labels with
  | nil =>
    rw [List.map_nil, Tree.nodes]
    rfl
  | cons label labels ih =>
    have hlabel : textIn? "span class=\"menu-label\""
        (Tree.classed "span".toList "menu-label".toList [.text label]).node = some label :=
      textIn?_text (by rfl) label
    rw [List.map_cons, Tree.nodes_cons (by trivial), List.mapM_cons, hlabel, ih]
    rfl

theorem textIn?_dishAllergens (w : Wording) (d : Dish) :
    textIn? "p class=\"menu-dish-allergens\"" (dishAllergens w d).node =
      some (w.allergensPrefix ++ ' ' :: ", ".toList.intercalate d.allergens) := by
  rw [← List.append_nil (", ".toList.intercalate d.allergens)]
  exact textIn?_element (by rfl) [w.allergensPrefix, [' '], ", ".toList.intercalate d.allergens]

theorem inside?_dishHeader (d : Dish) :
    ∃ heading amount,
      (dishHeader d).node.inside? "div class=\"menu-dish-header\"" = some [heading, amount] ∧
        heading.textIn? "h3" = some d.name ∧
        amount.textIn? "p class=\"menu-dish-price\"" =
          some (Price.format d.price d.currency) := by
  refine ⟨(Tree.element "h3".toList [] [.text d.name]).node,
    (Tree.classed "p".toList "menu-dish-price".toList
      [.text (Price.format d.price d.currency)]).node,
    ?_, textIn?_text (by rfl) _, textIn?_text (by rfl) _⟩
  rw [dishHeader, Tree.classed, inside?_element (by rfl), Tree.nodes_cons (by trivial),
    Tree.nodes_cons (by trivial), Tree.nodes]

/-- What is behind the description of a dish is not taken for one. -/
theorem textIn?_behind_dishDescription (w : Wording) (d : Dish) :
    ∀ n ∈ (if !d.labels.isEmpty then [(dishLabels d).node] else []) ++
        (if !d.allergens.isEmpty then [(dishAllergens w d).node] else []),
      n.textIn? "p class=\"menu-dish-description\"" = none := by
  rw [List.forall_mem_append]
  constructor
  · exact none_of_mem_ite (textIn?_of_ne (by decide) _) _
  · exact none_of_mem_ite (textIn?_of_ne (by decide) _) _

/-- What is behind the labels of a dish is not taken for them. -/
theorem readLabels_behind_dishLabels (w : Wording) (d : Dish) :
    ∀ n ∈ (if !d.allergens.isEmpty then [(dishAllergens w d).node] else []),
      readLabels n = none :=
  none_of_mem_ite (by rfl) _

theorem some_unless_isEmpty {α β : Type} (l : List α) (b : β) :
    (if (!l.isEmpty) = true then some b else none) = if l = [] then none else some b := by
  cases l <;> rfl

theorem exists_lines_dish (w : Wording) (d : Dish) :
    ∃ n, Lines (dish w d) [n] ∧ readDish n = some (d.shown w) := by
  have hparts := (Lines.single (t := dishHeader d) trivial).append
    ((Lines.lineIf (t := dishDescription d) trivial (!d.description.isEmpty)).append
      ((Lines.lineIf (t := dishLabels d) trivial (!d.labels.isEmpty)).append
        (Lines.lineIf (t := dishAllergens w d) trivial (!d.allergens.isEmpty))))
  obtain ⟨heading, amount, hheader, hname, hprice⟩ := inside?_dishHeader d
  rw [dish_eq]
  refine ⟨_, .single trivial, ?_⟩
  rw [readDish, Tree.classed, dishParts, parts?_element (by rfl) hparts]
  simp only [List.cons_append, List.nil_append]
  -- the optional parts come off the front one by one, each only where it is there
  rw [optionally_append (textIn?_dishDescription d) (textIn?_behind_dishDescription w d)]
  dsimp only
  rw [optionally_append (readLabels_dishLabels d) (readLabels_behind_dishLabels w d)]
  dsimp only
  rw [optionally_single (textIn?_dishAllergens w d), hheader]
  dsimp only
  rw [hname, hprice, some_unless_isEmpty, some_unless_isEmpty, some_unless_isEmpty]
  rfl

/-! ## A category -/

theorem exists_lines_categoryDishes (w : Wording) (c : Category) :
    ∃ n, Lines (categoryDishes w c.visibleDishes) [n] ∧ readOffer n = some (c.shown w).offer := by
  have hvisible : c.dishes.filter Dish.isVisible = c.visibleDishes := rfl
  rw [Category.shown, hvisible]
  cases c.visibleDishes with
  | nil =>
    refine ⟨_, .single trivial, ?_⟩
    rw [readOffer, Tree.classed, textIn?_text (by rfl)]
    rfl
  | cons d ds =>
    obtain ⟨ns, hns, -, hread⟩ := Lines.flatMap (exists_lines_dish w) (d :: ds)
    refine ⟨_, .single trivial, ?_⟩
    rw [readOffer, Tree.classed, textIn?_of_ne (by decide), parts?_element (by rfl) hns]
    simp [hread]

theorem exists_lines_category (w : Wording) (c : Category) :
    ∃ n, Lines (category w c) [n] ∧ readCategory n = some (c.shown w) := by
  obtain ⟨n, hn, hoffer⟩ := exists_lines_categoryDishes w c
  have hname : textIn? "h2" (Tree.element "h2".toList [] [.text c.name]).node = some c.name :=
    textIn?_text (by rfl) c.name
  have hparts := (Lines.single (t := .element "h2".toList [] [.text c.name]) trivial).append hn
  refine ⟨_, .single trivial, ?_⟩
  rw [readCategory, Tree.classed, List.cons_append, parts?_element (by rfl) hparts]
  simp only [List.singleton_append, hname, hoffer]
  rfl

/-! ## A menu -/

namespace Layout

/-- The way back to the other menus. -/
def backButton (w : Wording) : Tree :=
  button "menu-back".toList ⟨"data-menu-back".toList, none⟩ [.text w.backToMenus]

/-- What is said of a menu without categories. -/
def noCategories (w : Wording) : Tree :=
  Tree.classed "p".toList "menu-empty".toList [.text w.noCategories]

/-- The name of the restaurant. -/
def restaurantName (name : Text) : Tree :=
  Tree.classed "h1".toList "menu-restaurant".toList [.text name]

/-- What is printed as the page of a menu. -/
def menuTrees (restaurant : Text) (m : Menu) (showBack : Bool) (w : Wording) : List Tree :=
  [Tree.classed "div".toList "menu-page".toList
    (Tree.newline ::
      (lineIf showBack (backButton w) ++
        ([restaurantName restaurant, Tree.newline] ++ menuSection w m))),
    Tree.newline]

end Layout

/-- A category is not taken for the remark that there are none. -/
theorem textIn?_of_readCategory {n : Node} {c : ShownCategory} (h : readCategory n = some c) :
    n.textIn? "p class=\"menu-empty\"" = none := by
  unfold readCategory at h
  split at h
  · next heading dishes hparts => exact textIn?_of_parts? hparts (by decide)
  · nomatch h

theorem textIn?_noCategories (w : Wording) :
    (noCategories w).node.textIn? "p class=\"menu-empty\"" = some w.noCategories :=
  textIn?_text (by rfl) _

theorem exists_lines_menuSection (w : Wording) (m : Menu) :
    ∃ n, Lines (menuSection w m) [n] ∧ readSection n =
      some (if m.categories = [] then some w.noCategories else none,
        m.categories.map (Category.shown w)) := by
  obtain ⟨ns, hns, hall, hread⟩ := Lines.flatMap (exists_lines_category w) m.categories
  have hparts := (Lines.lineIf (t := noCategories w) trivial m.categories.isEmpty).append hns
  have hrest : ∀ n ∈ ns, n.textIn? "p class=\"menu-empty\"" = none := by
    intro n hn
    obtain ⟨c, hc⟩ := hall n hn
    exact textIn?_of_readCategory hc
  refine ⟨_, .single trivial, ?_⟩
  rw [readSection, Tree.classed, ← noCategories, parts?_element (by rfl) hparts]
  simp only [Option.bind_eq_bind, Option.bind_some]
  rw [optionally_append (textIn?_noCategories w) hrest, hread]
  simp only [List.isEmpty_iff]
  rfl

theorem textIn?_backButton (w : Wording) :
    (backButton w).node.textIn? "button type=\"button\" class=\"menu-back\" data-menu-back" =
      some w.backToMenus :=
  textIn?_text (by rfl) _

theorem textIn?_restaurantName (name : Text) :
    (restaurantName name).node.textIn? "h1 class=\"menu-restaurant\"" = some name :=
  textIn?_text (by rfl) _

/-- The categories are not taken for the way back. -/
theorem textIn?_of_readSection {n : Node} {r : Option Text × List ShownCategory}
    (h : readSection n = some r) :
    n.textIn? "button type=\"button\" class=\"menu-back\" data-menu-back" = none := by
  obtain ⟨ns, hparts, -⟩ := Option.bind_eq_some_iff.mp h
  exact textIn?_of_parts? hparts (by decide)

theorem readMenu_menuTrees (v : Viewer) (m : Menu) :
    readMenu (Tree.nodes (menuTrees v.restaurant m v.showsBack v.wording)) = some (v.shown m) := by
  obtain ⟨menu, hmenu, hsection⟩ := exists_lines_menuSection v.wording m
  have hparts := (Lines.lineIf (t := backButton v.wording) trivial v.showsBack).append
    ((Lines.single (t := restaurantName v.restaurant) trivial).append hmenu)
  have hrest : ∀ n ∈ [(restaurantName v.restaurant).node] ++ [menu],
      n.textIn? "button type=\"button\" class=\"menu-back\" data-menu-back" = none := by
    rw [List.forall_mem_append, List.forall_mem_singleton, List.forall_mem_singleton]
    exact ⟨textIn?_of_ne (by decide) _, textIn?_of_readSection hsection⟩
  rw [readMenu, menuTrees, (Lines.single (by trivial)).filter_nodes.1]
  dsimp only
  rw [Tree.classed, parts?_element (by rfl) hparts]
  simp only [Option.bind_eq_bind, Option.bind_some]
  rw [optionally_append (textIn?_backButton v.wording) hrest]
  simp only [List.singleton_append, textIn?_restaurantName, hsection, Option.bind_some]
  simp [Viewer.shown, Viewer.showsBack]

/-! ## The tags of a page -/

namespace Layout

open Tree

/-- The tags of what is inside of a dish. -/
def dishPartTags : List Text :=
  ["div class=\"menu-dish-header\"".toList, "h3".toList, "p class=\"menu-dish-price\"".toList,
    "p class=\"menu-dish-description\"".toList, "div class=\"menu-dish-labels\"".toList,
    "span class=\"menu-label\"".toList, "p class=\"menu-dish-allergens\"".toList]

theorem uses_dishParts (w : Wording) (d : Dish) : Uses dishPartTags (newline :: dishParts w d) := by
  have hheader : Uses dishPartTags [dishHeader d, newline] := by
    refine Uses.line (Uses.element ?_ (uses_nil.text _))
    exact uses_nil.element (uses_nil.text _)
  have hdescription : Uses dishPartTags [dishDescription d, newline] := (uses_nil.text _).line
  have hlabels : Uses dishPartTags [dishLabels d, newline] := by
    refine Uses.line ?_
    induction d.labels with
    | nil => exact uses_nil
    | cons label labels ih => exact ih.element (uses_nil.text label)
  have hallergens : Uses dishPartTags [dishAllergens w d, newline] :=
    (((uses_nil.text _).text _).text _).line
  exact (hheader.append ((hdescription.lineIf _).append
    ((hlabels.lineIf _).append (hallergens.lineIf _)))).text _

theorem uses_dish (w : Wording) (d : Dish) : Uses tags (dish w d) := by
  have hparts : dishPartTags ⊆ tags := by decide
  rw [dish_eq]
  exact ((uses_dishParts w d).mono hparts).line

theorem uses_category (w : Wording) (c : Category) : Uses tags (category w c) := by
  have hdishes : Uses tags (categoryDishes w c.visibleDishes) := by
    cases c.visibleDishes with
    | nil => exact (uses_nil.text _).line
    | cons d ds => exact ((uses_flatMap (uses_dish w) (d :: ds)).text _).line
  have hname : Uses tags [.element "h2".toList [] [.text c.name], newline] :=
    (uses_nil.text _).line
  exact ((hname.append hdishes).text _).line

theorem uses_menuTrees (restaurant : Text) (m : Menu) (showBack : Bool) (w : Wording) :
    Uses tags (menuTrees restaurant m showBack w) := by
  have hback : Uses tags [backButton w, newline] := (uses_nil.text _).line
  have hname : Uses tags [restaurantName restaurant, newline] := (uses_nil.text _).line
  have hempty : Uses tags [noCategories w, newline] := (uses_nil.text _).line
  have hcategories := uses_flatMap (uses_category w) m.categories
  have hsection : Uses tags (menuSection w m) :=
    (((hempty.lineIf _).append hcategories).text _).line
  exact (((hback.lineIf _).append (hname.append hsection)).text _).line

theorem isOpeningTag_of_mem_tags : ∀ tag ∈ tags, IsOpeningTag tag := by
  unfold IsOpeningTag
  decide

theorem menuPage_eq (restaurant : Text) (m : Menu) (showBack : Bool) (w : Wording) :
    menuPage restaurant m showBack w = printAll (menuTrees restaurant m showBack w) := by
  rw [menuPage, page, List.append_assoc]
  rfl

end Layout

namespace Viewer

/-- A page in the built-in layout is that of the menu that is shown, which has none of its own. -/
theorem of_page_builtin {v : Viewer} {selected : Option Text} {html : Text}
    (h : (v.page selected).1 = .builtin html) :
    ∃ m, v.defaultMenu? selected = some m ∧ m.customHtml? = none ∧
      html = Layout.menuPage v.restaurant m v.showsBack v.wording := by
  unfold page at h
  split at h
  · nomatch h
  · split at h
    · nomatch h
    · next m hm =>
      unfold menuPage at h
      split at h
      · nomatch h
      · next hcustom => exact ⟨m, hm, hcustom, (MenuPage.builtin.inj h).symm⟩

/-- **A page in the built-in layout is read back.** It is the page of the menu that is shown.
Nothing of it is lost between tags and texts, all its angle brackets are those of the tags of the
layout, the tags are nested, and the texts between them, with their references decoded, are the
parts of the menu in order: each is there if and only if the menu has it. -/
theorem page_builtin_read_back {v : Viewer} {selected : Option Text} {html : Text}
    (h : (v.page selected).1 = .builtin html) :
    ∃ m, v.defaultMenu? selected = some m ∧ m.customHtml? = none ∧
      (lexemes html).flatMap Lexeme.raw = html ∧ (∀ l ∈ lexemes html, l.Within Layout.tags) ∧
      ∃ ns, nodes? html = some ns ∧ readMenu ns = some (v.shown m) := by
  obtain ⟨m, hm, hcustom, rfl⟩ := of_page_builtin h
  refine ⟨m, hm, hcustom, raw_lexemes _, ?_⟩
  have huses := Layout.uses_menuTrees v.restaurant m v.showsBack v.wording
  rw [Layout.menuPage_eq]
  exact ⟨within_lexemes_printAll Layout.isOpeningTag_of_mem_tags huses, _,
    nodes?_printAll Layout.isOpeningTag_of_mem_tags huses, readMenu_menuTrees v m⟩

/-- A menu with all that there can be, chosen from two. Its texts look like markup. -/
theorem page_builtin_read_back_markup :
    let soup : Dish := ⟨[], "</h3><script>".toList, "a < b & \"c\"".toList, ⟨0⟩, "EUR".toList, [],
      true, ["hot".toList, "&amp;".toList, []], ["milk".toList, "<egg>".toList]⟩
    let water : Dish := ⟨[], [], [], ⟨0⟩, [], [], true, [], []⟩
    let secret : Dish := ⟨[], "Secret".toList, [], ⟨0⟩, [], [], false, [], []⟩
    let lunch : Menu := ⟨"lunch".toList, "Lunch".toList,
      [⟨[], "</div>".toList, [], [soup, secret, water]⟩, ⟨[], "Mains".toList, [], [secret]⟩],
      false, [], none⟩
    let other : Menu := ⟨"other".toList, [], [], false, [], none⟩
    let v : Viewer := ⟨"<b>Sol</b>".toList, [other, lunch], .spanish⟩
    let html := Layout.menuPage v.restaurant lunch v.showsBack v.wording
    (v.page (some "lunch".toList)).1 = .builtin html ∧
      ∃ m, v.defaultMenu? (some "lunch".toList) = some m ∧ m.customHtml? = none ∧
        (lexemes html).flatMap Lexeme.raw = html ∧ (∀ l ∈ lexemes html, l.Within Layout.tags) ∧
        ∃ ns, nodes? html = some ns ∧ readMenu ns = some (v.shown m) := by
  intro soup water secret lunch other v html
  have hpage : (v.page (some "lunch".toList)).1 = .builtin html := rfl
  exact ⟨hpage, page_builtin_read_back hpage⟩

end Viewer

end MenuPages
