import MenuPages.Proofs.Markup.Occurrences
import MenuPages.Proofs.Template.Canonical
import MenuPages.Proofs.Viewer.ReadBack

/-!
# How many dishes there are

Four parts of the library go through the dishes of a menu, and each leaves out by itself what diners
cannot see: the count in the selector, the built-in layout, the data of templates, and the sections
of a template that are repeated over these data. **The law** (`Menu.dishCounts_agree`): they all
come to the number of dishes of the menu that are visible.

In the layout a dish is counted by its opening tag, as a word of the page. That no text of the menu
is taken for one is what `Markup.occurrences_printAll` says. In a template it is counted by a text
in the sections of categories and items, which comes once for every dish. The templates' data leave
out a category without such dishes; these are the categories of which the layout has nothing to say
but that there is more to come, each in the block where the others have their dishes.
-/

namespace MenuPages

open Markup Text

/-! ## The layout -/

namespace Layout

open Tree

/-- What is between the brackets of the tag that opens a category. -/
def categoryTag : Text := "div class=\"menu-category\"".toList

/-- What is between the brackets of the tag that opens a dish. -/
def dishTag : Text := "article class=\"menu-dish\"".toList

/-- What is between the brackets of the tag that opens the remark about a category without
dishes. -/
def comingSoonTag : Text := "p class=\"menu-coming-soon\"".toList

/-- What is printed of a category. -/
def categoryBlock (w : Wording) (c : Category) : Text := printAll (category w c)

/-- What is printed of a category that has its dishes still to come. -/
def comingSoonBlock (w : Wording) (c : Category) : Text :=
  "<div class=\"menu-category\">\n<h2>".toList ++ escape c.name ++
    "</h2>\n<p class=\"menu-coming-soon\">".toList ++ escape w.comingSoon ++
    "</p>\n</div>\n".toList

/-- The tags of what is around the categories of a page. -/
def pageTags : List Text :=
  ["div class=\"menu-page\"".toList,
    "button type=\"button\" class=\"menu-back\" data-menu-back".toList,
    "h1 class=\"menu-restaurant\"".toList, "div class=\"menu-section\"".toList,
    "p class=\"menu-empty\"".toList]

/-- A tag of the layout that is neither around the categories nor inside of a dish. -/
structure Counted (t : Text) : Prop where
  mem_tags : t ∈ tags
  notMem_pageTags : t ∉ pageTags
  notMem_dishPartTags : t ∉ dishPartTags

theorem counted_categoryTag : Counted categoryTag :=
  ⟨by decide +kernel, by decide +kernel, by decide +kernel⟩

theorem counted_dishTag : Counted dishTag :=
  ⟨by decide +kernel, by decide +kernel, by decide +kernel⟩

theorem counted_comingSoonTag : Counted comingSoonTag :=
  ⟨by decide +kernel, by decide +kernel, by decide +kernel⟩

theorem lt_notMem_of_mem_tags : ∀ tag ∈ tags, '<' ∉ tag := by decide +kernel

theorem tagged_dishes {t : Text} (ht : Counted t) (w : Wording) (ds : List Dish) :
    tagged t (ds.flatMap (dish w)) = if dishTag = t then ds.length else 0 := by
  induction ds with
  | nil => simp
  | cons d ds ih =>
    have hdish : tagged t (dish w d) = if dishTag = t then 1 else 0 := by
      rw [dish_eq, classed, tagged_line, (uses_dishParts w d).tagged_eq_zero ht.notMem_dishPartTags]
      rfl
    rw [List.flatMap_cons, tagged_append, hdish, ih]
    split <;> simp [Nat.add_comm]

/-- Inside of a category there is one remark, or there are as many dishes as can be seen. -/
theorem tagged_category {t : Text} (ht : Counted t) (w : Wording) (c : Category) :
    tagged t (category w c) =
      (if categoryTag = t then 1 else 0) + ((if "h2".toList = t then 1 else 0) +
        if c.visibleDishes = [] then (if comingSoonTag = t then 1 else 0)
        else (if "div class=\"menu-dishes\"".toList = t then 1 else 0) +
          if dishTag = t then c.visibleDishes.length else 0) := by
  have hdishes : tagged t (categoryDishes w c.visibleDishes) =
      if c.visibleDishes = [] then (if comingSoonTag = t then 1 else 0)
      else (if "div class=\"menu-dishes\"".toList = t then 1 else 0) +
        if dishTag = t then c.visibleDishes.length else 0 := by
    cases c.visibleDishes with
    | nil =>
      rw [categoryDishes, classed, tagged_line, tagged_text, tagged_nil]
      rfl
    | cons d ds =>
      rw [categoryDishes, classed, tagged_line, newline, tagged_text, tagged_dishes ht]
      rfl
  rw [category, classed, tagged_line, List.cons_append, newline, tagged_text, tagged_append,
    hdishes, ← newline, tagged_line, tagged_text, tagged_nil]
  rfl

theorem tagged_menuTrees {t : Text} (ht : Counted t) (restaurant : Text) (m : Menu)
    (showBack : Bool) (w : Wording) :
    tagged t (menuTrees restaurant m showBack w) =
      tagged t (m.categories.flatMap (category w)) := by
  have hback : Uses pageTags [backButton w, newline] := (uses_nil.text _).line
  have hname : Uses pageTags [restaurantName restaurant, newline] := (uses_nil.text _).line
  have hempty : Uses pageTags [noCategories w, newline] := (uses_nil.text _).line
  have hne {u : Text} (hu : u ∈ pageTags) : u ≠ t :=
    fun heq => ht.notMem_pageTags (heq ▸ hu)
  have hsection :
      tagged t (menuSection w m) = tagged t (m.categories.flatMap (category w)) := by
    rw [menuSection, ← noCategories, classed, tagged_line, if_neg (hne (by decide)), newline,
      tagged_text, tagged_append, (hempty.lineIf _).tagged_eq_zero ht.notMem_pageTags]
    simp only [Nat.zero_add]
  rw [menuTrees, classed, tagged_line, if_neg (hne (by decide)), newline, tagged_text,
    tagged_append, (hback.lineIf _).tagged_eq_zero ht.notMem_pageTags, tagged_append, ← newline,
    hname.tagged_eq_zero ht.notMem_pageTags, hsection]
  simp only [Nat.zero_add]

/-- A tag is counted in what is printed by the elements that have it. -/
theorem occurrences_printAll_of_uses {t : Text} (ht : t ∈ tags) {ts : List Tree}
    (huses : Uses tags ts) : occurrences ('<' :: (t ++ ['>'])) (printAll ts) = tagged t ts := by
  have hcount := occurrences_printAll isOpeningTag_of_mem_tags lt_notMem_of_mem_tags ht ts huses []
  rwa [List.append_nil] at hcount

theorem occurrences_menuPage {t : Text} (ht : Counted t) (restaurant : Text) (m : Menu)
    (showBack : Bool) (w : Wording) :
    occurrences ('<' :: (t ++ ['>'])) (menuPage restaurant m showBack w) =
      tagged t (m.categories.flatMap (category w)) := by
  rw [menuPage_eq,
    occurrences_printAll_of_uses ht.mem_tags (uses_menuTrees restaurant m showBack w),
    tagged_menuTrees ht]

theorem occurrences_categoryBlock {t : Text} (ht : Counted t) (w : Wording) (c : Category) :
    occurrences ('<' :: (t ++ ['>'])) (categoryBlock w c) = tagged t (category w c) :=
  occurrences_printAll_of_uses ht.mem_tags (uses_category w c)

/-- Every block is that of one category. -/
theorem occurrences_categoryBlock_category (w : Wording) (c : Category) :
    occurrences "<div class=\"menu-category\">".toList (categoryBlock w c) = 1 := by
  refine (occurrences_categoryBlock counted_categoryTag w c).trans ?_
  rw [tagged_category counted_categoryTag]
  cases c.visibleDishes <;> rfl

/-- In the block of a category there are as many dishes as can be seen. -/
theorem occurrences_categoryBlock_dish (w : Wording) (c : Category) :
    occurrences "<article class=\"menu-dish\">".toList (categoryBlock w c) =
      c.visibleDishes.length := by
  refine (occurrences_categoryBlock counted_dishTag w c).trans ?_
  rw [tagged_category counted_dishTag]
  cases c.visibleDishes with
  | nil => rfl
  | cons d ds =>
    rw [if_neg (List.cons_ne_nil d ds), if_pos rfl, if_neg (by decide), if_neg (by decide),
      if_neg (by decide)]
    simp only [Nat.zero_add]

/-- In the page there are as many dishes as can be seen in all categories. -/
theorem occurrences_menuPage_dish (restaurant : Text) (m : Menu) (showBack : Bool) (w : Wording) :
    occurrences "<article class=\"menu-dish\">".toList (menuPage restaurant m showBack w) =
      (m.categories.flatMap fun c => c.visibleDishes).length := by
  have hblock (c : Category) : tagged dishTag (category w c) = c.visibleDishes.length :=
    (occurrences_categoryBlock counted_dishTag w c).symm.trans (occurrences_categoryBlock_dish w c)
  calc occurrences "<article class=\"menu-dish\">".toList (menuPage restaurant m showBack w)
    _ = tagged dishTag (m.categories.flatMap (category w)) :=
      occurrences_menuPage counted_dishTag restaurant m showBack w
    _ = (m.categories.flatMap fun c => c.visibleDishes).length := tagged_flatMap hblock _

/-- In the page there are as many categories as the menu has. -/
theorem occurrences_menuPage_category (restaurant : Text) (m : Menu) (showBack : Bool)
    (w : Wording) :
    occurrences "<div class=\"menu-category\">".toList (menuPage restaurant m showBack w) =
      m.categories.length := by
  have hblock (c : Category) : tagged categoryTag (category w c) = [c].length :=
    (occurrences_categoryBlock counted_categoryTag w c).symm.trans
      (occurrences_categoryBlock_category w c)
  calc occurrences "<div class=\"menu-category\">".toList (menuPage restaurant m showBack w)
    _ = tagged categoryTag (m.categories.flatMap (category w)) :=
      occurrences_menuPage counted_categoryTag restaurant m showBack w
    _ = (m.categories.flatMap fun c => [c]).length := tagged_flatMap hblock _
    _ = m.categories.length := by rw [List.flatMap_singleton']

/-- If there are none, there is the remark. -/
theorem occurrences_categoryBlock_comingSoon (w : Wording) (c : Category) :
    occurrences "<p class=\"menu-coming-soon\">".toList (categoryBlock w c) =
      if c.visibleDishes = [] then 1 else 0 := by
  refine (occurrences_categoryBlock counted_comingSoonTag w c).trans ?_
  rw [tagged_category counted_comingSoonTag]
  cases c.visibleDishes <;> rfl

/-- A category without dishes that diners can see is printed with the remark in their place. -/
theorem categoryBlock_of_visibleDishes_eq_nil {c : Category} (h : c.visibleDishes = [])
    (w : Wording) : categoryBlock w c = comingSoonBlock w c := by
  have hname : "<div class=\"menu-category\">\n<h2>".toList =
      openingTag "div".toList [⟨"class".toList, some "menu-category".toList⟩] ++
        (newline.print ++ openingTag "h2".toList []) := by decide
  have hremark : "</h2>\n<p class=\"menu-coming-soon\">".toList =
      closingTag "h2".toList ++ (newline.print ++
        openingTag "p".toList [⟨"class".toList, some "menu-coming-soon".toList⟩]) := by decide
  have hend : "</p>\n</div>\n".toList =
      closingTag "p".toList ++ (newline.print ++ (closingTag "div".toList ++ newline.print)) := by
    decide
  unfold categoryBlock category comingSoonBlock
  simp only [h, categoryDishes, classed, printAll, print, List.cons_append, List.nil_append,
    List.append_nil, hname, hremark, hend, List.append_assoc]

/-- No other category is. -/
theorem categoryBlock_eq_comingSoonBlock_iff (w : Wording) (c : Category) :
    categoryBlock w c = comingSoonBlock w c ↔ c.visibleDishes = [] := by
  constructor
  · intro h
    let emptied : Category := { c with dishes := [] }
    have hsame : comingSoonBlock w emptied = comingSoonBlock w c := rfl
    have hemptied : emptied.visibleDishes = [] := rfl
    have hcount := occurrences_categoryBlock_comingSoon w emptied
    rw [categoryBlock_of_visibleDishes_eq_nil hemptied, hsame, ← h,
      occurrences_categoryBlock_comingSoon, if_pos hemptied] at hcount
    by_contra hne
    rw [if_neg hne] at hcount
    cases hcount
  · exact fun h => categoryBlock_of_visibleDishes_eq_nil h w

/-- What is inside of an element stands in what is printed of it, also if something is before it. -/
theorem printAll_infix_element (name : Text) (attributes : List TreeAttribute)
    (before children behind : List Tree) :
    printAll children <:+: printAll (.element name attributes (before ++ children) :: behind) :=
  ⟨openingTag name attributes ++ printAll before, closingTag name ++ printAll behind, by
    simp only [printAll, print, printAll_eq_flatMap, List.flatMap_append, List.append_assoc]⟩

/-- The blocks of the categories stand in the page one behind the other. -/
theorem flatMap_categoryBlock_infix_menuPage (restaurant : Text) (m : Menu) (showBack : Bool)
    (w : Wording) :
    m.categories.flatMap (categoryBlock w) <:+: menuPage restaurant m showBack w := by
  have hblocks : m.categories.flatMap (categoryBlock w) =
      printAll (m.categories.flatMap (category w)) := by
    rw [printAll_eq_flatMap, List.flatMap_assoc]
    exact congrArg (fun block => m.categories.flatMap block)
      (funext fun c => printAll_eq_flatMap (category w c))
  calc m.categories.flatMap (categoryBlock w)
    _ <:+: printAll (menuSection w m) := by
      rw [hblocks]
      exact printAll_infix_element _ _
        (newline :: lineIf m.categories.isEmpty (noCategories w)) _ _
    _ <:+: menuPage restaurant m showBack w := by
      rw [menuPage_eq, menuTrees, ← List.append_assoc]
      exact printAll_infix_element _ _
        (newline :: (lineIf showBack (backButton w) ++ [restaurantName restaurant, newline])) _ _

end Layout

/-! ## What templates see -/

/-- The dishes of a menu that diners can see, by category. -/
theorem Menu.countP_dishes (m : Menu) :
    (m.categories.flatMap fun c => c.dishes).countP Dish.isVisible =
      (m.categories.flatMap fun c => c.visibleDishes).length := by
  rw [List.countP_eq_length_filter, List.filter_flatMap]
  rfl

/-- No dish is lost with the categories that templates do not see. -/
theorem Menu.items_listed (m : Menu) (restaurant : Text) :
    ((m.listed restaurant).categories.flatMap fun c => c.items) =
      m.categories.flatMap fun c => c.visibleDishes.map Dish.listed := by
  rw [Menu.listed]
  induction m.categories with
  | nil => rfl
  | cons c cs ih =>
    rw [List.map_cons, List.filter_cons, List.flatMap_cons, ← ih]
    cases hempty : c.listed.items.isEmpty with
    | true =>
      have hitems : c.visibleDishes.map Dish.listed = [] := List.isEmpty_iff.1 hempty
      rw [hitems]
      rfl
    | false => rfl

/-- Templates see the categories that have a dish that diners can see. -/
theorem Menu.categories_listed (m : Menu) (restaurant : Text) :
    (m.listed restaurant).categories =
      (m.categories.filter fun c => c.visibleDishes ≠ []).map Category.listed := by
  have hvisible (c : Category) : (!c.listed.items.isEmpty) = decide (c.visibleDishes ≠ []) := by
    cases hdishes : c.visibleDishes <;> simp [Category.listed, hdishes]
  simp only [Menu.listed, List.filter_map, Function.comp_def, hvisible]

namespace Template

/-- A template that has a text once for each item of each category. -/
def perItem (b : Text) : Text :=
  Section.categories.openingTag.text ++ (Section.items.openingTag.text ++
    (b ++ (Section.items.closingTag.text ++ Section.categories.closingTag.text)))

/-- As it is written. -/
example : perItem ['b'] = ("\x7b\x7b#categories\x7d\x7d\x7b\x7b#items\x7d\x7db" ++
    "\x7b\x7b/items\x7d\x7d\x7b\x7b/categories\x7d\x7d").toList := by
  decide

/-- The text is all that is repeated. -/
theorem nodes_perItem {b : Text} (hne : b ≠ []) (hbrace : '{' ∉ b) :
    (parse (perItem b)).1.nodes = [.loop .categories [.loop .items [.text b]]] := by
  have hfree : TagFree b := by
    intro t _ hin
    exact hbrace (hin.subset List.mem_cons_self)
  have hitem : ¬ Section.items.closingTag.text <:+: Node.rawAll [.text b] := by
    rw [Node.rawAll_cons, Node.raw_text, Node.rawAll_nil, List.append_nil]
    exact hfree _ Section.items.wellFormed_closingTag
  have hinside : Node.Canonical .category [.loop .items [.text b]] :=
    .loop (by decide) hitem (.stretch ⟨hne, hfree⟩ nofun .nil) .nil
  have hcategory :
      ¬ Section.categories.closingTag.text <:+: Node.rawAll [.loop .items [.text b]] := by
    have hlexed : Token.Lexed 0 [.tag Section.items.openingTag 0, .text b,
        .tag Section.items.closingTag _] :=
      .tag Section.items.wellFormed_openingTag
        (.text hne hfree nofun (.tag Section.items.wellFormed_closingTag (.nil _)))
    have hclose : ¬ Section.categories.closingTag.text <:+: List.flatMap Token.raw _ :=
      not_infix_of_closes_eq_false hlexed <| List.forall_mem_cons.2
        ⟨rfl, List.forall_mem_cons.2 ⟨rfl, List.forall_mem_singleton.2 rfl⟩⟩
    have hraw : Node.rawAll [.loop .items [.text b]] = Section.items.openingTag.text ++
        (b ++ (Section.items.closingTag.text ++ [])) := by
      simp only [Node.rawAll_cons, Node.raw_loop, Node.raw_text, Node.rawAll_nil, List.append_nil]
    rw [hraw]
    exact hclose
  have hpage : Node.Canonical .page [.loop .categories [.loop .items [.text b]]] :=
    .loop (by decide) hcategory hinside .nil
  have hraw : Node.rawAll [.loop .categories [.loop .items [.text b]]] = perItem b := by
    simp only [perItem, Node.rawAll_cons, Node.raw_loop, Node.raw_text, Node.rawAll_nil,
      List.append_nil, List.append_assoc]
  have hnodes := hpage.nodes_ofTokens (perItem b) 0
  rwa [hraw] at hnodes

/-- The text comes once for each item. -/
theorem render_perItem {b : Text} (hne : b ≠ []) (hbrace : '{' ∉ b) (d : Data) :
    (parse (perItem b)).1.render d =
      (List.replicate (d.categories.flatMap fun c => c.items).length b).flatten := by
  have hitem (frames : Frames) : Node.piecesAll frames [.text b] = [.markup b] := by
    rw [Node.piecesAll, Node.pieces, Node.piecesAll, List.append_nil]
  have hcategory (c : Category) (frames : Frames) :
      Node.piecesAll (.category c :: frames) [.loop .items [.text b]] =
        c.items.map fun _ => .markup b := by
    have helements : Frames.elements (.category c :: frames) .items = c.items.map .item := rfl
    rw [Node.piecesAll, Node.pieces, Node.piecesAll, List.append_nil, helements, List.flatMap_map]
    simp only [hitem, ← List.map_eq_flatMap]
  have hpage : Node.piecesAll [.page d] [.loop .categories [.loop .items [.text b]]] =
      (d.categories.flatMap fun c => c.items).map fun _ => .markup b := by
    have helements : Frames.elements [.page d] .categories = d.categories.map .category := rfl
    rw [Node.piecesAll, Node.pieces, Node.piecesAll, List.append_nil, helements, List.flatMap_map]
    simp only [hcategory, List.map_flatMap]
  rw [render, pieces, nodes_perItem hne hbrace, hpage, Piece.textAll, List.flatMap_map,
    List.flatMap_def, ← List.map_const']
  rfl

end Template

/-! ## The number of dishes -/

/-- **All that counts the dishes of a menu comes to the same number**: that of its dishes that
diners can see, by the selector, by the built-in layout whatever the texts are, by the data of
templates, and by a template that has a text once for each of them.

Templates see a category if and only if its block in the built-in layout is not the one that says
that there is more to come, which is the one without dishes, and they see these in the same
order. -/
theorem Menu.dishCounts_agree (restaurant : Text) (m : Menu) (showBack : Bool) (w : Wording) :
    let n := (m.categories.flatMap fun c => c.dishes).countP Dish.isVisible
    let html := Layout.menuPage restaurant m showBack w
    let data := m.listed restaurant
    (m.entry w).dishCount = n ∧
      occurrences "<article class=\"menu-dish\">".toList html = n ∧
      (data.categories.flatMap fun c => c.items).length = n ∧
      (∀ b ≠ [], '{' ∉ b → ∀ k, (fillIn (Template.perItem b) restaurant (some m)).1 =
        (List.replicate k b).flatten ↔ k = n) ∧
      m.categories.flatMap (Layout.categoryBlock w) <:+: html ∧
      occurrences "<div class=\"menu-category\">".toList html = m.categories.length ∧
      (∀ c, occurrences "<div class=\"menu-category\">".toList (Layout.categoryBlock w c) = 1) ∧
      data.categories = (m.categories.filter fun c =>
        Layout.categoryBlock w c ≠ Layout.comingSoonBlock w c).map Category.listed := by
  intro n html data
  have hitems : (data.categories.flatMap fun c => c.items).length = n := by
    rw [m.items_listed, ← List.map_flatMap, List.length_map]
    exact m.countP_dishes.symm
  refine ⟨?_, ?_, hitems, fun b hne hbrace k => ?_,
    Layout.flatMap_categoryBlock_infix_menuPage restaurant m showBack w,
    Layout.occurrences_menuPage_category restaurant m showBack w,
    Layout.occurrences_categoryBlock_category w, ?_⟩
  · exact m.countP_dishes.symm
  · rw [Layout.occurrences_menuPage_dish]
    exact m.countP_dishes.symm
  · have hrender : (fillIn (Template.perItem b) restaurant (some m)).1 =
        (List.replicate n b).flatten := by
      rw [← hitems]
      exact Template.render_perItem hne hbrace data
    rw [hrender]
    refine ⟨fun heq => ?_, fun heq => by rw [heq]⟩
    have hlength := congrArg List.length heq
    simp only [List.length_flatten, List.map_replicate, List.sum_replicate_nat] at hlength
    exact (Nat.eq_of_mul_eq_mul_right (List.length_pos_iff.2 hne) hlength).symm
  · simp only [ne_eq, Layout.categoryBlock_eq_comingSoonBlock_iff]
    exact m.categories_listed restaurant

/-- Two dishes that can be seen, in texts that look like a third, and a category of hidden ones. -/
theorem Menu.dishCounts_agree_markup :
    let soup : Dish := ⟨[], "<article class=\"menu-dish\">".toList, [], ⟨0⟩, [], [], true, [], []⟩
    let secret : Dish := ⟨[], "Secret".toList, [], ⟨0⟩, [], [], false, [], []⟩
    let m : Menu := ⟨[], "Carta".toList, [⟨[], "Mains".toList, [], [secret]⟩,
      ⟨[], "<p class=\"menu-coming-soon\">".toList, [], [soup, secret, soup]⟩], false, [], none⟩
    let html := Layout.menuPage "Sol".toList m false .spanish
    (m.entry .spanish).dishCount = 2 ∧
      occurrences "<article class=\"menu-dish\">".toList html = 2 ∧
      (fillIn (Template.perItem ['}']) "Sol".toList (some m)).1 = ['}', '}'] ∧
      (m.listed "Sol".toList).categories.map (fun c => c.items.length) = [2] := by
  intro soup secret m html
  obtain ⟨hentry, hhtml, -, htemplate, -⟩ := dishCounts_agree "Sol".toList m false .spanish
  exact ⟨hentry, hhtml, (htemplate ['}'] (by decide) (by decide) 2).2 rfl, rfl⟩

end MenuPages
