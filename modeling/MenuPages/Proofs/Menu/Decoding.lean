import MenuPages.Menu.Decode
import MenuPages.Proofs.Json.Fields

/-!
# Menus are read from all of their spellings

The fields of dishes, categories and menus, with what each stands for if it is left out, and so the
texts that spell a menu. Prices are whole numbers here; how other numbers round is another matter.

Such a text is read as the menu that it spells, and a list of them as the menus in order
(`Menu.ofJson_of_spelling`). If one object in it lacks fields, the first one is reported.
-/

namespace MenuPages

open Json

/-! ## Fields -/

def Dish.fields : List (RecordField Dish) :=
  [⟨"id".toList, Dish.id, none, .text⟩,
    ⟨"name".toList, Dish.name, none, .text⟩,
    ⟨"description".toList, Dish.description, some [], .text⟩,
    ⟨"price".toList, Dish.price, none, .whole⟩,
    ⟨"currency".toList, Dish.currency, none, .text⟩,
    ⟨"thumbnail".toList, Dish.thumbnail, some [], .text⟩,
    ⟨"isVisible".toList, Dish.isVisible, none, .flag⟩,
    ⟨"labels".toList, Dish.labels, some [], .list .text⟩,
    ⟨"allergens".toList, Dish.allergens, some [], .list .text⟩]

def Category.fields : List (RecordField Category) :=
  [⟨"id".toList, Category.id, none, .text⟩,
    ⟨"name".toList, Category.name, none, .text⟩,
    ⟨"description".toList, Category.description, some [], .text⟩,
    ⟨"dishes".toList, Category.dishes, some [], .list (ObjectOf Dish.fields)⟩]

def Menu.fields : List (RecordField Menu) :=
  [⟨"id".toList, Menu.id, none, .text⟩,
    ⟨"name".toList, Menu.name, none, .text⟩,
    ⟨"categories".toList, Menu.categories, some [], .list (ObjectOf Category.fields)⟩,
    ⟨"isDefault".toList, Menu.isDefault, some false, .flag⟩,
    ⟨"createdAt".toList, Menu.createdAt, some [], .text⟩,
    ⟨"htmlContent".toList, Menu.htmlContent, some none, .optionalText⟩]

/-- The texts that spell a menu, as an object. -/
def Menu.spelling : Spelling Menu := ObjectOf Menu.fields

/-! ## How they are read -/

theorem Dish.describes : Dish.record.Describes Dish.fields where
  fits := by
    refine .cons (reads_text.fits (fun _ _ => rfl) ?_) <|
      .cons (reads_text.fits (fun _ _ => rfl) ?_) <|
      .cons (reads_text.fits (fun _ _ => rfl) ?_) <|
      .cons (reads_whole.fits (fun _ _ => rfl) ?_) <|
      .cons (reads_text.fits (fun _ _ => rfl) ?_) <|
      .cons (reads_text.fits (fun _ _ => rfl) ?_) <|
      .cons (reads_flag.fits (fun _ _ => rfl) ?_) <|
      .cons ((reads_list reads_text).fits (fun _ _ => rfl) ?_) <|
      .cons ((reads_list reads_text).fits (fun _ _ => rfl) ?_) .nil
    all_goals simp [Dish.fields]
  nodup_keys := by simp [Dish.fields]
  blank := by
    simp only [Dish.fields, List.forall_mem_cons]
    exact ⟨.inl trivial, .inl trivial, .inr rfl, .inl trivial, .inl trivial, .inr rfl, .inl trivial,
      .inr rfl, .inr rfl, nofun⟩
  ext {d e} h := by
    cases d
    cases e
    simpa [Dish.fields] using h

theorem Category.describes : Category.record.Describes Category.fields where
  fits := by
    refine .cons (reads_text.fits (fun _ _ => rfl) ?_) <|
      .cons (reads_text.fits (fun _ _ => rfl) ?_) <|
      .cons (reads_text.fits (fun _ _ => rfl) ?_) <|
      .cons ((reads_list (reads_object Dish.describes)).fits (fun _ _ => rfl) ?_) .nil
    all_goals simp [Category.fields]
  nodup_keys := by simp [Category.fields]
  blank := by
    simp only [Category.fields, List.forall_mem_cons]
    exact ⟨.inl trivial, .inl trivial, .inr rfl, .inr rfl, nofun⟩
  ext {c d} h := by
    cases c
    cases d
    simpa [Category.fields] using h

theorem Menu.describes : Menu.record.Describes Menu.fields where
  fits := by
    refine .cons (reads_text.fits (fun _ _ => rfl) ?_) <|
      .cons (reads_text.fits (fun _ _ => rfl) ?_) <|
      .cons ((reads_list (reads_object Category.describes)).fits (fun _ _ => rfl) ?_) <|
      .cons (reads_flag.fits (fun _ _ => rfl) ?_) <|
      .cons (reads_text.fits (fun _ _ => rfl) ?_) <|
      .cons (reads_optionalText.fits (fun _ _ => rfl) ?_) .nil
    all_goals simp [Menu.fields]
  nodup_keys := by simp [Menu.fields]
  blank := by
    simp only [Menu.fields, List.forall_mem_cons]
    exact ⟨.inl trivial, .inl trivial, .inr rfl, .inr rfl, .inr rfl, .inr rfl, nofun⟩
  ext {m n} h := by
    cases m
    cases n
    simpa [Menu.fields] using h

theorem Menu.reads : Reads Menu.record.reader Menu.spelling := reads_object Menu.describes

/-- Menus are read from all texts that spell them, alone and in a list. If one object of such a text
lacks fields that must be there, it is refused, and the first of them is named. -/
theorem Menu.ofJson_of_spelling :
    (∀ m s, Document Menu.spelling m none s → Menu.ofJson s = .ok m) ∧
    (∀ ms s, Document Menu.spelling.list ms none s → Menu.listOfJson s = .ok ms) ∧
    (∀ m flaw s, Document Menu.spelling m (some flaw) s →
      Menu.ofJson s = .error (.json s ⟨.missingField flaw.missing, flaw.behind.byteCount⟩)) ∧
    ∀ ms flaw s, Document Menu.spelling.list ms (some flaw) s →
      Menu.listOfJson s = .error (.json s ⟨.missingField flaw.missing, flaw.behind.byteCount⟩) := by
  refine ⟨?_, ?_, ?_, ?_⟩
  · intro m s h
    rw [Menu.ofJson, load, h.decode_eq Menu.reads]
    rfl
  · intro ms s h
    rw [Menu.listOfJson, load, h.decode_eq (reads_list Menu.reads)]
    rfl
  · intro m flaw s h
    rw [Menu.ofJson, load, h.decode_eq Menu.reads]
    rfl
  · intro ms flaw s h
    rw [Menu.listOfJson, load, h.decode_eq (reads_list Menu.reads)]
    rfl

/-- A menu with escapes, a value that nobody asks for and a price below zero, all in another order;
and a list of two menus, of which the second has a dish without a price and a currency. -/
theorem Menu.ofJson_of_spelling_escaped :
    Menu.ofJson ("\x7b\"n\\u0061me\":\"\",\"x\":[-1.5e+3 ,\"\\ud800\"],".toList ++
        "\"categories\":[\x7b\"dishes\":[\x7b\"price\":-7,\"name\":\"\\ud83c\\udf7d\",".toList ++
        "\"isVisible\":true,\"id\":\"\",\"currency\":\"\"\x7d],".toList ++
        "\"id\":\"\",\"name\":\"\"\x7d],\"id\":\"m\"\x7d".toList) =
      .ok ⟨['m'], [], [⟨[], [], [],
        [⟨[], ['🍽'], [], Binary64.ofRatio true 7 1, [], [], true, [], []⟩]⟩], false, [], none⟩ ∧
    Menu.listOfJson ("[\x7b\"id\":\"m\",\"name\":\"\"\x7d,\x7b\"id\":\"\",\"name\":\"\",".toList ++
        "\"categories\":[\x7b\"id\":\"\",\"name\":\"\",\"dishes\":[\x7b\"name\":\"\",".toList ++
        "\"isVisible\":true,\"id\":\"\"\x7d]\x7d]\x7d]".toList) =
      .error (.json ("[\x7b\"id\":\"m\",\"name\":\"\"\x7d,\x7b\"id\":\"\",\"name\":\"\",".toList ++
        "\"categories\":[\x7b\"id\":\"\",\"name\":\"\",\"dishes\":[\x7b\"name\":\"\",".toList ++
        "\"isVisible\":true,\"id\":\"\"\x7d]\x7d]\x7d]".toList)
        ⟨.missingField "price".toList, 5⟩) := by
  have hprice : (Binary64.ofRatio true 7 1).IsInt (-7) := by
    refine ⟨by decide, ?_, by decide, by decide⟩
    rw [Binary64.toRat, Binary64.isNegative_ofRatio, if_pos rfl,
      Binary64.magnitude_ofRatio_one _ (by norm_num)]
    norm_num
  have hempty (rest) : Spelling.text [] none ('"' :: '"' :: rest) rest := .quoted (.close rest)
  -- the plate is beyond the first plane, so its escape is a pair
  have hlead (rest) : FourHex 0xD83C ('d' :: '8' :: '3' :: 'c' :: rest) rest :=
    .digits (i := 13) (j := 8) (k := 3) (l := 12) (.inl rfl) (.inl rfl) (.inl rfl) (.inl rfl)
  have htrail (rest) : FourHex 0xDF7D ('d' :: 'f' :: '7' :: 'd' :: rest) rest :=
    .digits (i := 13) (j := 15) (k := 7) (l := 13) (.inl rfl) (.inl rfl) (.inl rfl) (.inl rfl)
  have hplate (rest) : Quoted ['🍽'] _ rest :=
    .pair (c := '🍽') (by decide) (hlead _) (htrail _) (.close rest)
  have hdish (rest) : ObjectOf Dish.fields
      ⟨[], ['🍽'], [], Binary64.ofRatio true 7 1, [], [], true, [], []⟩ none _ rest :=
    .complete (.filled (.none _) <|
      .comma (MemberOf.plain "price".toList (Spelling.whole.digits hprice _)) <|
      .comma (MemberOf.plain "name".toList (Spelling.text.quoted (hplate _))) <|
      .comma (MemberOf.plain "isVisible".toList (Spelling.flag.yes _)) <|
      .comma (MemberOf.plain "id".toList (hempty _)) <|
      .last (MemberOf.plain "currency".toList (hempty _)) (.none _))
      (by decide) (by simp [Dish.fields])
  have hcategory (rest) : ObjectOf Category.fields ⟨[], [], [], [_]⟩ none _ rest :=
    .complete (.filled (.none _) <|
      .comma (MemberOf.plain "dishes".toList
        (Bracketed.filled (.none _) (.last (hdish _) (.none _)))) <|
      .comma (MemberOf.plain "id".toList (hempty _)) <|
      .last (MemberOf.plain "name".toList (hempty _)) (.none _))
      (by decide) (by simp [Category.fields])
  have hletter (rest) : FourHex 0x61 ('0' :: '0' :: '6' :: '1' :: rest) rest :=
    .digits (i := 0) (j := 0) (k := 6) (l := 1) (.inl rfl) (.inl rfl) (.inl rfl) (.inl rfl)
  have hname (rest) : Quoted "name".toList _ rest :=
    .plain (c := 'n') (by decide) <| .unit (c := 'a') (hletter _) <|
      .plain (c := 'm') (by decide) <| .plain (c := 'e') (by decide) (.close rest)
  have hnumber (rest) : Magnitude _ (' ' :: rest) :=
    .parts (.digits (c := '1') rfl (by decide) (.none _))
      (.digits (.digits (c := '5') rfl (.none _)))
      (.digits (e := 'e') (.inl rfl) (.plus _) (.digits (c := '3') rfl (.none _)))
  have hlone (rest) : FourHex 0xD800 ('d' :: '8' :: '0' :: '0' :: rest) rest :=
    .digits (i := 13) (j := 8) (k := 0) (l := 0) (.inl rfl) (.inl rfl) (.inl rfl) (.inl rfl)
  have hother (rest) : Value _ rest :=
    .filled .list (.none _) <|
      .more (.element (.negative (hnumber _))) (.char rfl (.none _)) (.none _) <|
      .last (.element (.string (.unit (hlone _) (.close _)))) (.none _)
  have hm (rest) : Spelling.text ['m'] none ('"' :: 'm' :: '"' :: rest) rest :=
    .quoted (.plain (by decide) (.close rest))
  have hmenu (rest) : ObjectOf Menu.fields ⟨['m'], [], [_], false, [], none⟩ none _ rest :=
    .complete (.filled (.none _) <|
      .comma (MemberOf.pair (hname _) (.none _) (.none _) (hempty _)) <|
      .comma (MemberOf.plain "x".toList ⟨rfl, hother _⟩) <|
      .comma (MemberOf.plain "categories".toList
        (Bracketed.filled (.none _) (.last (hcategory _) (.none _)))) <|
      .last (MemberOf.plain "id".toList (hm _)) (.none _))
      (by decide) (by simp [Menu.fields])
  have hlackingDish (rest) : ObjectOf Dish.fields
      ⟨[], [], [], ⟨0⟩, [], [], true, [], []⟩ (some ⟨"price".toList, rest⟩) _ rest :=
    .lacking (f := ⟨"price".toList, Dish.price, none, .whole⟩) (.filled (.none _) <|
      .comma (MemberOf.plain "name".toList (hempty _)) <|
      .comma (MemberOf.plain "isVisible".toList (Spelling.flag.yes _)) <|
      .last (MemberOf.plain "id".toList (hempty _)) (.none _))
      (by decide) rfl
  have hlackingCategory (rest) : ObjectOf Category.fields ⟨[], [], [], [_]⟩
      (some ⟨"price".toList, ']' :: '}' :: rest⟩) _ rest :=
    .complete (.filled (.none _) <|
      .comma (MemberOf.plain "id".toList (hempty _)) <|
      .comma (MemberOf.plain "name".toList (hempty _)) <|
      .last (MemberOf.plain "dishes".toList
        (Bracketed.filled (.none _) (.last (hlackingDish _) (.none _)))) (.none _))
      (by decide) (by simp [Category.fields])
  have hlackingMenu (rest) : ObjectOf Menu.fields ⟨[], [], [_], false, [], none⟩
      (some ⟨"price".toList, ']' :: '}' :: ']' :: '}' :: rest⟩) _ rest :=
    .complete (.filled (.none _) <|
      .comma (MemberOf.plain "id".toList (hempty _)) <|
      .comma (MemberOf.plain "name".toList (hempty _)) <|
      .last (MemberOf.plain "categories".toList
        (Bracketed.filled (.none _) (.last (hlackingCategory _) (.none _)))) (.none _))
      (by decide) (by simp [Menu.fields])
  have hbare (rest) : ObjectOf Menu.fields ⟨['m'], [], [], false, [], none⟩ none _ rest :=
    .complete (.filled (.none _) <|
      .comma (MemberOf.plain "id".toList (hm _)) <|
      .last (MemberOf.plain "name".toList (hempty _)) (.none _))
      (by decide) (by simp [Menu.fields])
  have hlist : Bracketed .list Menu.spelling _ (some ⟨"price".toList, "]\x7d]\x7d]".toList⟩) _ [] :=
    .filled (.none _) (.comma (hbare _) (.last (hlackingMenu [']']) (.none _)))
  have hwhole : Document Menu.spelling _ none _ := .between (.none _) (hmenu []) (.none _)
  have hwholeList : Document Menu.spelling.list _ _ _ := .between (.none _) hlist (.none _)
  obtain ⟨hread, -, -, hrefuse⟩ := Menu.ofJson_of_spelling
  constructor
  · apply hread
    convert hwhole using 1
    decide +kernel
  · convert hrefuse _ _ _ hwholeList using 3
    all_goals decide +kernel

end MenuPages
