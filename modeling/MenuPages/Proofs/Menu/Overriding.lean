import MenuPages.Menu.Decode
import MenuPages.Proofs.Json.Pairs

/-!
# Wordings are read text by text

The texts of a wording have no order and none of them must be there. **The law**
(`Wording.ofJson_overrides`): an object that has some of them is read as the Spanish wording with
these texts in their places, and all others stay as they are. Whatever else the object has is passed
over. An object that has one of them twice, or has something else than a string in the place of one,
is refused.

A text is named by its place (`Phrase`), which has a key and a field. That each of the twelve
members of the record is for the place of its key, and for no other, is `Wording.describes`.
-/

namespace MenuPages

open Json

/-- The place of a text in a wording. -/
inductive Phrase where
  | noCategories
  | comingSoon
  | allergensPrefix
  | backToMenus
  | back
  | noMenusTitle
  | noMenusDetail
  | categorySingular
  | categoryPlural
  | dishSingular
  | dishPlural
  | emptyMenu
  deriving DecidableEq, Repr

namespace Phrase

def all : List Phrase :=
  [noCategories, comingSoon, allergensPrefix, backToMenus, back, noMenusTitle, noMenusDetail,
    categorySingular, categoryPlural, dishSingular, dishPlural, emptyMenu]

theorem mem_all (p : Phrase) : p ∈ all := by cases p <;> decide

/-- The key that the text has in an object. -/
def key : Phrase → Text
  | noCategories => "noCategories".toList
  | comingSoon => "comingSoon".toList
  | allergensPrefix => "allergensPrefix".toList
  | backToMenus => "backToMenus".toList
  | back => "back".toList
  | noMenusTitle => "noMenusTitle".toList
  | noMenusDetail => "noMenusDetail".toList
  | categorySingular => "categorySingular".toList
  | categoryPlural => "categoryPlural".toList
  | dishSingular => "dishSingular".toList
  | dishPlural => "dishPlural".toList
  | emptyMenu => "emptyMenu".toList

/-- The text in this place. -/
def get : Phrase → Wording → Text
  | noCategories => Wording.noCategories
  | comingSoon => Wording.comingSoon
  | allergensPrefix => Wording.allergensPrefix
  | backToMenus => Wording.backToMenus
  | back => Wording.back
  | noMenusTitle => Wording.noMenusTitle
  | noMenusDetail => Wording.noMenusDetail
  | categorySingular => Wording.categorySingular
  | categoryPlural => Wording.categoryPlural
  | dishSingular => Wording.dishSingular
  | dishPlural => Wording.dishPlural
  | emptyMenu => Wording.emptyMenu

/-- The field for this place. To leave it out stands for the Spanish text. -/
def field (p : Phrase) : RecordField Wording := ⟨p.key, p.get, some (p.get .spanish), .text⟩

end Phrase

namespace Wording

def fields : List (RecordField Wording) := Phrase.all.map Phrase.field

theorem describes : record.Describes fields where
  fits := by
    refine .cons (reads_text.fits (fun _ _ => rfl) ?_) <|
      .cons (reads_text.fits (fun _ _ => rfl) ?_) <|
      .cons (reads_text.fits (fun _ _ => rfl) ?_) <|
      .cons (reads_text.fits (fun _ _ => rfl) ?_) <|
      .cons (reads_text.fits (fun _ _ => rfl) ?_) <|
      .cons (reads_text.fits (fun _ _ => rfl) ?_) <|
      .cons (reads_text.fits (fun _ _ => rfl) ?_) <|
      .cons (reads_text.fits (fun _ _ => rfl) ?_) <|
      .cons (reads_text.fits (fun _ _ => rfl) ?_) <|
      .cons (reads_text.fits (fun _ _ => rfl) ?_) <|
      .cons (reads_text.fits (fun _ _ => rfl) ?_) <|
      .cons (reads_text.fits (fun _ _ => rfl) ?_) .nil
    all_goals
      intro x w g hg hkey
      obtain ⟨p, -, rfl⟩ := List.mem_map.1 hg
      cases p <;> first | rfl | exact absurd rfl hkey
  nodup_keys := by decide +kernel
  blank := by
    intro f hf
    obtain ⟨p, -, rfl⟩ := List.mem_map.1 hf
    exact .inr rfl
  ext {v w} h := by
    have hget (p : Phrase) : p.get v = p.get w := h p.field (List.mem_map_of_mem p.mem_all)
    cases v
    cases w
    rw [Wording.mk.injEq]
    exact ⟨hget .noCategories, hget .comingSoon, hget .allergensPrefix, hget .backToMenus,
      hget .back, hget .noMenusTitle, hget .noMenusDetail, hget .categorySingular,
      hget .categoryPlural, hget .dishSingular, hget .dishPlural, hget .emptyMenu⟩

theorem ofTexts : record.OfTexts := by
  have htext (key : String) (set : Text → Wording → Wording) :
      ∃ f, (Member.optional key .text set).reader = Reader.text.map f := ⟨set, rfl⟩
  unfold Record.OfTexts record
  simp only [List.forall_mem_cons]
  exact ⟨htext _ _, htext _ _, htext _ _, htext _ _, htext _ _, htext _ _, htext _ _, htext _ _,
    htext _ _, htext _ _, htext _ _, htext _ _, nofun⟩

theorem isSome_member? (p : Phrase) : (record.member? p.key).isSome := by
  cases p <;> decide +kernel

/-- The Spanish wording with these texts in their places. -/
def replaced (given : Phrase → Option Text) : Wording where
  noCategories := (given .noCategories).getD spanish.noCategories
  comingSoon := (given .comingSoon).getD spanish.comingSoon
  allergensPrefix := (given .allergensPrefix).getD spanish.allergensPrefix
  backToMenus := (given .backToMenus).getD spanish.backToMenus
  back := (given .back).getD spanish.back
  noMenusTitle := (given .noMenusTitle).getD spanish.noMenusTitle
  noMenusDetail := (given .noMenusDetail).getD spanish.noMenusDetail
  categorySingular := (given .categorySingular).getD spanish.categorySingular
  categoryPlural := (given .categoryPlural).getD spanish.categoryPlural
  dishSingular := (given .dishSingular).getD spanish.dishSingular
  dishPlural := (given .dishPlural).getD spanish.dishPlural
  emptyMenu := (given .emptyMenu).getD spanish.emptyMenu

theorem get_replaced (given : Phrase → Option Text) (p : Phrase) :
    p.get (replaced given) = (given p).getD (p.get spanish) := by
  cases p <;> rfl

/-- The object has the texts that are given, each once, and no other text of a wording. -/
structure Gives (given : Phrase → Option Text) (ps : List Pair) : Prop where
  named : ∀ p ∈ ps, p.key ≠ none
  once : ∀ p v, given p = some v →
    ∃ s rest, valuesOf p.key ps = [s] ∧ Spelling.text v none s rest
  omitted : ∀ p, given p = none → valuesOf p.key ps = []

section

variable {given : Phrase → Option Text} {ps : List Pair} {s : Text}

theorem Gives.fill (h : Gives given ps) : Fill fields (replaced given) ps where
  named := h.named
  spells f hf v hv rest hrest hvalue := by
    obtain ⟨p, -, rfl⟩ := List.mem_map.1 hf
    change v ∈ valuesOf p.key ps at hv
    show Spelling.text (p.get (replaced given)) none v rest
    rw [get_replaced]
    cases hp : given p with
    | none => simp [h.omitted p hp] at hv
    | some x =>
      obtain ⟨s, rest', hs, htext⟩ := h.once p x hp
      rw [hs, List.mem_singleton] at hv
      subst hv
      exact hvalue.spelling_text hrest htext

/-- The object spells the wording with the texts in their places. -/
theorem Gives.objectOf (h : Gives given ps)
    (hs : Document (Bracketed .object PairAt) ps none s) :
    Document (ObjectOf fields) (replaced given) none s := by
  refine hs.objectOf h.fill (fun f hf => ?_) fun f hf hnone => ?_
  · obtain ⟨p, -, rfl⟩ := List.mem_map.1 hf
    show (valuesOf p.key ps).length ≤ 1
    cases hp : given p with
    | none => rw [h.omitted p hp]; exact Nat.zero_le 1
    | some x =>
      obtain ⟨v, -, hv, -⟩ := h.once p x hp
      rw [hv]
      exact Nat.le_refl 1
  · obtain ⟨p, -, rfl⟩ := List.mem_map.1 hf
    change valuesOf p.key ps = [] at hnone
    show some (p.get spanish) = some (p.get (replaced given))
    rw [get_replaced]
    cases hp : given p with
    | none => rfl
    | some x =>
      obtain ⟨v, -, hv, -⟩ := h.once p x hp
      rw [hv] at hnone
      cases hnone

end

/-- **Texts that are given take the places of the Spanish ones**, and nothing else does: an object
that gives texts, each once, is read as the Spanish wording with these texts in their places. And no
object is read that has two values for a place, or one that is no string. -/
theorem ofJson_overrides :
    (∀ given ps s, Document (Bracketed .object PairAt) ps none s → Gives given ps →
      ofJson s = .ok (replaced given)) ∧
    ∀ ps s, Document (Bracketed .object PairAt) ps none s → ∀ p : Phrase,
      (2 ≤ (valuesOf p.key ps).length ∨ ∃ v ∈ valuesOf p.key ps, v.head? ≠ some '"') →
        ∃ fault, ofJson s = .error (.json s fault) := by
  refine ⟨fun given ps s hs hgives => ?_, fun ps s hs p hp => ?_⟩
  · rw [ofJson, load, (hgives.objectOf hs).decode_eq (reads_object describes)]
    rfl
  · rw [ofJson, load]
    cases hread : record.reader.decode s with
    | error fault => exact ⟨fault, rfl⟩
    | ok w =>
      have htext := hs.saysOnce ofTexts hread (isSome_member? p)
      rcases hp with htwice | ⟨v, hv, hno⟩
      · exact absurd htext.once (by omega)
      · exact absurd (htext.quoted v hv) hno

/-- A text with escapes in its key and in itself, behind a member that nobody asks for. The same
text twice, once with an escape in its key; and null in the place of a text. -/
theorem ofJson_overrides_escaped :
    ofJson "\x7b\"x\":[null,-1] ,\"\\u0065mptyMenu\":\"\\ud83c\\udf7d\"\x7d".toList =
      .ok { spanish with emptyMenu := ['🍽'] } ∧
    (∃ fault, ofJson "\x7b\"back\":\"a\",\"\\u0062ack\":\"b\"\x7d".toList =
      .error (.json "\x7b\"back\":\"a\",\"\\u0062ack\":\"b\"\x7d".toList fault)) ∧
    ∃ fault, ofJson "\x7b\"back\":null\x7d".toList =
      .error (.json "\x7b\"back\":null\x7d".toList fault) := by
  obtain ⟨hread, hrefuse⟩ := ofJson_overrides
  -- the plate is beyond the first plane, so its escape is a pair
  have hlead (rest) : FourHex 0xD83C ('d' :: '8' :: '3' :: 'c' :: rest) rest :=
    .digits (i := 13) (j := 8) (k := 3) (l := 12) (.inl rfl) (.inl rfl) (.inl rfl) (.inl rfl)
  have htrail (rest) : FourHex 0xDF7D ('d' :: 'f' :: '7' :: 'd' :: rest) rest :=
    .digits (i := 13) (j := 15) (k := 7) (l := 13) (.inl rfl) (.inl rfl) (.inl rfl) (.inl rfl)
  have hplate (rest) : Quoted ['🍽'] _ rest :=
    .pair (c := '🍽') (by decide) (hlead _) (htrail _) (.close rest)
  have he (rest) : FourHex 0x65 ('0' :: '0' :: '6' :: '5' :: rest) rest :=
    .digits (i := 0) (j := 0) (k := 6) (l := 5) (.inl rfl) (.inl rfl) (.inl rfl) (.inl rfl)
  have hb (rest) : FourHex 0x62 ('0' :: '0' :: '6' :: '2' :: rest) rest :=
    .digits (i := 0) (j := 0) (k := 6) (l := 2) (.inl rfl) (.inl rfl) (.inl rfl) (.inl rfl)
  have hemptyMenu (rest) : KeyAt (some "emptyMenu".toList) _ rest :=
    .named (.unit (c := 'e') (he _) (.unescaped "mptyMenu".toList))
  have hback (rest) : KeyAt (some "back".toList) _ rest :=
    .named (.unit (c := 'b') (hb _) (.unescaped "ack".toList))
  have hone (rest) : Magnitude ('1' :: rest) rest :=
    .parts (.digits rfl (by decide) (.none _)) (.none _) (.none _)
  have hnull (rest) : Value _ rest := .word (w := "null".toList) (by decide)
  have hother (rest) : Value _ rest :=
    .filled .list (.none _) <|
      .more (.element (hnull _)) (.none _) (.none _) <|
      .last (.element (.negative (hone _))) (.none _)
  refine ⟨?_, ?_, ?_⟩
  · have hdocument : Document (Bracketed .object PairAt)
        [⟨some ['x'], _⟩, ⟨some "emptyMenu".toList, _⟩] none _ :=
      .between (.none _) (.filled (.none _) <|
        .more (.unescaped ['x'] (hother _)) (.char (c := ' ') rfl (.none _)) (.none _)
          (.last (.pair (hemptyMenu _) (.none _) (.none _) (.string (hplate _).anyString)) (.none _))
          (.inl rfl)) (.none _)
    let given : Phrase → Option Text := fun p => if p = .emptyMenu then some ['🍽'] else none
    have hgives (u v rest) (htext : Spelling.text ['🍽'] none v rest) :
        Gives given [⟨some ['x'], u⟩, ⟨some "emptyMenu".toList, v⟩] := by
      refine ⟨by simp, fun p x hp => ?_, fun p hp => ?_⟩
      · obtain ⟨rfl, hx⟩ := Option.ite_none_right_eq_some.1 hp
        cases hx
        exact ⟨v, rest, rfl, htext⟩
      · cases p <;> first | rfl | cases hp
    refine (congrArg ofJson ?_).trans
      (hread given _ _ hdocument (hgives _ _ _ (.quoted (hplate ['}']))))
    decide +kernel
  · have hdocument : Document (Bracketed .object PairAt)
        [⟨some "back".toList, _⟩, ⟨some "back".toList, _⟩] none _ :=
      .between (.none _) (.filled (.none _) <|
        .comma (.unescaped "back".toList (.unescaped ['a'])) <|
        .last (.pair (hback _) (.none _) (.none _) (.unescaped ['b'])) (.none _)) (.none _)
    obtain ⟨fault, hfault⟩ := hrefuse _ _ hdocument .back (.inl (by decide +kernel))
    refine ⟨fault, ?_⟩
    convert hfault using 3
    all_goals decide +kernel
  · have hdocument : Document (Bracketed .object PairAt) [⟨some "back".toList, _⟩] none _ :=
      .between (.none _) (.filled (.none _) <|
        .last (.unescaped "back".toList (hnull _)) (.none _)) (.none _)
    obtain ⟨fault, hfault⟩ := hrefuse _ _ hdocument .back (.inr ⟨_, List.mem_cons_self, by decide⟩)
    refine ⟨fault, ?_⟩
    convert hfault using 3
    all_goals decide +kernel

end Wording

end MenuPages
