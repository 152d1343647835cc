import Mathlib.Data.List.Infix
import MenuPages.Menu.Listing
import MenuPages.Proofs.Template.Tokenization

/-!
# Pages without a menu

Without a menu, filling in a page is plain replacement: wherever the tag of the restaurant's name
stands in the page, the escaped name stands in its place, and nothing else is changed
(`fillIn_none_eq_replaceAll`). Nothing has to be known of templates to say so. `Text.replaceAll`
looks for a word character by character, while the page is scanned for tags of all kinds and read
as a tree.

The two agree because a tag is a token wherever it stands (`Token.scanFrom_append_tag`), and because
no other tag has a part of the tag in it or runs into it (`Tag.not_prefix_of_ne`).
-/

namespace MenuPages

/-! ## Replacement -/

namespace Text

/-- A text with a word replaced wherever it stands, from the front on. -/
def replaceAll (word new : Text) : Text → Text
  | [] => []
  | c :: s =>
    if word.isPrefixOf (c :: s) then new ++ replaceAll word new (s.drop (word.length - 1))
    else c :: replaceAll word new s
termination_by s => s.length
decreasing_by
  · simp only [List.length_drop, List.length_cons]
    omega
  · simp

variable {word : Text} (new : Text)

theorem replaceAll_cons_of_not_prefix {c : Char} {s : Text} (h : ¬ word <+: c :: s) :
    replaceAll word new (c :: s) = c :: replaceAll word new s := by
  rw [replaceAll, if_neg (by rwa [List.isPrefixOf_iff_prefix])]

theorem replaceAll_word_append (hword : word ≠ []) (s : Text) :
    replaceAll word new (word ++ s) = new ++ replaceAll word new s := by
  cases word with
  | nil => exact absurd rfl hword
  | cons d word =>
    have hprefix : (d :: word).isPrefixOf (d :: (word ++ s)) = true :=
      List.isPrefixOf_iff_prefix.2 (List.prefix_append (d :: word) s)
    rw [List.cons_append, replaceAll, if_pos hprefix]
    simp

/-- What the word does not start in is copied. -/
theorem replaceAll_append {x s : Text} (h : ∀ b, b ≠ [] → b <:+ x → ¬ word <+: b ++ s) :
    replaceAll word new (x ++ s) = x ++ replaceAll word new s := by
  induction x with
  | nil => rfl
  | cons c x ih =>
    have hfirst : ¬ word <+: c :: (x ++ s) := h (c :: x) (List.cons_ne_nil c x) List.suffix_rfl
    rw [List.cons_append, List.cons_append, replaceAll_cons_of_not_prefix new hfirst,
      ih fun b hne hb => h b hne (hb.trans (List.suffix_cons c x))]

end Text

namespace Template

/-! ## The one tag that is filled in -/

/-- The tag that stands for the name of the restaurant. -/
def nameTag : Tag := ⟨.value, Placeholder.restaurantName.name⟩

theorem wellFormed_nameTag : nameTag.WellFormed := Tag.wellFormed_of_all (by decide) (by decide)

/-- Where another tag stands, the tag of the name does not start. -/
theorem Tag.not_prefix_of_ne {t u : Tag} (ht : t.WellFormed) (hu : u.WellFormed) (hne : t ≠ u)
    (rest : Text) {b : Text} (hb : b ≠ []) (hsuffix : b <:+ t.text) :
    ¬ u.text <+: b ++ rest := by
  rintro ⟨z, hz⟩
  obtain ⟨a, ha⟩ := hsuffix
  cases a with
  | nil =>
    rw [List.nil_append] at ha
    have hread := Tag.read?_text_append hu z
    rw [hz, ha, Tag.read?_text_append ht] at hread
    cases hread
    exact hne rfl
  | cons c a =>
    have hoverlap : t.text ++ rest = (c :: a) ++ (u.text ++ z) := by
      rw [hz, ← ha, List.append_assoc]
    have hle := (Tag.text_prefix_of_append_eq ht (List.cons_ne_nil c a) hoverlap).length_le
    rw [← ha, List.length_append] at hle
    have := List.length_pos_of_ne_nil hb
    omega

/-- What a token comes to on a page without a menu. -/
def Token.withoutMenu (restaurant : Text) : Token → Text
  | .text s => s
  | .tag t _ => if t = nameTag then Markup.escape restaurant else t.text

theorem Token.flatMap_withoutMenu_extend (restaurant : Text) (c : Char) (tokens : List Token) :
    (extend c tokens).flatMap (withoutMenu restaurant) =
      c :: tokens.flatMap (withoutMenu restaurant) := by
  cases tokens with
  | nil => rfl
  | cons token tokens => cases token <;> rfl

/-- The tokens of a text come to the text with the tag of the name replaced. -/
theorem Token.flatMap_withoutMenu_scanFrom (restaurant : Text) (pos : Nat) (s : Text) :
    (scanFrom pos s).flatMap (withoutMenu restaurant) =
      Text.replaceAll nameTag.text (Markup.escape restaurant) s := by
  fun_induction scanFrom pos s with
  | case1 pos => rw [Text.replaceAll, List.flatMap_nil]
  | case2 pos c s t rest hr ih =>
    rw [Tag.eq_of_read? hr, List.flatMap_cons, ih, withoutMenu]
    split
    next heq => rw [heq, Text.replaceAll_word_append _ (Tag.text_ne_nil nameTag)]
    next hne =>
      rw [Text.replaceAll_append]
      intro b hb hsuffix
      exact Tag.not_prefix_of_ne (Tag.wellFormed_of_read? hr) wellFormed_nameTag hne rest hb hsuffix
  | case3 pos c s hr ih =>
    rw [flatMap_withoutMenu_extend, ih, Text.replaceAll_cons_of_not_prefix]
    rintro ⟨z, hz⟩
    rw [← hz, Tag.read?_text_append wellFormed_nameTag] at hr
    cases hr

/-! ## Filling in -/

/-- Without a menu, only the name of the restaurant has a value. -/
theorem value?_ofRestaurant (restaurant name : Text) :
    (Placeholder.ofName? name).bind (Frames.value? [.page (Data.ofRestaurant restaurant)]) =
      if name = Placeholder.restaurantName.name then some restaurant else none := by
  cases hname : Placeholder.ofName? name with
  | none =>
    rw [if_neg]
    · rfl
    · rintro rfl
      rw [Placeholder.ofName?_name] at hname
      cases hname
  | some p =>
    rw [← Placeholder.name_of_ofName? hname]
    cases p <;> rfl

/-- Where no section may be opened, each token comes to a node of its own. -/
theorem textAll_piecesAll_ofTokens_bare (source restaurant : Text) (tokens : List Token) :
    Piece.textAll (Node.piecesAll [.page (Data.ofRestaurant restaurant)]
      (Reading.ofTokens source .bare tokens).nodes) =
        tokens.flatMap (Token.withoutMenu restaurant) := by
  have htext (s : Text) (nodes : List Node) (frames : Frames) :
      Piece.textAll (Node.piecesAll frames (.text s :: nodes)) =
        s ++ Piece.textAll (Node.piecesAll frames nodes) := by
    rw [Node.piecesAll, Node.pieces]
    rfl
  have hplain {t : Tag} (hkind : t.kind ≠ .value) (pos : Nat) :
      Token.withoutMenu restaurant (.tag t pos) = t.text := by
    rw [Token.withoutMenu, if_neg]
    rintro rfl
    exact hkind rfl
  induction tokens with
  | nil => rw [Reading.ofTokens, Node.piecesAll, List.flatMap_nil]; rfl
  | cons token tokens ih =>
    rw [List.flatMap_cons, ← ih]
    cases token with
    | text s => rw [Reading.ofTokens, Reading.cons, htext, Token.withoutMenu]
    | tag t pos =>
      obtain ⟨kind, name⟩ := t
      cases kind with
      | opening =>
        have hnone : Scope.bare.opens? name = none := by
          rw [Scope.opens?]
          cases Section.ofName? name <;> rfl
        have hne : TagKind.opening ≠ .value := by simp
        simp only [Reading.ofTokens, hnone, Reading.cons, htext, hplain (t := ⟨.opening, name⟩) hne]
      | closing =>
        have hne : TagKind.closing ≠ .value := by simp
        simp only [Reading.ofTokens, Reading.cons, htext, hplain (t := ⟨.closing, name⟩) hne]
      | value =>
        rw [Reading.ofTokens, Reading.cons, Node.piecesAll, Node.pieces, value?_ofRestaurant,
          Token.withoutMenu]
        by_cases hname : name = Placeholder.restaurantName.name
        · rw [if_pos hname, if_pos (by rw [hname, nameTag])]
          rfl
        · rw [if_neg hname, if_neg fun heq => hname (congrArg Tag.name heq)]
          rfl

end Template

open Template

theorem fillIn_none_fst (html restaurant : Text) :
    (fillIn html restaurant none).1 =
      (Token.scan html).flatMap (Token.withoutMenu restaurant) :=
  textAll_piecesAll_ofTokens_bare html restaurant (Token.scan html)

/-- **Without a menu, filling in is plain replacement.** A page has the tag of the restaurant's name
replaced by the escaped name, and nothing else is changed. Wherever the tag stands, and whatever
stands around it, the name is filled in there, and what is before the tag and what is behind it come
to what they would by themselves. -/
theorem fillIn_none_eq_replaceAll (html restaurant : Text) :
    (fillIn html restaurant none).1 =
        Text.replaceAll "{{restaurantName}}".toList (Markup.escape restaurant) html ∧
      ∀ before behind : Text,
        (fillIn (before ++ "{{restaurantName}}".toList ++ behind) restaurant none).1 =
          (fillIn before restaurant none).1 ++ Markup.escape restaurant ++
            (fillIn behind restaurant none).1 := by
  have hname : nameTag.text = "{{restaurantName}}".toList := by decide
  have hreplaced (pos : Nat) (s : Text) := Token.flatMap_withoutMenu_scanFrom restaurant pos s
  simp only [fillIn_none_fst, Token.scan, ← hname]
  refine ⟨hreplaced 0 html, fun before behind => ?_⟩
  rw [List.append_assoc before, Token.scanFrom_append_tag 0 before wellFormed_nameTag,
    List.flatMap_append, List.flatMap_cons, hreplaced, hreplaced, hreplaced, Token.withoutMenu,
    if_pos rfl, List.append_assoc]

end MenuPages
