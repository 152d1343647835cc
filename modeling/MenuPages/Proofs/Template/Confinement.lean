import MenuPages.Proofs.Markup.Escaping
import MenuPages.Proofs.Template.Evaluation

/-!
# What values cannot do

A value may say anything, markup included, but it says it as text: it neither adds a delimiter to a
page nor takes one away. So how often a template repeats its sections decides which delimiters a
page has, and the texts that it is filled in with do not.

**The law** (`delimiters_render_eq`) compares two runs of one template, for data that have equally
many of everything (`Data.shape`). The runs go side by side: their frames are of the same kinds
(`Frame.Alike`), so each section is repeated equally often in both (`Frame.Alike.elements`), and
their pieces come in pairs (`Node.alike_piecesAll`). The pieces of a pair need not be of one kind:
a text that is there in one run may be missing in the other, and then the placeholder stays. What
the two have in common is that neither has a delimiter in it.
-/

namespace MenuPages

/-! ## Pieces in pairs -/

/-- Two pieces that put the same delimiters into a page: they are the same piece, or neither of them
has any. -/
inductive Piece.Alike : Piece → Piece → Prop
  | same (p : Piece) : Alike p p
  | plain {p q : Piece} (hp : Markup.delimiters p.text = []) (hq : Markup.delimiters q.text = []) :
      Alike p q

/-- Pages whose pieces pair up have the same delimiters. -/
theorem Piece.delimiters_textAll_eq {ps qs : List Piece} (h : List.Forall₂ Piece.Alike ps qs) :
    Markup.delimiters (Piece.textAll ps) = Markup.delimiters (Piece.textAll qs) := by
  induction h with
  | nil => rfl
  | @cons p q ps qs hpq _ ih =>
    have hhead : Markup.delimiters p.text = Markup.delimiters q.text := by
      cases hpq with
      | same => rfl
      | plain hp hq => rw [hp, hq]
    simpa [Piece.textAll, hhead] using ih

namespace Template

/-! ## Data of one shape -/

/-- How many labels and how many allergens an item has. -/
def Item.shape (i : Item) : Nat × Nat := ((i.labels.getD []).length, (i.allergens.getD []).length)

/-- How many items a category has, and how many labels and allergens each of them. -/
def Category.shape (c : Category) : List (Nat × Nat) := c.items.map Item.shape

/-- How many categories there are, how many items in each of them, and how many labels and allergens
each item has. -/
def Data.shape (d : Data) : List (List (Nat × Nat)) := d.categories.map Category.shape

/-- Frames for things of one kind and one shape. -/
inductive Frame.Alike : Frame → Frame → Prop
  | page {d d' : Data} (h : d.shape = d'.shape) : Alike (.page d) (.page d')
  | category {c c' : Category} (h : c.shape = c'.shape) : Alike (.category c) (.category c')
  | item {i i' : Item} (h : i.shape = i'.shape) : Alike (.item i) (.item i')
  | label (s s' : Text) : Alike (.label s) (.label s')
  | allergen (s s' : Text) : Alike (.allergen s) (.allergen s')

theorem forall₂_map_of_map_eq {α β γ : Type} {R : β → β → Prop} {f : α → β} {key : α → γ}
    (hR : ∀ a b, key a = key b → R (f a) (f b)) {as bs : List α} (h : as.map key = bs.map key) :
    List.Forall₂ R (as.map f) (bs.map f) := by
  have hkeys : List.Forall₂ (· = ·) (as.map key) (bs.map key) := by
    rw [List.forall₂_eq_eq_eq]
    exact h
  rw [List.forall₂_map_left_iff, List.forall₂_map_right_iff] at hkeys ⊢
  exact hkeys.imp hR

theorem forall₂_map_of_length_eq {α β : Type} {R : β → β → Prop} {f : α → β}
    (hR : ∀ a b, R (f a) (f b)) {as bs : List α} (h : as.length = bs.length) :
    List.Forall₂ R (as.map f) (bs.map f) := by
  have hkeys : as.map (fun _ => ()) = bs.map (fun _ => ()) := by
    simp [h]
  exact forall₂_map_of_map_eq (fun a b _ => hR a b) hkeys

theorem rel_getD {α β : Type} {R : α → β → Prop} {a : Option α} {b : Option β}
    (h : Option.Rel R a b) {x : α} {y : β} (hxy : R x y) : R (a.getD x) (b.getD y) := by
  cases h with
  | some hab => exact hab
  | none => exact hxy

/-- What a section is repeated for: in both frames nothing that it belongs to, or equally many
things, alike in pairs. -/
theorem Frame.Alike.elements? {f g : Frame} (h : f.Alike g) (sec : Section) :
    Option.Rel (List.Forall₂ Frame.Alike) (f.elements? sec) (g.elements? sec) := by
  cases h with
  | page hd =>
    cases sec with
    | categories => exact .some (forall₂_map_of_map_eq (fun _ _ hc => .category hc) hd)
    | items | itemLabels | itemAllergens => exact .none
  | category hc =>
    cases sec with
    | items => exact .some (forall₂_map_of_map_eq (fun _ _ hi => .item hi) hc)
    | categories | itemLabels | itemAllergens => exact .none
  | item hi =>
    obtain ⟨hlabels, hallergens⟩ := Prod.mk.inj hi
    cases sec with
    | itemLabels => exact .some (forall₂_map_of_length_eq .label hlabels)
    | itemAllergens => exact .some (forall₂_map_of_length_eq .allergen hallergens)
    | categories | items => exact .none
  | label | allergen => exact .none

/-- **A section is repeated equally often in both runs.** -/
theorem Frame.Alike.elements {fs gs : Frames} (h : List.Forall₂ Frame.Alike fs gs)
    (sec : Section) : List.Forall₂ Frame.Alike (fs.elements sec) (gs.elements sec) := by
  induction h with
  | nil => exact .nil
  | @cons f g fs gs hfg _ ih =>
    rw [Env.Shows.elements_cons, Env.Shows.elements_cons]
    exact rel_getD (hfg.elements? sec) ih

/-! ## Two runs side by side -/

/-- A tag that stands for a value has no delimiters. -/
theorem delimiters_text_value {name : Text} (h : (⟨.value, name⟩ : Tag).WellFormed) :
    Markup.delimiters (⟨.value, name⟩ : Tag).text = [] := by
  have hname : ∀ c ∈ name, Markup.isDelimiter c = false := by
    intro c hc
    have hchar := h.isNameChar c hc
    cases hdelimiter : Markup.isDelimiter c with
    | false => rfl
    | true =>
      simp only [Markup.isDelimiter, Bool.or_eq_true, beq_iff_eq] at hdelimiter
      rcases hdelimiter with ((rfl | rfl) | rfl) | rfl <;> exact absurd hchar (by decide)
  have hbrace : Markup.isDelimiter '{' = false ∧ Markup.isDelimiter '}' = false := by decide
  rw [Markup.delimiters_eq_nil_iff]
  simpa [Tag.text, TagKind.sigil, or_imp, forall_and, hbrace] using hname

/-- A placeholder comes to one piece without delimiters, whether it has a value or not. -/
theorem Node.exists_pieces_value {name : Text} (h : (⟨.value, name⟩ : Tag).WellFormed)
    (frames : Frames) :
    ∃ p, Node.pieces frames (.value name) = [p] ∧ Markup.delimiters p.text = [] := by
  rw [Node.pieces]
  cases (Placeholder.ofName? name).bind frames.value? with
  | some s => exact ⟨_, rfl, Markup.delimiters_escape s⟩
  | none => exact ⟨_, rfl, delimiters_text_value h⟩

/-- The pieces of the two runs pair up. -/
theorem Node.alike_piecesAll {scope : Scope} {nodes : List Node} (hn : Node.Canonical scope nodes)
    {fs gs : Frames} (h : List.Forall₂ Frame.Alike fs gs) :
    List.Forall₂ Piece.Alike (Node.piecesAll fs nodes) (Node.piecesAll gs nodes) := by
  have htext (s : Text) (nodes : List Node) {fs gs : Frames}
      (ih : List.Forall₂ Piece.Alike (Node.piecesAll fs nodes) (Node.piecesAll gs nodes)) :
      List.Forall₂ Piece.Alike (Node.piecesAll fs (.text s :: nodes))
        (Node.piecesAll gs (.text s :: nodes)) := by
    rw [Node.piecesAll, Node.piecesAll, Node.pieces, Node.pieces]
    exact .cons (.same _) ih
  induction hn generalizing fs gs with
  | nil => exact .nil
  | stretch hs hnext hn ih => exact htext _ _ (ih h)
  | closing ht hn ih => exact htext _ _ (ih h)
  | opening ht hopen hn ih => exact htext _ _ (ih h)
  | value ht hn ih =>
    obtain ⟨p, hp, hplain⟩ := Node.exists_pieces_value ht fs
    obtain ⟨q, hq, hplain'⟩ := Node.exists_pieces_value ht gs
    rw [Node.piecesAll, Node.piecesAll, hp, hq]
    exact .cons (.plain hplain hplain') (ih h)
  | loop hsec hclose hbody hn ihbody ih =>
    rw [Node.piecesAll, Node.piecesAll, Node.pieces, Node.pieces]
    refine List.rel_append (List.rel_flatMap (Frame.Alike.elements h _) ?_) (ih h)
    intro f g hfg
    exact ihbody (.cons hfg h)

/-- **Values cannot add or remove markup.** A template that is filled in with two data of the same
shape comes to pages with the same angle brackets and quotes in the same order, whatever the texts
in the data. -/
theorem delimiters_render_eq (source : Text) {d d' : Data} (h : d.shape = d'.shape) :
    Markup.delimiters ((ofText source).render d) =
      Markup.delimiters ((ofText source).render d') :=
  Piece.delimiters_textAll_eq (Node.alike_piecesAll
    (Reading.canonical_ofTokens source (Token.lexed_scanFrom 0 source)) (.cons (.page h) .nil))

/-- A page whose values are empty or missing, and one whose values are markup and tags. -/
theorem delimiters_render_eq_attack :
    let labels : Node := .loop .itemLabels
      [.text "<i>".toList, .value "label".toList, .text "</i>".toList]
    let source := Node.rawAll [.text "<h1 title=\"".toList, .value "menuName".toList,
      .text "\">".toList, .value "restaurantName".toList, .text "</h1>".toList,
      .loop .categories [.text "<p>".toList, .value "categoryDescription".toList,
        .loop .items [labels], .text "</p>".toList]]
    let d : Data := ⟨[], none, [⟨[], none, [⟨[], [], [], [], some [[]], none⟩]⟩]⟩
    let attack := "'\"><script>".toList ++ Section.categories.openingTag.text
    let d' : Data := ⟨attack, some attack,
      [⟨attack, some attack, [⟨attack, attack, attack, attack, some [attack], some []⟩]⟩]⟩
    d.shape = d'.shape ∧ Markup.delimiters ((ofText source).render d) =
      Markup.delimiters ((ofText source).render d') := by
  intro labels source d attack d'
  have hshape : d.shape = d'.shape := rfl
  exact ⟨hshape, delimiters_render_eq source hshape⟩

end Template

end MenuPages
