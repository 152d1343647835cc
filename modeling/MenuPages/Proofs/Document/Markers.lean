import MenuPages.Document.Split
import MenuPages.Proofs.Template.Confinement
import MenuPages.Proofs.Text.Words

/-!
# Values cannot move the split

A page is split into its head and its body after it was filled in, so what values say is there when
the split looks for its four markers. Values have no angle brackets, so none of them holds a marker
or the end of a tag. But a value could complete a marker that the template has only begun, as in
`<he{{itemName}}`. If no text of the template ends inside a marker (`Text.EndsInside`), that cannot
be, and the split finds the same markers whatever the values are.

**The law** (`delimiters_split_render_eq`) compares the splits of two runs of one template, for data
of one shape. Their pages are `Parallel`: the texts of the template stand in both, and between them
there is text without delimiters, of whatever length. A search for a marker stops in both at the same
place of the same text, or in neither (`Parallel.breakAt?`), and what is behind that place is
parallel again.
-/

namespace MenuPages

/-! ## Words that a text ends inside of -/

namespace Text

/-- A text ends with the first letters of a word, but not with all of it: ASCII letters in any
case. -/
def EndsInside (word s : Text) : Prop :=
  ∃ y, y <:+ s ∧ y ≠ [] ∧ y.length < word.length ∧ small y <+: small word

instance (word s : Text) : Decidable (EndsInside word s) :=
  decidable_of_iff (∃ y ∈ s.tails, y ≠ [] ∧ y.length < word.length ∧ small y <+: small word)
    (by simp only [EndsInside, List.mem_tails])

variable {word x y s : Text}

theorem EndsInside.of_suffix (h : EndsInside word y) (hy : y <:+ x) : EndsInside word x := by
  obtain ⟨z, hz, hword⟩ := h
  exact ⟨z, hz.trans hy, hword⟩

theorem length_small (s : Text) : (small s).length = s.length := List.length_map _

/-- What follows a text does not matter to a word that fits into the text. -/
theorem afterWord?_append_of_length_le (hle : word.length ≤ y.length)
    (h : afterWord? word y = none) (s : Text) : afterWord? word (y ++ s) = none := by
  rw [afterWord?_eq_none_iff, small_append]
  intro hprefix
  have hwhole : small word <+: small y :=
    List.prefix_of_prefix_length_le hprefix (List.prefix_append _ _) (by simpa [length_small])
  exact afterWord?_eq_none_iff.1 h hwhole

/-- A word does not start in a text that neither has it nor ends inside of it. -/
theorem afterWord?_append_eq_none (hhas : ¬ Has word x) (hends : ¬ EndsInside word x)
    (hy : y <:+ x) (hne : y ≠ []) (s : Text) : afterWord? word (y ++ s) = none := by
  rcases Nat.lt_or_ge y.length word.length with hlt | hle
  · rw [afterWord?_eq_none_iff, small_append]
    intro hprefix
    have hpart : small y <+: small word :=
      List.prefix_of_prefix_length_le (List.prefix_append _ _) hprefix
        (by simpa [length_small] using hlt.le)
    exact hends ⟨y, hy, hne, hlt, hpart⟩
  · refine afterWord?_append_of_length_le hle (afterWord?_eq_none_iff.2 fun hwhole => ?_) s
    exact hhas (hwhole.isInfix.trans (hy.isInfix.map Char.toLower))

/-- The search goes through a text in which the word does not start. -/
theorem breakAt?_append_of_not_has (hhas : ¬ Has word x) (hends : ¬ EndsInside word x) (s : Text) :
    breakAt? word (x ++ s) = (breakAt? word s).map fun parts => (x ++ parts.1, parts.2) := by
  induction x with
  | nil => simp
  | cons c x ih =>
    have hhead : afterWord? word (c :: (x ++ s)) = none :=
      afterWord?_append_eq_none hhas hends List.suffix_rfl (List.cons_ne_nil c x) s
    rw [List.cons_append, breakAt?, hhead]
    dsimp only
    rw [ih (fun h => hhas (has_cons_iff.2 (Or.inr h)))
      fun h => hends (h.of_suffix (List.suffix_cons c x)), Option.map_map]
    rfl

/-- A word that is found in a text is found there whatever follows the text. -/
theorem breakAt?_append_of_eq_some (hword : word ≠ []) {a z : Text}
    (h : breakAt? word x = some (a, z)) (s : Text) :
    breakAt? word (x ++ s) = some (a, z ++ s) := by
  induction x generalizing a with
  | nil =>
    cases word with
    | nil => exact absurd rfl hword
    | cons => cases h
  | cons c x ih =>
    rw [breakAt?] at h
    rw [List.cons_append, breakAt?]
    cases hhead : afterWord? word (c :: x) with
    | some rest =>
      rw [hhead] at h
      cases h
      obtain ⟨w, hw, hsame⟩ := afterWord?_eq_some_iff.1 hhead
      rw [← List.cons_append, hw, List.append_assoc, afterWord?_append hsame]
    | none =>
      rw [hhead] at h
      obtain ⟨⟨b, rest⟩, hbreak, heq⟩ := Option.map_eq_some_iff.1 h
      cases heq
      have hle : word.length ≤ (c :: x).length := by
        have := length_of_breakAt? hbreak
        simp only [List.length_cons]
        omega
      rw [← List.cons_append, afterWord?_append_of_length_le hle hhead]
      dsimp only
      rw [ih hbreak]
      rfl

end Text

theorem rel_map {α β γ δ : Type} {R : α → β → Prop} {S : γ → δ → Prop} {f : α → γ} {g : β → δ}
    {a : Option α} {b : Option β} (h : Option.Rel R a b) (hfg : ∀ x y, R x y → S (f x) (g y)) :
    Option.Rel S (a.map f) (b.map g) := by
  cases h with
  | some hab => exact .some (hfg _ _ hab)
  | none => exact .none

/-! ## Parallel texts -/

namespace Document

open Markup (delimiters isDelimiter)

/-- The texts at which a page is split, but for the end of an opening tag. -/
def markers : List Text :=
  ["<head".toList, "</head>".toList, "<body".toList, "</body>".toList]

/-- Two texts in which the same texts stand in the same order, none of them ending inside of a
marker, with text without delimiters between them. -/
inductive Parallel : Text → Text → Prop
  | nil : Parallel [] []
  | same {x s t : Text} (hx : ∀ word ∈ markers, ¬ Text.EndsInside word x) (h : Parallel s t) :
      Parallel (x ++ s) (x ++ t)
  | plain {x y s t : Text} (hx : delimiters x = []) (hy : delimiters y = []) (h : Parallel s t) :
      Parallel (x ++ s) (y ++ t)

namespace Parallel

variable {s t : Text}

theorem delimiters_eq (h : Parallel s t) : delimiters s = delimiters t := by
  induction h with
  | nil => rfl
  | same hx h ih => rw [Markup.delimiters_append, Markup.delimiters_append, ih]
  | plain hx hy h ih => rw [Markup.delimiters_append, Markup.delimiters_append, hx, hy, ih]

/-- A text without delimiters neither has a marker nor ends inside of one, since a marker starts
with an angle bracket. -/
theorem not_has_of_plain {word x : Text} (hword : word ∈ markers) (hx : delimiters x = []) :
    ¬ Text.Has word x ∧ ¬ Text.EndsInside word x := by
  obtain ⟨rest, rfl⟩ : ∃ rest, word = '<' :: rest := by
    simp only [markers, List.mem_cons, List.not_mem_nil, or_false] at hword
    rcases hword with rfl | rfl | rfl | rfl <;> exact ⟨_, rfl⟩
  have hbracket : '<' ∉ Text.small x := by
    intro hin
    obtain ⟨c, hc, hsame⟩ := List.mem_map.1 hin
    have hplain := Markup.delimiters_eq_nil_iff.1 hx c hc
    rw [Text.eq_of_sameLetter (a := '<') (by decide) (Text.sameLetter_iff.2 hsame.symm)] at hplain
    exact absurd hplain (by decide)
  constructor
  · intro hhas
    exact hbracket (hhas.subset List.mem_cons_self)
  · rintro ⟨y, hy, hne, -, hprefix⟩
    cases y with
    | nil => exact hne rfl
    | cons c y =>
      have hhead : c.toLower = '<' := (List.cons_prefix_cons.1 hprefix).1
      exact hbracket (List.mem_map.2 ⟨c, hy.subset List.mem_cons_self, hhead⟩)

/-- **The search for a marker stops at the same place of both texts**, or in neither. -/
theorem breakAt? (h : Parallel s t) {word : Text} (hword : word ∈ markers) :
    Option.Rel (fun p q : Text × Text => delimiters p.1 = delimiters q.1 ∧ Parallel p.2 q.2)
      (Text.breakAt? word s) (Text.breakAt? word t) := by
  have hne : word ≠ [] := by
    rintro rfl
    exact absurd hword (by decide)
  induction h with
  | nil =>
    have hnone : Text.breakAt? word [] = none := by
      cases word with
      | nil => exact absurd rfl hne
      | cons => rfl
    rw [hnone]
    exact .none
  | @same x s t hx h ih =>
    cases hbreak : Text.breakAt? word x with
    | some parts =>
      obtain ⟨a, z⟩ := parts
      obtain ⟨found, rfl, hfound⟩ := Text.breakAt?_eq_some hbreak
      obtain ⟨w, rfl, -⟩ := Text.afterWord?_eq_some_iff.1 hfound
      have hsuffix : z <:+ a ++ (w ++ z) := ⟨a ++ w, List.append_assoc a w z⟩
      rw [Text.breakAt?_append_of_eq_some hne hbreak, Text.breakAt?_append_of_eq_some hne hbreak]
      exact .some ⟨rfl, .same (fun word hword hends => hx word hword (hends.of_suffix hsuffix)) h⟩
    | none =>
      have hhas := Text.breakAt?_eq_none_iff.1 hbreak
      rw [Text.breakAt?_append_of_not_has hhas (hx word hword),
        Text.breakAt?_append_of_not_has hhas (hx word hword)]
      refine rel_map ih fun p q hparts => ⟨?_, hparts.2⟩
      rw [Markup.delimiters_append, Markup.delimiters_append, hparts.1]
  | plain hx hy h ih =>
    obtain ⟨hhas, hends⟩ := not_has_of_plain hword hx
    obtain ⟨hhas', hends'⟩ := not_has_of_plain hword hy
    rw [Text.breakAt?_append_of_not_has hhas hends, Text.breakAt?_append_of_not_has hhas' hends']
    refine rel_map ih fun p q hparts => ⟨?_, hparts.2⟩
    rw [Markup.delimiters_append, Markup.delimiters_append, hx, hy, hparts.1]

/-- The first end of a tag is at the same place of both texts, or in neither. -/
theorem dropWhile_ne (h : Parallel s t) :
    (s.dropWhile (· != '>') = [] ∧ t.dropWhile (· != '>') = []) ∨
      ∃ s' t', s.dropWhile (· != '>') = '>' :: s' ∧ t.dropWhile (· != '>') = '>' :: t' ∧
        Parallel s' t' := by
  have hplain {x : Text} (hx : delimiters x = []) (s : Text) :
      (x ++ s).dropWhile (· != '>') = s.dropWhile (· != '>') := by
    apply List.dropWhile_append_of_pos
    intro c hc
    have hdelimiter := Markup.delimiters_eq_nil_iff.1 hx c hc
    simp only [bne_iff_ne, ne_eq]
    rintro rfl
    exact absurd hdelimiter (by decide)
  induction h with
  | nil => exact Or.inl ⟨rfl, rfl⟩
  | @same x s t hx h ih =>
    rw [List.dropWhile_append, List.dropWhile_append]
    cases hdrop : x.dropWhile (· != '>') with
    | nil => exact ih
    | cons c z =>
      have hend : c = '>' := by
        have hhead := List.head?_dropWhile_not (· != '>') x
        rw [hdrop] at hhead
        simpa using hhead
      have hsuffix : z <:+ x :=
        (List.suffix_cons c z).trans (hdrop ▸ List.dropWhile_suffix _)
      exact Or.inr ⟨z ++ s, z ++ t, by rw [hend]; rfl, by rw [hend]; rfl,
        .same (fun word hword hends => hx word hword (hends.of_suffix hsuffix)) h⟩
  | plain hx hy h ih =>
    rw [hplain hx, hplain hy]
    exact ih

/-- What is inside the first element of a name has the same delimiters in both texts, if there is
such an element at all. -/
theorem content? (h : Parallel s t) (name : Text)
    (hopen : '<' :: name ∈ markers) (hclose : '<' :: '/' :: (name ++ ['>']) ∈ markers) :
    Option.Rel (fun x y => delimiters x = delimiters y) (Document.content? name s)
      (Document.content? name t) := by
  rw [Document.content?, Document.content?]
  have hopened := h.breakAt? hopen
  generalize Text.breakAt? ('<' :: name) s = opened, Text.breakAt? ('<' :: name) t = opened'
    at hopened ⊢
  cases hopened with
  | none => exact .none
  | some hparts =>
    dsimp only
    rcases hparts.2.dropWhile_ne with ⟨hs, ht⟩ | ⟨s', t', hs, ht, hinside⟩
    · rw [hs, ht]
      exact .none
    · rw [hs, ht]
      exact rel_map (hinside.breakAt? hclose) fun p q hclosed => hclosed.1

end Parallel

/-- Parallel pages have heads with the same delimiters, and bodies with the same delimiters. -/
theorem Parallel.split {s t : Text} (h : Parallel s t) :
    delimiters (split s).head = delimiters (split t).head ∧
      delimiters (split s).body = delimiters (split t).body := by
  have hhead := h.content? "head".toList (by decide) (by decide)
  have hbody := h.content? "body".toList (by decide) (by decide)
  exact ⟨Template.rel_getD hhead rfl, Template.rel_getD hbody h.delimiters_eq⟩

end Document

/-! ## Pages of one template -/

namespace Template

mutual
/-- The texts of a node, at any depth. -/
def Node.texts : Node → List Text
  | .text s => [s]
  | .value _ => []
  | .loop _ body => Node.textsAll body
/-- The texts of nodes, at any depth. -/
def Node.textsAll : List Node → List Text
  | [] => []
  | node :: nodes => node.texts ++ Node.textsAll nodes
end

/-- What is copied from a template is one of its texts, and everything else that it comes to has no
delimiters. -/
theorem Node.markup_or_plain_of_mem_piecesAll {scope : Scope} {nodes : List Node}
    (hn : Node.Canonical scope nodes) {frames : Frames} {p : Piece}
    (hp : p ∈ Node.piecesAll frames nodes) :
    (∃ s ∈ Node.textsAll nodes, p = .markup s) ∨ Markup.delimiters p.text = [] := by
  have hbehind {node : Node} {nodes : List Node} (hold : (∃ s ∈ Node.textsAll nodes, p = .markup s) ∨
      Markup.delimiters p.text = []) :
      (∃ s ∈ Node.textsAll (node :: nodes), p = .markup s) ∨ Markup.delimiters p.text = [] := by
    refine hold.imp_left ?_
    rintro ⟨s, hs, hmarkup⟩
    exact ⟨s, List.mem_append_right _ hs, hmarkup⟩
  have htext {s : Text} {nodes : List Node} {frames : Frames}
      (ih : p ∈ Node.piecesAll frames nodes →
        (∃ s ∈ Node.textsAll nodes, p = .markup s) ∨ Markup.delimiters p.text = [])
      (hp : p ∈ Node.piecesAll frames (.text s :: nodes)) :
      (∃ t ∈ Node.textsAll (.text s :: nodes), p = .markup t) ∨ Markup.delimiters p.text = [] := by
    rw [Node.piecesAll, Node.pieces] at hp
    rcases List.mem_append.1 hp with hp | hp
    · exact Or.inl ⟨s, List.mem_append_left _ List.mem_cons_self, List.mem_singleton.1 hp⟩
    · exact hbehind (ih hp)
  induction hn generalizing frames with
  | nil => cases hp
  | stretch hs hnext hn ih => exact htext ih hp
  | closing ht hn ih => exact htext ih hp
  | opening ht hopen hn ih => exact htext ih hp
  | value ht hn ih =>
    obtain ⟨q, hq, hplain⟩ := Node.exists_pieces_value ht frames
    rw [Node.piecesAll, hq] at hp
    rcases List.mem_append.1 hp with hp | hp
    · rw [List.mem_singleton.1 hp]
      exact Or.inr hplain
    · exact hbehind (ih hp)
  | loop hsec hclose hbody hn ihbody ih =>
    rw [Node.piecesAll, Node.pieces] at hp
    rcases List.mem_append.1 hp with hp | hp
    · obtain ⟨frame, -, hp⟩ := List.mem_flatMap.1 hp
      refine (ihbody hp).imp_left ?_
      rintro ⟨s, hs, hmarkup⟩
      exact ⟨s, List.mem_append_left _ hs, hmarkup⟩
    · exact hbehind (ih hp)

/-- Pages whose pieces pair up are parallel, if no markup in them ends inside of a marker. -/
theorem parallel_textAll {ps qs : List Piece} (h : List.Forall₂ Piece.Alike ps qs)
    (hps : ∀ p ∈ ps, (∀ word ∈ Document.markers, ¬ Text.EndsInside word p.text) ∨
      Markup.delimiters p.text = []) :
    Document.Parallel (Piece.textAll ps) (Piece.textAll qs) := by
  induction h with
  | nil => exact .nil
  | @cons p q ps qs hpq _ ih =>
    have hrest := ih fun r hr => hps r (List.mem_cons_of_mem p hr)
    cases hpq with
    | plain hp hq => exact .plain hp hq hrest
    | same =>
      rcases hps p List.mem_cons_self with hends | hplain
      · exact .same hends hrest
      · exact .plain hplain hplain hrest

/-- **Values cannot move the split.** If no text of a template, at any depth, ends inside of one of
the four markers, then the pages that it comes to for two data of the same shape are split into
heads with the same angle brackets and quotes in the same order, and into bodies with the same ones,
whatever the texts in the data. -/
theorem delimiters_split_render_eq (source : Text)
    (htexts : ∀ s ∈ Node.textsAll (ofText source).nodes,
      ∀ word ∈ ["<head".toList, "</head>".toList, "<body".toList, "</body>".toList],
        ¬ Text.EndsInside word s)
    {d d' : Data} (hshape : d.shape = d'.shape) :
    let parts := Document.split ((ofText source).render d)
    let parts' := Document.split ((ofText source).render d')
    Markup.delimiters parts.head = Markup.delimiters parts'.head ∧
      Markup.delimiters parts.body = Markup.delimiters parts'.body := by
  have hn : Node.Canonical .page (ofText source).nodes :=
    Reading.canonical_ofTokens source (Token.lexed_scanFrom 0 source)
  have halike := Node.alike_piecesAll hn (.cons (Frame.Alike.page hshape) .nil)
  refine (parallel_textAll halike fun p hp => ?_).split
  refine (Node.markup_or_plain_of_mem_piecesAll hn hp).imp_left ?_
  rintro ⟨s, hs, rfl⟩
  exact htexts s hs

/-- A marker with a value in its attributes, and markers in a section that is repeated. -/
theorem delimiters_split_render_eq_attack :
    let source := Node.rawAll
      [.text "<head lang='".toList, .value "menuName".toList, .text "'>".toList,
        .loop .categories
          [.text "</head ></head><body ".toList, .value "categoryName".toList, .text ">".toList,
            .value "categoryDescription".toList, .text "</body>".toList]]
    let d : Data := ⟨[], none, [⟨[], none, []⟩, ⟨[], none, []⟩]⟩
    let attack := "'></head><body>".toList
    let d' : Data := ⟨attack, some attack, [⟨attack, some attack, []⟩, ⟨"ead>".toList, none, []⟩]⟩
    let parts := Document.split ((ofText source).render d)
    let parts' := Document.split ((ofText source).render d')
    (∀ s ∈ Node.textsAll (ofText source).nodes,
      ∀ word ∈ ["<head".toList, "</head>".toList, "<body".toList, "</body>".toList],
        ¬ Text.EndsInside word s) ∧ d.shape = d'.shape ∧
      Markup.delimiters parts.head = Markup.delimiters parts'.head ∧
        Markup.delimiters parts.body = Markup.delimiters parts'.body := by
  intro source d attack d' parts parts'
  have htexts : ∀ s ∈ Node.textsAll (ofText source).nodes,
      ∀ word ∈ ["<head".toList, "</head>".toList, "<body".toList, "</body>".toList],
        ¬ Text.EndsInside word s := by decide +kernel
  have hshape : d.shape = d'.shape := rfl
  exact ⟨htexts, hshape, delimiters_split_render_eq source htexts hshape⟩

end Template

end MenuPages
