import MenuPages.Markup.Tree
import MenuPages.Proofs.Markup.Escaping
import MenuPages.Proofs.Text.Words

/-!
# Reading markup

A reader of markup that knows nothing of what was printed. It cuts a text into tags and the texts
between them (`lexemes`), with nothing lost (`raw_lexemes`), and nests what is between an opening
tag and its closing tag (`nest`), or finds that the tags do not match. References are read in the
texts, after the tags were found.

What is printed of a tree is read as that tree (`nodes?_printAll`), except that nothing is left of
an empty text, and that nothing keeps apart two texts side by side (`Tree.nodes`). Its tags are
among the tags that the elements of the tree have, and there are no angle brackets elsewhere
(`within_lexemes_printAll`).
-/

namespace MenuPages.Markup

open Text

/-! ## Tags and texts -/

/-- A tag without its brackets, or a text between tags. -/
inductive Lexeme where
  | opening (tag : Text)
  | closing (name : Text)
  | text (s : Text)
  deriving DecidableEq

namespace Lexeme

/-- What was read. -/
def raw : Lexeme → Text
  | opening tag => '<' :: (tag ++ ['>'])
  | closing name => '<' :: '/' :: (name ++ ['>'])
  | text s => s

/-- The tag with this between its brackets. -/
def ofTag : Text → Lexeme
  | '/' :: name => closing name
  | tag => opening tag

/-- A text in front of others: two texts side by side are one, and an empty one is none. -/
def addText (s : Text) : List Lexeme → List Lexeme
  | text t :: ls => text (s ++ t) :: ls
  | ls => if s = [] then ls else text s :: ls

end Lexeme

/-- What is before and behind the first closing bracket. -/
def afterTag? (s : Text) : Option (Text × Text) :=
  match s.dropWhile (· != '>') with
  | [] => none
  | _ :: behind => some (s.takeWhile (· != '>'), behind)

theorem eq_of_afterTag? {s tag behind : Text} (h : afterTag? s = some (tag, behind)) :
    s = tag ++ '>' :: behind := by
  unfold afterTag? at h
  split at h
  · simp at h
  · next c rest hdrop =>
    simp only [Option.some.injEq, Prod.mk.injEq] at h
    obtain ⟨rfl, rfl⟩ := h
    obtain rfl : c = '>' := by
      have hhead := List.head?_dropWhile_not (· != '>') s
      rw [hdrop] at hhead
      simpa using hhead
    rw [← hdrop, List.takeWhile_append_dropWhile]

theorem afterTag?_append {tag : Text} (h : '>' ∉ tag) (behind : Text) :
    afterTag? (tag ++ '>' :: behind) = some (tag, behind) := by
  have hne : ∀ c ∈ tag, (c != '>') = true := by
    intro c hc
    rw [bne_iff_ne]
    rintro rfl
    exact h hc
  rw [afterTag?, dropWhile_append_cons hne (by decide), takeWhile_append_cons hne (by decide)]

/-- The tags and the texts of a text. An opening bracket that is never closed is text. -/
def lexemes (s : Text) : List Lexeme :=
  match s with
  | [] => []
  | c :: s =>
    if c = '<' then
      match _h : afterTag? s with
      | some (tag, behind) => Lexeme.ofTag tag :: lexemes behind
      | none => Lexeme.addText [c] (lexemes s)
    else Lexeme.addText [c] (lexemes s)
termination_by s.length
decreasing_by
  · rw [eq_of_afterTag? _h]
    simp
    omega
  · simp
  · simp

/-! ## Nesting -/

/-- What markup reads as. An element keeps its opening tag as it stands. -/
inductive Node where
  | text (s : Text)
  | element (tag : Text) (children : List Node)

/-- The name of the element that a tag opens. -/
def tagName (tag : Text) : Text := tag.takeWhile (· != ' ')

/-- Nests what is left, inside of the elements that are open. Each of these comes with what was read
before it; `done` was read last. Both are in reverse. -/
def nest : (opened : List (Text × List Node)) → (done : List Node) → List Lexeme →
    Option (List Node)
  | [], done, [] => some done.reverse
  | _ :: _, _, [] => none
  | opened, done, .text s :: ls => nest opened (.text (decode s) :: done) ls
  | opened, done, .opening tag :: ls => nest ((tag, done) :: opened) [] ls
  | [], _, .closing _ :: _ => none
  | (tag, outer) :: opened, done, .closing name :: ls =>
    if tagName tag = name then nest opened (.element tag done.reverse :: outer) ls else none

/-- Reads markup. -/
def nodes? (s : Text) : Option (List Node) := nest [] [] (lexemes s)

/-! ## Nothing is lost -/

theorem Lexeme.raw_ofTag (tag : Text) : (ofTag tag).raw = '<' :: (tag ++ ['>']) := by
  unfold ofTag
  split <;> rfl

@[simp] theorem Lexeme.addText_nil (ls : List Lexeme) : addText [] ls = ls := by
  unfold addText
  split
  · rfl
  · exact if_pos rfl

theorem Lexeme.addText_append (s t : Text) (ls : List Lexeme) :
    addText (s ++ t) ls = addText s (addText t ls) := by
  by_cases ht : t = []
  · rw [ht, List.append_nil, addText_nil]
  · have hst : s ++ t ≠ [] := List.append_ne_nil_of_right_ne_nil s ht
    cases ls with
    | nil => simp only [addText, if_neg ht, if_neg hst]
    | cons l ls =>
      cases l with
      | text u => simp only [addText, List.append_assoc]
      | opening tag => simp only [addText, if_neg ht, if_neg hst]
      | closing name => simp only [addText, if_neg ht, if_neg hst]

theorem Lexeme.flatMap_raw_addText (s : Text) (ls : List Lexeme) :
    (addText s ls).flatMap raw = s ++ ls.flatMap raw := by
  unfold addText
  split
  · rw [List.flatMap_cons, List.flatMap_cons, raw, raw, List.append_assoc]
  · split
    · next hs => rw [hs, List.nil_append]
    · rw [List.flatMap_cons, raw]

/-- What was read is what there was. -/
theorem raw_lexemes (s : Text) : (lexemes s).flatMap Lexeme.raw = s := by
  fun_induction lexemes s with
  | case1 => rfl
  | case2 s tag behind h ih =>
    rw [List.flatMap_cons, ih, Lexeme.raw_ofTag, eq_of_afterTag? h]
    simp
  | case3 s _ ih => rw [Lexeme.flatMap_raw_addText, ih]; rfl
  | case4 c s _ ih => rw [Lexeme.flatMap_raw_addText, ih]; rfl

/-! ## One tag, one text -/

/-- What may be between the brackets of an opening tag. -/
def IsOpeningTag (tag : Text) : Prop := '>' ∉ tag ∧ tag.head? ≠ some '/'

theorem Lexeme.ofTag_eq {tag : Text} (h : tag.head? ≠ some '/') : ofTag tag = opening tag := by
  unfold ofTag
  split
  · exact absurd rfl h
  · rfl

theorem Lexeme.addText_of_head? {ls : List Lexeme} (h : ∀ t, ls.head? ≠ some (text t)) (s : Text) :
    addText s ls = if s = [] then ls else text s :: ls := by
  unfold addText
  split
  · next t _ => exact absurd rfl (h t)
  · rfl

theorem lexemes_tag {tag : Text} (h : '>' ∉ tag) (rest : Text) :
    lexemes ('<' :: (tag ++ '>' :: rest)) = Lexeme.ofTag tag :: lexemes rest := by
  rw [lexemes, if_pos rfl]
  split
  · next hafter =>
    rw [afterTag?_append h] at hafter
    cases hafter
    rfl
  · next hafter => simp [afterTag?_append h] at hafter

theorem lexemes_text {s : Text} (h : '<' ∉ s) (rest : Text) :
    lexemes (s ++ rest) = Lexeme.addText s (lexemes rest) := by
  induction s with
  | nil => rw [List.nil_append, Lexeme.addText_nil]
  | cons c s ih =>
    obtain ⟨hc, hs⟩ := not_or.mp (mt List.mem_cons.mpr h)
    rw [List.cons_append, lexemes, if_neg (Ne.symm hc), ih hs, ← Lexeme.addText_append]
    rfl

/-! ## What trees read as -/

theorem lt_notMem_escape (s : Text) : '<' ∉ escape s := fun hmem =>
  absurd (delimiters_eq_nil_iff.1 (delimiters_escape s) _ hmem) (by decide)

theorem gt_notMem_escape (s : Text) : '>' ∉ escape s := fun hmem =>
  absurd (delimiters_eq_nil_iff.1 (delimiters_escape s) _ hmem) (by decide)

theorem escape_eq_nil_iff {s : Text} : escape s = [] ↔ s = [] := by
  constructor
  · intro h
    rw [← decode_escape s, h]
    rfl
  · rintro rfl
    rfl

namespace Node

/-- A text in front of others: two texts side by side are one, and an empty one is none. -/
def addText (s : Text) : List Node → List Node
  | text t :: ns => text (s ++ t) :: ns
  | ns => if s = [] then ns else text s :: ns

mutual
/-- The tags and texts of a node. -/
def lexemes : Node → List Lexeme
  | text s => [.text (escape s)]
  | element tag children => .opening tag :: (lexemesAll children ++ [.closing (tagName tag)])
/-- The tags and texts of nodes. -/
def lexemesAll : List Node → List Lexeme
  | [] => []
  | n :: ns => n.lexemes ++ lexemesAll ns
end

theorem lexemesAll_addText (s : Text) (ns : List Node) (ls : List Lexeme)
    (hls : ∀ t, ls.head? ≠ some (.text t)) :
    lexemesAll (addText s ns) ++ ls = Lexeme.addText (escape s) (lexemesAll ns ++ ls) := by
  cases ns with
  | nil =>
    rw [lexemesAll, List.nil_append, Lexeme.addText_of_head? hls]
    simp only [addText, escape_eq_nil_iff]
    split <;> rfl
  | cons n ns =>
    cases n with
    | text t =>
      rw [addText, lexemesAll, lexemes, lexemesAll, lexemes, escape_append]
      rfl
    | element tag children =>
      have hhead : ∀ t, (lexemesAll (element tag children :: ns) ++ ls).head? ≠ some (.text t) := by
        simp [lexemesAll, lexemes]
      rw [Lexeme.addText_of_head? hhead]
      simp only [addText, escape_eq_nil_iff]
      split <;> rfl

end Node

/-- What is between the brackets of the opening tag of an element. -/
def Tree.tag (name : Text) (attributes : List TreeAttribute) : Text :=
  name ++ attributes.flatMap TreeAttribute.print

/-- What a tree reads as. -/
def Tree.nodes : List Tree → List Node
  | [] => []
  | .text s :: ts => Node.addText s (nodes ts)
  | .element name attributes children :: ts =>
    .element (tag name attributes) (nodes children) :: nodes ts

/-- All elements have one of these tags, and its name. -/
def Tree.Uses (tags : List Text) : List Tree → Prop
  | [] => True
  | .text _ :: ts => Uses tags ts
  | .element name attributes children :: ts =>
    (tag name attributes ∈ tags ∧ tagName (tag name attributes) = name) ∧ Uses tags children ∧
      Uses tags ts

namespace Tree

variable {tags : List Text} {ts us : List Tree}

theorem uses_nil : Uses tags [] := by
  rw [Uses]
  trivial

theorem Uses.text (hts : Uses tags ts) (s : Text) : Uses tags (.text s :: ts) := by
  rwa [Uses]

theorem Uses.element {name : Text} {attributes : List TreeAttribute} {children : List Tree}
    (hts : Uses tags ts) (hchildren : Uses tags children)
    (htag : tag name attributes ∈ tags ∧ tagName (tag name attributes) = name := by decide) :
    Uses tags (.element name attributes children :: ts) := by
  rw [Uses]
  exact ⟨htag, hchildren, hts⟩

theorem Uses.append (hts : Uses tags ts) (hus : Uses tags us) : Uses tags (ts ++ us) := by
  induction ts with
  | nil => exact hus
  | cons t ts ih =>
    cases t with
    | text s =>
      rw [Uses] at hts
      exact (ih hts).text s
    | element name attributes children =>
      rw [Uses] at hts
      obtain ⟨htag, hchildren, hrest⟩ := hts
      exact (ih hrest).element hchildren htag

theorem Uses.mono {more : List Text} (hts : Uses tags ts) (hmore : tags ⊆ more) :
    Uses more ts := by
  fun_induction Uses tags ts with
  | case1 => exact uses_nil
  | case2 s ts ih => exact (ih hts).text s
  | case3 name attributes children ts ihchildren ih =>
    obtain ⟨⟨htag, hname⟩, hchildren, hrest⟩ := hts
    exact (ih hrest).element (ihchildren hchildren) ⟨hmore htag, hname⟩

theorem uses_flatMap {α : Type} {f : α → List Tree} (h : ∀ a, Uses tags (f a)) (as : List α) :
    Uses tags (as.flatMap f) := by
  induction as with
  | nil => exact uses_nil
  | cons a as ih => exact (h a).append ih

end Tree

theorem nest_lexemesAll (ns : List Node) (opened : List (Text × List Node)) (done : List Node)
    (ls : List Lexeme) :
    nest opened done (Node.lexemesAll ns ++ ls) = nest opened (ns.reverse ++ done) ls :=
  match ns with
  | [] => rfl
  | .text s :: ns => by
    rw [Node.lexemesAll, Node.lexemes, List.reverse_cons, List.append_assoc]
    have := nest_lexemesAll ns opened (.text s :: done) ls
    simpa [nest, decode_escape] using this
  | .element tag children :: ns => by
    have hchildren := nest_lexemesAll children ((tag, done) :: opened) []
      (.closing (tagName tag) :: (Node.lexemesAll ns ++ ls))
    have := nest_lexemesAll ns opened (.element tag children :: done) ls
    simp [Node.lexemesAll, Node.lexemes, nest, hchildren, this]

theorem lexemes_printAll {tags : List Text} (htags : ∀ tag ∈ tags, IsOpeningTag tag)
    (ts : List Tree) (huses : Tree.Uses tags ts) (rest : Text)
    (hrest : ∀ t, (lexemes rest).head? ≠ some (.text t)) :
    lexemes (Tree.printAll ts ++ rest) = Node.lexemesAll (Tree.nodes ts) ++ lexemes rest :=
  match ts with
  | [] => by
    rw [Tree.printAll, Tree.nodes, Node.lexemesAll]
    rfl
  | .text s :: ts => by
    rw [Tree.Uses] at huses
    have ih := lexemes_printAll htags ts huses rest hrest
    rw [Tree.printAll, Tree.print, List.append_assoc, lexemes_text (lt_notMem_escape s), ih,
      Tree.nodes, Node.lexemesAll_addText s _ _ hrest]
  | .element name attributes children :: ts => by
    rw [Tree.Uses] at huses
    obtain ⟨⟨htag, hname⟩, hchildren, hts⟩ := huses
    obtain ⟨hend, hslash⟩ := htags _ htag
    have hclosing : '>' ∉ '/' :: name := by
      rw [← hname]
      intro hmem
      rcases List.mem_cons.mp hmem with heq | hmem
      · exact absurd heq (by decide)
      · exact hend (List.takeWhile_subset _ hmem)
    have hbehind : lexemes (Tree.closingTag name ++ (Tree.printAll ts ++ rest)) =
        .closing name :: (Node.lexemesAll (Tree.nodes ts) ++ lexemes rest) := by
      rw [← lexemes_printAll htags ts hts rest hrest]
      simpa [Tree.closingTag, Lexeme.ofTag] using lexemes_tag hclosing (Tree.printAll ts ++ rest)
    have hinside := lexemes_printAll htags children hchildren
      (Tree.closingTag name ++ (Tree.printAll ts ++ rest)) (by simp [hbehind])
    have hopening := lexemes_tag hend
      (Tree.printAll children ++ (Tree.closingTag name ++ (Tree.printAll ts ++ rest)))
    rw [Lexeme.ofTag_eq hslash, hinside, hbehind] at hopening
    rw [Tree.nodes, Node.lexemesAll, Node.lexemes, hname]
    simpa [Tree.printAll, Tree.print, Tree.openingTag, Tree.tag] using hopening

/-- What is printed of trees is read as these trees. -/
theorem nodes?_printAll {tags : List Text} (htags : ∀ tag ∈ tags, IsOpeningTag tag)
    {ts : List Tree} (huses : Tree.Uses tags ts) :
    nodes? (Tree.printAll ts) = some (Tree.nodes ts) := by
  have hlexemes := lexemes_printAll htags ts huses [] (by simp [lexemes])
  rw [List.append_nil] at hlexemes
  rw [nodes?, hlexemes, nest_lexemesAll, List.append_nil, lexemes, nest, List.reverse_reverse]

/-- A tag is one of these or closes one of them, and a text has no angle brackets. -/
def Lexeme.Within (tags : List Text) : Lexeme → Prop
  | opening tag => tag ∈ tags
  | closing name => name ∈ tags.map tagName
  | text s => '<' ∉ s ∧ '>' ∉ s

theorem Lexeme.within_addText {tags : List Text} {s : Text} {ls : List Lexeme}
    (hs : '<' ∉ s ∧ '>' ∉ s) (hls : ∀ l ∈ ls, l.Within tags) :
    ∀ l ∈ addText s ls, l.Within tags := by
  unfold addText
  split
  · next t ls =>
    obtain ⟨ht, hrest⟩ := List.forall_mem_cons.mp hls
    refine List.forall_mem_cons.mpr ⟨?_, hrest⟩
    simp only [Within, List.mem_append, not_or] at ht ⊢
    exact ⟨⟨hs.1, ht.1⟩, hs.2, ht.2⟩
  · split
    · exact hls
    · exact List.forall_mem_cons.mpr ⟨hs, hls⟩

theorem within_lexemesAll {tags : List Text} (ts : List Tree) (huses : Tree.Uses tags ts) :
    ∀ l ∈ Node.lexemesAll (Tree.nodes ts), l.Within tags :=
  match ts with
  | [] => by
    rw [Tree.nodes, Node.lexemesAll]
    nofun
  | .text s :: ts => by
    rw [Tree.Uses] at huses
    have htext := Node.lexemesAll_addText s (Tree.nodes ts) [] nofun
    rw [List.append_nil, List.append_nil] at htext
    rw [Tree.nodes, htext]
    have hbrackets := And.intro (lt_notMem_escape s) (gt_notMem_escape s)
    exact Lexeme.within_addText hbrackets (within_lexemesAll ts huses)
  | .element name attributes children :: ts => by
    rw [Tree.Uses] at huses
    obtain ⟨⟨htag, hname⟩, hchildren, hts⟩ := huses
    have hclosing : tagName (Tree.tag name attributes) ∈ tags.map tagName :=
      List.mem_map_of_mem htag
    rw [Tree.nodes, Node.lexemesAll, Node.lexemes]
    intro l hl
    simp only [List.cons_append, List.append_assoc, List.mem_cons, List.mem_append,
      List.nil_append] at hl
    rcases hl with rfl | hl | rfl | hl
    · exact htag
    · exact within_lexemesAll children hchildren l hl
    · exact hclosing
    · exact within_lexemesAll ts hts l hl

theorem within_lexemes_printAll {tags : List Text} (htags : ∀ tag ∈ tags, IsOpeningTag tag)
    {ts : List Tree} (huses : Tree.Uses tags ts) :
    ∀ l ∈ lexemes (Tree.printAll ts), l.Within tags := by
  have hlexemes := lexemes_printAll htags ts huses [] (by simp [lexemes])
  rw [List.append_nil, lexemes, List.append_nil] at hlexemes
  rw [hlexemes]
  exact within_lexemesAll ts huses

end MenuPages.Markup
