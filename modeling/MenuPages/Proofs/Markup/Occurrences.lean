import MenuPages.Proofs.Markup.Reading

/-!
# How often a tag is printed

A word is counted in a text wherever it stands, with no regard to what is markup (`occurrences`). If
the word is an opening tag and the text was printed, each time is an element with that tag
(`occurrences_printAll`): a text of a tree is escaped, and there is no angle bracket between the
brackets of a tag, so nothing looks like the tag but the tag.
-/

namespace MenuPages

/-- How often a word stands in a text. -/
def Text.occurrences (w : Text) : Text → Nat
  | [] => 0
  | c :: s => (if w.isPrefixOf (c :: s) then 1 else 0) + occurrences w s

namespace Markup

open Text

/-- A word does not start where its first character is not. -/
theorem occurrences_append_of_notMem {c : Char} {a : Text} (h : c ∉ a) (w rest : Text) :
    occurrences (c :: w) (a ++ rest) = occurrences (c :: w) rest := by
  induction a with
  | nil => rfl
  | cons d a ih =>
    obtain ⟨hd, ha⟩ := not_or.mp (mt List.mem_cons.mpr h)
    rw [List.cons_append, occurrences, ih ha, if_neg, Nat.zero_add]
    rw [List.isPrefixOf_iff_prefix, List.cons_prefix_cons]
    exact fun hpre => hd hpre.1

/-- A tag is there if it is the one between the first brackets. -/
theorem isPrefixOf_tag_iff {w tag : Text} (hw : '>' ∉ w) (hclose : '>' ∉ tag) (rest : Text) :
    ('<' :: (w ++ ['>'])).isPrefixOf ('<' :: (tag ++ '>' :: rest)) ↔ tag = w := by
  rw [List.isPrefixOf_iff_prefix, List.cons_prefix_cons]
  constructor
  · rintro ⟨-, r, hr⟩
    rw [List.append_assoc, List.singleton_append] at hr
    have hafter := afterTag?_append hw r
    rw [hr, afterTag?_append hclose] at hafter
    cases hafter
    rfl
  · rintro rfl
    exact ⟨rfl, rest, by simp⟩

/-- A tag is counted if it is the one that is looked for. -/
theorem occurrences_tag {w tag : Text} (hw : '>' ∉ w) (hclose : '>' ∉ tag) (hopen : '<' ∉ tag)
    (rest : Text) :
    occurrences ('<' :: (w ++ ['>'])) ('<' :: (tag ++ '>' :: rest)) =
      (if tag = w then 1 else 0) + occurrences ('<' :: (w ++ ['>'])) rest := by
  have hinside : '<' ∉ tag ++ ['>'] := by simp [hopen]
  have hrest := occurrences_append_of_notMem hinside (w ++ ['>']) rest
  rw [List.append_assoc, List.singleton_append] at hrest
  rw [occurrences, hrest]
  simp only [isPrefixOf_tag_iff hw hclose]

namespace Tree

/-- How many elements have this between the brackets of their opening tag. -/
def tagged (w : Text) : List Tree → Nat
  | [] => 0
  | .text _ :: ts => tagged w ts
  | .element name attributes children :: ts =>
    (if tag name attributes = w then 1 else 0) + tagged w children + tagged w ts

@[simp] theorem tagged_nil (w : Text) : tagged w [] = 0 := by rw [tagged]

@[simp] theorem tagged_text (w s : Text) (ts : List Tree) :
    tagged w (.text s :: ts) = tagged w ts := by rw [tagged]

@[simp] theorem tagged_element (w name : Text) (attributes : List TreeAttribute)
    (children ts : List Tree) :
    tagged w (.element name attributes children :: ts) =
      (if tag name attributes = w then 1 else 0) + tagged w children + tagged w ts := by rw [tagged]

@[simp] theorem tagged_append (w : Text) (ts us : List Tree) :
    tagged w (ts ++ us) = tagged w ts + tagged w us := by
  induction ts with
  | nil => simp
  | cons t ts ih => cases t <;> simp [ih, Nat.add_assoc]

/-- What is counted in the trees of each of them is counted in those of all. -/
theorem tagged_flatMap {α β : Type} {w : Text} {f : α → List Tree} {g : α → List β}
    (h : ∀ a, tagged w (f a) = (g a).length) (as : List α) :
    tagged w (as.flatMap f) = (as.flatMap g).length := by
  induction as with
  | nil => exact tagged_nil w
  | cons a as ih =>
    rw [List.flatMap_cons, tagged_append, h, ih, List.flatMap_cons, List.length_append]

theorem tagged_line (w name : Text) (attributes : List TreeAttribute) (children : List Tree) :
    tagged w [.element name attributes children, newline] =
      (if tag name attributes = w then 1 else 0) + tagged w children := by
  simp [newline]

theorem Uses.tagged_eq_zero {tags : List Text} {ts : List Tree} (h : Uses tags ts) {w : Text}
    (hw : w ∉ tags) : tagged w ts = 0 := by
  fun_induction Uses tags ts with
  | case1 => exact tagged_nil w
  | case2 s ts ih => rw [tagged_text, ih h]
  | case3 name attributes children ts ihchildren ih =>
    obtain ⟨⟨htag, -⟩, hchildren, hrest⟩ := h
    have hne : tag name attributes ≠ w := fun heq => hw (heq ▸ htag)
    rw [tagged_element, if_neg hne, ihchildren hchildren, ih hrest]

end Tree

/-- **An opening tag stands in printed trees as often as they have elements with it**, whatever
their texts are. -/
theorem occurrences_printAll {tags : List Text} (htags : ∀ tag ∈ tags, IsOpeningTag tag)
    (hlt : ∀ tag ∈ tags, '<' ∉ tag) {w : Text} (hw : w ∈ tags) (ts : List Tree)
    (huses : Tree.Uses tags ts) (rest : Text) :
    occurrences ('<' :: (w ++ ['>'])) (Tree.printAll ts ++ rest) =
      Tree.tagged w ts + occurrences ('<' :: (w ++ ['>'])) rest :=
  match ts with
  | [] => by
    rw [Tree.printAll, Tree.tagged_nil, Nat.zero_add]
    rfl
  | .text s :: ts => by
    rw [Tree.Uses] at huses
    rw [Tree.printAll, Tree.print, List.append_assoc,
      occurrences_append_of_notMem (lt_notMem_escape s), Tree.tagged_text]
    exact occurrences_printAll htags hlt hw ts huses rest
  | .element name attributes children :: ts => by
    rw [Tree.Uses] at huses
    obtain ⟨⟨htag, hname⟩, hchildren, hts⟩ := huses
    obtain ⟨hwclose, hwslash⟩ := htags w hw
    have hclose := (htags _ htag).1
    have hopen := hlt _ htag
    have hnameclose : '>' ∉ name := by
      rw [← hname]
      exact fun hmem => hclose (List.takeWhile_subset _ hmem)
    have hnameopen : '<' ∉ name := by
      rw [← hname]
      exact fun hmem => hopen (List.takeWhile_subset _ hmem)
    have hclosing : '/' :: name ≠ w := by
      rintro rfl
      exact hwslash rfl
    have hendclose : '>' ∉ '/' :: name := by simp [hnameclose]
    have hendopen : '<' ∉ '/' :: name := by simp [hnameopen]
    have hbehind := occurrences_tag hwclose hendclose hendopen (Tree.printAll ts ++ rest)
    rw [if_neg hclosing, Nat.zero_add, occurrences_printAll htags hlt hw ts hts rest] at hbehind
    have hopening := occurrences_tag hwclose hclose hopen
      (Tree.printAll children ++ (Tree.closingTag name ++ (Tree.printAll ts ++ rest)))
    have hinside := occurrences_printAll htags hlt hw children hchildren
      (Tree.closingTag name ++ (Tree.printAll ts ++ rest))
    rw [hinside] at hopening
    simp only [Tree.closingTag, List.cons_append, List.append_assoc, List.nil_append]
      at hbehind hopening
    rw [hbehind] at hopening
    simpa [Tree.printAll, Tree.print, Tree.openingTag, Tree.closingTag, Tree.tag, Nat.add_assoc]
      using hopening

end Markup

end MenuPages
