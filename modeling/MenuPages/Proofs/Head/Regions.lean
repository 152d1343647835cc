import MenuPages.Proofs.Head.Serialization

/-!
# What the scan passes over

A content may hold much that is no `style` and no `link` element: text, comments, and elements whose
content is text, such as scripts. What looks like an element inside of a comment or of such an
element is none.

**The law** (`elements_flatMap_markup_append`): a content that is put together from pieces of these
kinds, in any order, gives the elements among its pieces and nothing else. The last piece may be a
comment or an element that is never closed. A piece is passed over exactly to its end whatever is
behind it (`Piece.found_markup_append`), so what it holds is not looked at and what follows it is not
lost.
-/

namespace MenuPages.Head

open Text

/-! ## Tags of other names -/

theorem endsTagName_toLower {c : Char} (h : endsTagName c = true) :
    endsTagName c.toLower = true := by
  have hupper : c.isUpper = false := by
    simp only [endsTagName, Bool.or_eq_true, beq_iff_eq] at h
    rcases h with (((((rfl | rfl) | rfl) | rfl) | rfl) | rfl) | rfl <;> decide
  rwa [toLower_eq_self hupper]

/-- What is a name but for its case has nothing in it that ends one. -/
theorem endsTagName_eq_false {w name : Text} (hw : small w = small name)
    (hname : ∀ d ∈ small name, endsTagName d = false) : ∀ d ∈ w, endsTagName d = false := by
  intro d hd
  by_contra hends
  rw [Bool.not_eq_false] at hends
  have hlower : d.toLower ∈ small name := hw ▸ List.mem_map_of_mem hd
  exact absurd (endsTagName_toLower hends) (by rw [hname _ hlower]; decide)

/-- A name reaches to the first character that ends one. -/
theorem takeWhile_name {w : Text} {c : Char} (hw : ∀ d ∈ w, endsTagName d = false)
    (hc : endsTagName c = true) (s : Text) :
    (w ++ c :: s).takeWhile (fun d => !endsTagName d) = w :=
  takeWhile_append_cons (fun d hd => by rw [hw d hd]; rfl) (by rw [hc]; rfl) s

/-- A tag is not read as one of another name. -/
theorem startTag?_eq_none {other w s : Text} {c : Char} (hw : ∀ d ∈ w, endsTagName d = false)
    (hc : endsTagName c = true) (hother : ∀ d ∈ small other, endsTagName d = false)
    (hne : small other ≠ small w) : startTag? other ('<' :: (w ++ c :: s)) = none := by
  rw [startTag?]
  cases hread : afterWord? ('<' :: other) ('<' :: (w ++ c :: s)) with
  | none => rfl
  | some rest =>
    cases rest with
    | nil => rfl
    | cons d rest =>
      apply if_neg
      intro hd
      obtain ⟨v, hv, hsmall⟩ := afterWord?_eq_some_iff.1 hread
      cases v with
      | nil => cases hsmall
      | cons b v =>
        have hrest : w ++ c :: s = v ++ d :: rest := (List.cons.inj hv).2
        have hv' : small v = small other := (List.cons.inj hsmall).2
        have htaken := congrArg (List.takeWhile fun e => !endsTagName e) hrest
        rw [takeWhile_name hw hc, takeWhile_name (endsTagName_eq_false hv' hother) hd] at htaken
        exact hne (by rw [← hv', htaken])

/-! ## Elements whose content is text -/

/-- An element whose content is text, up to its end tag: its name in any case, any attributes that
can be written, and a content without the end tag. -/
structure TextElement where
  name : Text
  name_mem : name ∈ ["script".toList, "noscript".toList, "title".toList, "textarea".toList]
  /-- The name as it is written. -/
  written : Text
  small_written : small written = small name
  attributes : List Attribute
  attributeName : ∀ a ∈ attributes, a.name ≠ [] ∧ ∀ c ∈ a.name, isAttributeNameChar c = true
  content : Text
  not_has_end : ¬ Has ('<' :: '/' :: name) content

namespace TextElement

/-- The element without its end tag. -/
def opened (e : TextElement) : Text :=
  '<' :: (e.written ++ (e.attributes.flatMap Attribute.markup ++ '>' :: e.content))

theorem letters_of_any {name : Text} (h : name.any endsTagName = false) :
    ∀ d ∈ name, endsTagName d = false := by
  simpa using h

/-- The names of these elements are of small letters, and none starts as a comment does or a link. -/
theorem letters_of_mem {name : Text} (h : name ∈ textElements) :
    (small name).any endsTagName = false ∧ '<' ∉ small name ∧
      small name ≠ small HeadTag.style.name ∧ small name ≠ small HeadTag.link.name ∧
      small name = name ∧ (small name).head? ∈ [some 's', some 'n', some 't'] := by
  revert name
  decide

theorem exists_cons_written (e : TextElement) :
    ∃ c w, e.written = c :: w ∧ sameLetter '!' c = false ∧ sameLetter 'l' c = false := by
  obtain ⟨-, -, -, -, -, hhead⟩ := letters_of_mem e.name_mem
  rw [← e.small_written] at hhead
  cases hwritten : e.written with
  | nil =>
    rw [hwritten] at hhead
    exact absurd hhead (by decide)
  | cons c w =>
    rw [hwritten] at hhead
    have hlower : c.toLower = 's' ∨ c.toLower = 'n' ∨ c.toLower = 't' := by
      simpa [small] using hhead
    refine ⟨c, w, rfl, ?_⟩
    unfold sameLetter
    rcases hlower with h | h | h <;> rw [h] <;> decide

/-- The scan stops in front of the element and does not give up on it. -/
theorem skipGap_opened (e : TextElement) (rest : Text) :
    skipGap (e.opened ++ rest) = e.opened ++ rest ∧ cutsCharacter (e.opened ++ rest) = false := by
  obtain ⟨c, w, hwritten, hcomment, hlink⟩ := e.exists_cons_written
  have hword (d : Char) (word s : Text) (hd : sameLetter d c = false) :
      afterWord? ('<' :: d :: word) ('<' :: c :: s) = none := by
    rw [afterWord?, if_pos (by decide), afterWord?, if_neg (by simp [hd])]
  rw [opened, hwritten]
  refine ⟨?_, ?_⟩
  · have hnone (s : Text) : afterComment? ('<' :: c :: s) = none :=
      Option.map_eq_none_iff.2 (hword '!' _ s hcomment)
    exact (skipGap_cons (hnone _)).trans (if_neg (by decide))
  · have hlin (s : Text) : afterWord? "<lin".toList ('<' :: c :: s) = none := hword 'l' _ s hlink
    rw [cutsCharacter]
    simp only [List.cons_append, hlin]

/-- The opening tag is read as one of the name of the element, and of no other name. -/
theorem startTag?_opened (e : TextElement) (rest : Text) :
    (∃ as, startTag? e.name (e.opened ++ rest) = some (as, e.content ++ rest)) ∧
      ∀ other, (∀ d ∈ small other, endsTagName d = false) → small other ≠ small e.name →
        startTag? other (e.opened ++ rest) = none := by
  obtain ⟨hname, -⟩ := letters_of_mem e.name_mem
  have hbehind := behind_attributes_flatMap_markup e.attributeName (e.content ++ rest)
  obtain ⟨c, s, hs, hc⟩ : ∃ c s,
      e.attributes.flatMap Attribute.markup ++ '>' :: (e.content ++ rest) = c :: s ∧
        endsTagName c = true := by
    cases e.attributes with
    | nil => exact ⟨'>', _, rfl, rfl⟩
    | cons a as => exact ⟨' ', _, rfl, rfl⟩
  have hopened : e.opened ++ rest = '<' :: (e.written ++ c :: s) := by
    rw [← hs, opened]
    simp
  rw [hs] at hbehind
  rw [hopened]
  have hletters := endsTagName_eq_false e.small_written (letters_of_any hname)
  exact ⟨⟨_, startTag?_written e.small_written hc (Prod.ext rfl hbehind)⟩,
    fun other hother hne => startTag?_eq_none hletters hc hother (e.small_written ▸ hne)⟩

/-- The element is passed over, and its content with it. -/
theorem element?_opened (e : TextElement) (rest : Text) :
    element? (e.opened ++ rest) = some (none, (rawText e.name (e.content ++ rest)).2) := by
  obtain ⟨-, -, hstyle, hlink, -⟩ := letters_of_mem e.name_mem
  obtain ⟨⟨as, hread⟩, hothers⟩ := e.startTag?_opened rest
  rw [element?, hothers _ (letters_of_any (by decide)) hstyle.symm,
    hothers _ (letters_of_any (by decide)) hlink.symm]
  have hknown : e.name ∈ textElements := e.name_mem
  obtain ⟨before, behind, hsplit⟩ := List.append_of_mem hknown
  have hnone : ∀ other ∈ before, startTag? other (e.opened ++ rest) = none := by
    intro other hmem
    have hother : other ∈ textElements := hsplit ▸ List.mem_append_left _ hmem
    obtain ⟨hletters, -, -, -, hsmall, -⟩ := letters_of_mem hother
    apply hothers other (letters_of_any hletters)
    rw [hsmall, (letters_of_mem e.name_mem).2.2.2.2.1]
    have hnodup : textElements.Nodup := by decide
    rw [hsplit, List.nodup_append] at hnodup
    exact hnodup.2.2 other hmem e.name List.mem_cons_self
  dsimp only
  rw [hsplit, List.findSome?_append, List.findSome?_cons, hread, Option.map_some,
    List.findSome?_eq_none_iff.2 fun other hmem => by rw [hnone other hmem, Option.map_none]]
  rfl

theorem found_opened_append (e : TextElement) (rest : Text) :
    found (e.opened ++ rest) = found (rawText e.name (e.content ++ rest)).2 := by
  obtain ⟨hgap, hcuts⟩ := e.skipGap_opened rest
  rw [found_of_element? hgap hcuts (e.element?_opened rest)]
  exact map_nil_append _

end TextElement

/-! ## Comments -/

/-- The end of a comment. -/
def commentEnd : Text := "-->".toList

theorem found_of_afterComment? {s rest : Text} (h : afterComment? s = some rest) :
    found s = found rest := by
  rw [found_eq, skipGap_of_afterComment? h, ← found_eq]

/-- A comment is passed over up to its first end. -/
theorem found_comment_append {s : Text} (h : ¬ Has commentEnd s) (rest : Text) :
    found ("<!--".toList ++ (s ++ (commentEnd ++ rest))) = found rest := by
  apply found_of_afterComment?
  have hword : Unbordered (small commentEnd) := by
    have hlast : '>' ∉ ['-', '-'] := by decide
    exact unbordered_concat hlast
  have hinside : breakAt? commentEnd (s ++ (commentEnd ++ rest)) = some (s, rest) :=
    breakAt?_append hword h rfl rest
  rw [afterComment?, afterWord?_append rfl, Option.map_some]
  rw [commentEnd] at hinside ⊢
  rw [hinside]

/-- A comment without an end is passed over to the end of the content. -/
theorem found_comment {s : Text} (h : ¬ Has commentEnd s) : found ("<!--".toList ++ s) = .ok [] := by
  rw [← found_nil]
  apply found_of_afterComment?
  have hinside : breakAt? "-->".toList s = none := breakAt?_eq_none_iff.2 h
  rw [afterComment?, afterWord?_append rfl, Option.map_some, hinside]

/-! ## Pieces of a content -/

/-- A piece of a content: a text, a comment, an element whose content is text, with the name in its
end tag in any case, or an element that is to be taken. -/
inductive Piece where
  | text (s : Text) (plain : '<' ∉ s)
  | comment (s : Text) (inside : ¬ Has commentEnd s)
  | passedOver (e : TextElement) (written : Text) (small_written : small written = small e.name)
  | taken (e : HeadElement) (wellFormed : e.WellFormed)

namespace Piece

def markup : Piece → Text
  | text s _ => s
  | comment s _ => "<!--".toList ++ (s ++ commentEnd)
  | passedOver e written _ => e.opened ++ ('<' :: '/' :: (written ++ ['>']))
  | taken e _ => e.markup

/-- The element that a piece is, if it is to be taken. -/
def element? : Piece → Option HeadElement
  | taken e _ => some e
  | _ => none

/-- **A piece is read exactly to its end**, whatever is behind it. -/
theorem found_markup_append (p : Piece) (rest : Text) :
    found (p.markup ++ rest) = (found rest).map (p.element?.toList ++ ·) := by
  have hpassed (h : found (p.markup ++ rest) = found rest) :
      found (p.markup ++ rest) = (found rest).map (([] : List HeadElement) ++ ·) :=
    h.trans (map_nil_append _).symm
  cases p with
  | text s plain => exact hpassed (found_append_of_lt_notMem plain rest)
  | comment s inside =>
    apply hpassed
    rw [markup, List.append_assoc, List.append_assoc]
    exact found_comment_append inside rest
  | passedOver e written hwritten =>
    apply hpassed
    obtain ⟨-, hlt, -⟩ := TextElement.letters_of_mem e.name_mem
    have hraw := rawText_written hlt hwritten e.not_has_end rest
    have hend : e.opened ++ ('<' :: '/' :: (written ++ ['>'])) ++ rest =
        e.opened ++ ('<' :: '/' :: written ++ '>' :: rest) := by
      simp
    rw [markup, hend, e.found_opened_append, hraw]
  | taken e wellFormed => exact found_markup wellFormed rest

end Piece

/-- The end of a content, where something may be left open. -/
inductive Ending where
  | nothing
  | comment (s : Text) (inside : ¬ Has commentEnd s)
  | passedOver (e : TextElement)

namespace Ending

def markup : Ending → Text
  | nothing => []
  | comment s _ => "<!--".toList ++ s
  | passedOver e => e.opened

/-- What is left open is passed over to the end of the content. -/
theorem found_markup (last : Ending) : found last.markup = .ok [] := by
  cases last with
  | nothing => exact found_nil
  | comment s inside => exact found_comment inside
  | passedOver e =>
    rw [markup, ← List.append_nil e.opened, e.found_opened_append, List.append_nil,
      rawText_unclosed e.not_has_end, found_nil]

end Ending

theorem found_flatMap_markup_append (ps : List Piece) (rest : Text) :
    found (ps.flatMap Piece.markup ++ rest) =
      (found rest).map (ps.filterMap Piece.element? ++ ·) := by
  induction ps with
  | nil =>
    rw [List.flatMap_nil, List.filterMap_nil, List.nil_append, map_nil_append]
  | cons p ps ih =>
    rw [List.flatMap_cons, List.append_assoc, p.found_markup_append, ih,
      List.filterMap_eq_flatMap_toList, List.filterMap_eq_flatMap_toList, List.flatMap_cons]
    cases found rest with
    | error fault => rfl
    | ok es => exact congrArg Except.ok (List.append_assoc _ _ _).symm

/-- **From a content that is put together from pieces exactly the elements among them are taken**,
the style sheets in order and then the links in order, whatever the other pieces hold and whatever
is left open at the end. -/
theorem elements_flatMap_markup_append (ps : List Piece) (last : Ending) :
    elements (ps.flatMap Piece.markup ++ last.markup) =
      .ok ((ps.filterMap Piece.element?).filter (·.tag = .style) ++
        (ps.filterMap Piece.element?).filter (·.tag = .link)) := by
  rw [elements_eq, found_flatMap_markup_append, last.found_markup]
  exact congrArg (fun es => Except.ok (sorted es)) (List.append_nil _)

/-- Links in a comment, in a script, in an attribute of a script and in a title that is never closed,
and one that counts. -/
example : elements
    "a<!--<link>-->b<Script x=\"<link>\"></scrip<link></SCRIPT><link rel=\"x\"><title><link>".toList =
      .ok [⟨.link, [⟨"rel".toList, "x".toList⟩], []⟩] := by
  decide +kernel

end MenuPages.Head
