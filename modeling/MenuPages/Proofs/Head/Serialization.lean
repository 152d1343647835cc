import MenuPages.Proofs.Head.Memory
import MenuPages.Proofs.Head.Scanning

/-!
# A head, written and scanned again

What the scan takes from a content is `HeadElement.WellFormed`, however the content looks. **The
law** (`Head.elements_read_back`): elements taken from a content are the elements that the scan
takes from their own markup. So a head is not changed by being written and scanned again, neither
before a mark is put on its elements nor after.

The elements follow each other in the markup without anything that could be mistaken for a part of
one: attributes end with the quote behind the last value, a style sheet with the first end tag
(`rawText_written`), and between two elements there is at most plain space. What remains is the
order: style sheets come first already, and a mark does not change which elements these are.
-/

namespace MenuPages

/-- An element as the scan takes it from a content. -/
structure HeadElement.WellFormed (e : HeadElement) : Prop where
  attributeName : ∀ a ∈ e.attributes, AttributeName a.name
  nodup : (e.attributes.map Attribute.name).Nodup
  text_of_link : e.tag = .link → e.text = []
  text_of_style : e.tag = .style → ¬ Text.Has "</style".toList e.text

namespace Head

open Text

/-! ## Tags -/

theorem startTag?_openingTag {e : HeadElement} (h : e.WellFormed) (rest : Text) :
    startTag? e.tag.name (e.openingTag ++ rest) = some (e.attributes, rest) := by
  have hread := attributes_flatMap_markup h.attributeName h.nodup rest
  have htag : e.openingTag ++ rest =
      '<' :: (e.tag.name ++ (e.attributes.flatMap Attribute.markup ++ '>' :: rest)) := by
    simp [HeadElement.openingTag]
  rw [htag]
  cases has : e.attributes with
  | nil =>
    rw [has] at hread
    exact startTag?_written rfl (by decide) hread
  | cons a as =>
    rw [has] at hread
    exact startTag?_written rfl (by decide) hread

/-! ## Elements -/

/-- **An element that was written is read**, and what is behind it is left. -/
theorem element?_markup {e : HeadElement} (h : e.WellFormed) (rest : Text) :
    element? (e.markup ++ rest) = some (some e, rest) := by
  obtain ⟨tag, as, text⟩ := e
  cases tag with
  | style =>
    let e : HeadElement := ⟨.style, as, text⟩
    let inside : Text := text ++ ('<' :: '/' :: HeadTag.style.name ++ '>' :: rest)
    have hsplit : e.markup ++ rest = e.openingTag ++ inside := by
      show e.openingTag ++ text ++ ('<' :: '/' :: HeadTag.style.name ++ ['>']) ++ rest = _
      simp only [inside, List.append_assoc, List.cons_append, List.nil_append]
    have hstart : startTag? HeadTag.style.name (e.openingTag ++ inside) = some (as, inside) :=
      startTag?_openingTag h inside
    have hraw : rawText HeadTag.style.name inside = (text, rest) :=
      rawText_written (by decide) rfl (h.text_of_style rfl) rest
    show element? (e.markup ++ rest) = some (some e, rest)
    rw [hsplit, element?, hstart]
    dsimp only
    rw [hraw]
  | link =>
    obtain rfl : text = [] := h.text_of_link rfl
    let e : HeadElement := ⟨.link, as, []⟩
    have hstyle : startTag? HeadTag.style.name (e.openingTag ++ rest) = none := rfl
    have hlink : startTag? HeadTag.link.name (e.openingTag ++ rest) = some (as, rest) :=
      startTag?_openingTag h rest
    show element? (e.openingTag ++ rest) = some (some e, rest)
    rw [element?, hstyle]
    dsimp only
    rw [hlink]

/-- An element that was read is well formed. -/
theorem wellFormed_of_element? {s behind : Text} {e : HeadElement}
    (h : element? s = some (some e, behind)) : e.WellFormed := by
  rw [element?] at h
  split at h
  next as inside hstart =>
    cases h
    obtain ⟨hnames, hnodup⟩ := names_of_startTag? hstart
    exact ⟨hnames, hnodup, by simp, fun _ => not_has_rawText _ _⟩
  next =>
    split at h
    next as rest hstart =>
      cases h
      obtain ⟨hnames, hnodup⟩ := names_of_startTag? hstart
      exact ⟨hnames, hnodup, fun _ => rfl, by simp⟩
    next =>
      obtain ⟨name, -, hskipped⟩ := List.exists_of_findSome?_eq_some h
      obtain ⟨found, -, hnone⟩ := Option.map_eq_some_iff.1 hskipped
      cases hnone

/-! ## The scan -/

/-- An element that was written is not passed over, and the scan does not give up on it. -/
theorem skipGap_markup (e : HeadElement) (rest : Text) :
    skipGap (e.markup ++ rest) = e.markup ++ rest ∧ cutsCharacter (e.markup ++ rest) = false := by
  obtain ⟨tag, as, text⟩ := e
  cases tag with
  | style => exact ⟨skipGap_cons rfl, rfl⟩
  | link => exact ⟨skipGap_cons rfl, rfl⟩

/-- The scan takes an element that was written, and goes on behind it. -/
theorem found_markup {e : HeadElement} (h : e.WellFormed) (rest : Text) :
    found (e.markup ++ rest) = (found rest).map (e :: ·) := by
  obtain ⟨hgap, hcuts⟩ := skipGap_markup e rest
  exact found_of_element? hgap hcuts (element?_markup h rest)

/-- **Elements that were written one after the other are found**, with the same plain space behind
each. -/
theorem found_flatMap_markup {es : List HeadElement} (hes : ∀ e ∈ es, e.WellFormed) {gap : Text}
    (hgap : ∀ c ∈ gap, isPlainSpace c = true) :
    found (es.flatMap fun e => e.markup ++ gap) = .ok es := by
  induction es with
  | nil => exact found_nil
  | cons e es ih =>
    rw [List.flatMap_cons, List.append_assoc, found_markup (hes e List.mem_cons_self),
      found_append hgap, ih fun d hd => hes d (List.mem_cons_of_mem e hd)]
    rfl

/-- Whatever the scan finds is well formed. -/
theorem wellFormed_of_found {s : Text} {es : List HeadElement} (h : found s = .ok es) :
    ∀ e ∈ es, e.WellFormed := by
  fun_induction found s generalizing es with
  | case1 => cases h; nofun
  | case2 => cases h
  | case3 s c rest hgap hcuts e behind helement ih =>
    cases hmore : found behind with
    | error fault =>
      rw [hmore] at h
      cases h
    | ok more =>
      rw [hmore] at h
      cases h
      intro d hd
      rcases List.mem_cons.1 hd with rfl | hd
      · exact wellFormed_of_element? helement
      · exact ih hmore d hd
  | case4 s c rest hgap hcuts behind helement ih => exact ih h
  | case5 s c rest hgap hcuts helement ih => exact ih h

/-! ## Style sheets before links -/

/-- Style sheets and then links, each in the order in which they stand. -/
def sorted (es : List HeadElement) : List HeadElement :=
  es.filter (·.tag = .style) ++ es.filter (·.tag = .link)

theorem elements_eq (s : Text) : elements s = (found s).map sorted := rfl

theorem mem_sorted {es : List HeadElement} {e : HeadElement} : e ∈ sorted es ↔ e ∈ es := by
  cases htag : e.tag <;> simp [sorted, htag]

theorem filter_tag_sorted (tag : HeadTag) (es : List HeadElement) :
    (sorted es).filter (·.tag = tag) = es.filter (·.tag = tag) := by
  have hnone (one other : HeadTag) (hne : one ≠ other) :
      (es.filter (·.tag = other)).filter (·.tag = one) = [] := by
    rw [List.filter_filter, List.filter_eq_nil_iff]
    intro e _ hboth
    rw [Bool.and_eq_true, decide_eq_true_iff, decide_eq_true_iff] at hboth
    exact hne (hboth.1.symm.trans hboth.2)
  have hself (one : HeadTag) :
      (es.filter (·.tag = one)).filter (·.tag = one) = es.filter (·.tag = one) := by
    rw [List.filter_filter]
    simp only [Bool.and_self]
  cases tag with
  | style => rw [sorted, List.filter_append, hself, hnone .style .link nofun, List.append_nil]
  | link => rw [sorted, List.filter_append, hself, hnone .link .style nofun, List.nil_append]

theorem sorted_sorted (es : List HeadElement) : sorted (sorted es) = sorted es := by
  rw [sorted, filter_tag_sorted, filter_tag_sorted, sorted]

/-- Elements may be changed before or after they are sorted, if they stay what they are. -/
theorem sorted_map {f : HeadElement → HeadElement} (hf : ∀ e, (f e).tag = e.tag)
    (es : List HeadElement) : sorted (es.map f) = (sorted es).map f := by
  have htag (tag : HeadTag) :
      (es.map f).filter (·.tag = tag) = (es.filter (·.tag = tag)).map f := by
    rw [List.filter_map]
    simp only [Function.comp_def, hf]
  rw [sorted, htag, htag, sorted, List.map_append]

/-- Elements that are sorted are taken from their own markup. -/
theorem elements_flatMap_markup {es : List HeadElement} (hes : ∀ e ∈ es, e.WellFormed)
    (hsorted : sorted es = es) {gap : Text} (hgap : ∀ c ∈ gap, isPlainSpace c = true) :
    elements (es.flatMap fun e => e.markup ++ gap) = .ok es := by
  rw [elements_eq, found_flatMap_markup hes hgap, Except.map, hsorted]

/-- What the scan takes from a content is well formed, and sorted. -/
theorem wellFormed_of_elements {s : Text} {es : List HeadElement} (h : elements s = .ok es) :
    (∀ e ∈ es, e.WellFormed) ∧ sorted es = es := by
  rw [elements_eq] at h
  cases hfound : found s with
  | error fault =>
    rw [hfound] at h
    cases h
  | ok all =>
    rw [hfound] at h
    cases h
    exact ⟨fun e he => wellFormed_of_found hfound e (mem_sorted.1 he), sorted_sorted all⟩

end Head

/-! ## Marks -/

theorem HeadElement.tag_marked (menuId : Text) (e : HeadElement) :
    (e.marked menuId).tag = e.tag := rfl

theorem attributeName_menuMarker : AttributeName menuMarker := by
  have hsmall : menuMarker.all (!·.isUpper) = true := by decide
  have hname : menuMarker.all Head.isAttributeNameChar = true := by decide
  refine ⟨by decide, fun c hc => ?_, fun c hc => ?_⟩
  · simpa using List.all_eq_true.1 hsmall c hc
  · exact Head.isAttributeNameChar_iff.1 (List.all_eq_true.1 hname c hc)

/-- A marked element is as good as the element. -/
theorem HeadElement.WellFormed.marked {e : HeadElement} (h : e.WellFormed) (menuId : Text) :
    (e.marked menuId).WellFormed := by
  rw [HeadElement.marked_eq]
  refine ⟨fun a ha => ?_, ?_, h.text_of_link, h.text_of_style⟩
  · rcases List.mem_append.1 ha with hkept | hmark
    · exact h.attributeName a (List.mem_of_mem_filter hkept)
    · rw [List.mem_singleton.1 hmark]
      exact attributeName_menuMarker
  · rw [List.map_append, List.nodup_append]
    refine ⟨h.nodup.sublist (List.filter_sublist.map _), List.nodup_singleton _, ?_⟩
    intro name hname other hother
    obtain ⟨a, ha, rfl⟩ := List.mem_map.1 hname
    rw [List.mem_singleton.1 hother]
    simpa using (List.mem_filter.1 ha).2

/-! ## Heads -/

/-- Elements that are put into a head stand behind those that are there. -/
theorem Live.elements_appendAll (es : List HeadElement) (p : Live MemoryHead) :
    (p.appendAll es).2.head.elements = p.head.elements ++ es := by
  induction es generalizing p with
  | nil => exact (List.append_nil _).symm
  | cons e es ih =>
    have hone : (p.append e).2.head.elements = p.head.elements ++ [e] := by
      simp [Live.append, DocumentHead.append, MemoryHead.append, MemoryHead.elements]
    show ((p.append e).2.appendAll es).2.head.elements = _
    rw [ih, hone, List.append_assoc]
    rfl

namespace Head

/-- **A head that is written is read back as it is.** Let the scan take some elements from a
content. They are well formed, and the scan takes the same elements from the markup of these,
written one after the other. If they are injected into an empty head for a menu, whatever its id,
then the scan takes from the markup of the head the elements that are in the head. -/
theorem elements_read_back {content : Text} {es : List HeadElement}
    (hes : elements content = .ok es) :
    (∀ e ∈ es, e.WellFormed) ∧ elements (es.flatMap HeadElement.markup) = .ok es ∧
      ∀ (menuId : Text) (p : Live MemoryHead), p.head.elements = [] →
        ∃ i p', p.inject menuId content = .ok (i, p') ∧
          p'.head.elements = es.map (HeadElement.marked menuId) ∧
          elements p'.head.markup = .ok p'.head.elements := by
  obtain ⟨hwell, hsorted⟩ := wellFormed_of_elements hes
  refine ⟨hwell, ?_, fun menuId p hempty => ?_⟩
  · have hread : elements (es.flatMap fun e => e.markup ++ []) = .ok es :=
      elements_flatMap_markup hwell hsorted nofun
    simpa only [List.append_nil] using hread
  · let marked := es.map (HeadElement.marked menuId)
    let made := p.appendAll marked
    have hmade : made.2.head.elements = marked := by
      rw [p.elements_appendAll, hempty, List.nil_append]
    refine ⟨⟨menuId, made.1⟩, made.2.report (.injected menuId made.1.length), ?_, hmade, ?_⟩
    · rw [Live.inject, hes]
      rfl
    · have hmarked : ∀ e ∈ marked, e.WellFormed := by
        intro e he
        obtain ⟨d, hd, rfl⟩ := List.mem_map.1 he
        exact (hwell d hd).marked menuId
      have hkept : sorted marked = marked := by
        rw [sorted_map (HeadElement.tag_marked menuId), hsorted]
      show elements (made.2.head.elements.flatMap fun e => e.markup ++ ['\n']) =
        .ok made.2.head.elements
      rw [hmade]
      exact elements_flatMap_markup hmarked hkept (by simp [Text.isPlainSpace])

/-- Capital letters, names with a quote and with `<` in them, an attribute that comes twice, a mark
that is not the menu's, and a style sheet that is never closed. -/
theorem elements_read_back_malformed :
    let content := "<LINK q\"=1 Data-Menu-Custom=x Q\"=2><style <a='&quot;'>p</sty".toList
    let es : List HeadElement :=
      [⟨.style, [⟨"<a".toList, "\"".toList⟩], "p</sty".toList⟩,
        ⟨.link, [⟨"q\"".toList, "1".toList⟩, ⟨"data-menu-custom".toList, "x".toList⟩], []⟩]
    elements content = .ok es ∧ elements (es.flatMap HeadElement.markup) = .ok es ∧
      ∃ i p', (⟨{}, []⟩ : Live MemoryHead).inject "m1".toList content = .ok (i, p') ∧
        elements p'.head.markup = .ok p'.head.elements := by
  intro content es
  have hes : elements content = .ok es := by
    decide +kernel
  obtain ⟨-, hread, hinjected⟩ := elements_read_back hes
  obtain ⟨i, p', hinject, -, hhead⟩ := hinjected "m1".toList ⟨{}, []⟩ rfl
  exact ⟨hes, hread, i, p', hinject, hhead⟩

end Head

end MenuPages
