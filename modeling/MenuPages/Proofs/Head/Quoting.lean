import MenuPages.Proofs.Head.Scanning

/-!
# A text as the value of an attribute

Escaping writes five entities, reading a value replaces eight references, and either quote may stand
around a value. **The law** (`Head.elements_link_escape`): a text that is escaped and put between
quotes is what the scan reads as the value, whatever the text is.

Two things have to hold for that. The value must not end early, so an escaped text has no quote of
either kind; and it must not be read too far, so each `&` in it starts an entity that was written
for a character (`Markup.entity_prefix_of_escape`), and reading goes on behind that entity.
-/

namespace MenuPages

namespace Markup

/-! ## The entities of an escaped text -/

/-- The entities that escaping writes. -/
def entities : List Text :=
  ["&amp;".toList, "&lt;".toList, "&gt;".toList, "&quot;".toList, "&#039;".toList]

theorem mem_entities_of_entity? {c : Char} {entity : Text} (h : entity? c = some entity) :
    entity ∈ entities := by
  unfold entity? at h
  split at h
  case h_6 => cases h
  all_goals
    cases h
    decide

/-- An entity has its `&` in front and no other. -/
theorem entity_eq_cons {entity : Text} (h : entity ∈ entities) :
    ∃ name, entity = '&' :: name ∧ '&' ∉ name := by
  have hall : ∀ entity ∈ entities, entity.head? = some '&' ∧ '&' ∉ entity.tail := by
    decide
  obtain ⟨hhead, htail⟩ := hall entity h
  obtain ⟨name, rfl⟩ := List.head?_eq_some_iff.1 hhead
  exact ⟨name, rfl, htail⟩

/-- A `&` in what is written for a character is the first character of an entity. -/
theorem entity_of_escapeChar {c : Char} {before behind : Text}
    (h : escapeChar c = before ++ '&' :: behind) : '&' :: behind ∈ entities := by
  rw [escapeChar] at h
  cases hentity : entity? c with
  | none =>
    rw [hentity, Option.getD_none] at h
    have hamp : '&' ∈ [c] := h ▸ List.mem_append_right before List.mem_cons_self
    rw [← List.mem_singleton.1 hamp] at hentity
    cases hentity
  | some entity =>
    rw [hentity, Option.getD_some] at h
    have hmem := mem_entities_of_entity? hentity
    obtain ⟨name, hname, hrest⟩ := entity_eq_cons hmem
    cases before with
    | nil => rwa [← List.nil_append ('&' :: behind), ← h]
    | cons d before =>
      obtain ⟨-, htail⟩ := List.cons.inj (hname.symm.trans h)
      exact absurd (htail ▸ List.mem_append_right before List.mem_cons_self) hrest

/-- **Each `&` of an escaped text starts an entity that was written.** -/
theorem entity_prefix_of_escape {value before behind : Text}
    (h : escape value = before ++ '&' :: behind) :
    ∃ entity ∈ entities, entity <+: '&' :: behind := by
  induction value generalizing before with
  | nil => exact absurd h (by simp)
  | cons c value ih =>
    rw [escape_cons] at h
    rcases List.append_eq_append_iff.1 h with ⟨more, -, hmore⟩ | ⟨more, hchar, hmore⟩
    · exact ih hmore
    · cases more with
      | nil =>
        have hvalue : escape value = [] ++ '&' :: behind := hmore.symm
        exact ih hvalue
      | cons d more =>
        obtain ⟨rfl, rfl⟩ := List.cons.inj hmore
        exact ⟨'&' :: more, entity_of_escapeChar hchar, escape value, rfl⟩

end Markup

namespace Head

open Text

/-! ## One attribute between quotes of either kind -/

theorem quote_notMem_escape {quote : Char} (hquote : quote = '"' ∨ quote = '\'') (value : Text) :
    quote ∉ Markup.escape value := by
  intro hmem
  have hplain := Markup.delimiters_eq_nil_iff.1 (Markup.delimiters_escape value) quote hmem
  rcases hquote with rfl | rfl <;> exact absurd hplain (by decide)

/-- A single attribute is read behind the space in front of it, up to the end of the tag. -/
theorem attributes_escape {name : Text} {quote : Char} (hne : name ≠ [])
    (hname : ∀ c ∈ name, isAttributeNameChar c = true) (hquote : quote = '"' ∨ quote = '\'')
    (value rest : Text) :
    attributes (' ' :: (name ++ '=' :: quote :: (Markup.escape value ++ quote :: '>' :: rest))) =
      ([⟨small name, value⟩], '>' :: rest) := by
  obtain ⟨c, cs, rfl⟩ := List.exists_cons_of_ne_nil hne
  have hgap : isAttributeGap c = false := isAttributeGap_eq_false (hname c List.mem_cons_self)
  rw [attributes_eq, List.dropWhile_cons_of_pos (by decide), List.cons_append,
    List.dropWhile_cons_of_neg (by simp [hgap]), ← List.cons_append,
    attribute?_written hne hname hquote (quote_notMem_escape hquote value), Markup.decode_escape]
  dsimp only
  rw [attributes_end]
  rfl

/-! ## One link -/

/-- A link with one attribute is taken, and the scan goes on behind it. -/
theorem found_link_escape {name : Text} {quote : Char} (hne : name ≠ [])
    (hname : ∀ c ∈ name, isAttributeNameChar c = true) (hquote : quote = '"' ∨ quote = '\'')
    (value rest : Text) :
    found ("<link ".toList ++
        (name ++ '=' :: quote :: (Markup.escape value ++ quote :: '>' :: rest))) =
      (found rest).map (⟨.link, [⟨small name, value⟩], []⟩ :: ·) := by
  let inside : Text := name ++ '=' :: quote :: (Markup.escape value ++ quote :: '>' :: rest)
  let s : Text := "<link ".toList ++ inside
  have hstyle : startTag? HeadTag.style.name s = none := rfl
  have hlink : startTag? HeadTag.link.name s = some ([⟨small name, value⟩], rest) :=
    startTag?_written rfl (by decide) (attributes_escape hne hname hquote value rest)
  have helement : element? s = some (some ⟨.link, [⟨small name, value⟩], []⟩, rest) := by
    rw [element?, hstyle]
    dsimp only
    rw [hlink]
  exact found_of_element? (skipGap_cons rfl) rfl helement

/-- **Escaping and reading a value are inverse**, for any text and either quote. The escaped text
has no angle bracket and no quote in it, each `&` in it starts one of the five entities, and a link
that has it as the value of its only attribute is read as one element: a link with that attribute,
its name in small letters and its value the text. -/
theorem elements_link_escape {name : Text} {quote : Char} (hne : name ≠ [])
    (hname : ∀ c ∈ name, Text.isBlank c = false ∧ c ≠ '/' ∧ c ≠ '>' ∧ c ≠ '=')
    (hquote : quote = '"' ∨ quote = '\'') (value : Text) :
    (∀ c ∈ Markup.escape value, c ≠ '<' ∧ c ≠ '>' ∧ c ≠ '"' ∧ c ≠ '\'') ∧
      (∀ before behind, Markup.escape value = before ++ '&' :: behind →
        ∃ entity ∈ Markup.entities, entity <+: '&' :: behind) ∧
      Markup.decode (Markup.escape value) = value ∧
      elements ("<link ".toList ++
          (name ++ '=' :: quote :: (Markup.escape value ++ [quote, '>']))) =
        .ok [⟨.link, [⟨small name, value⟩], []⟩] := by
  refine ⟨fun c hc => ?_, fun before behind => Markup.entity_prefix_of_escape,
    Markup.decode_escape value, ?_⟩
  · have hplain := Markup.delimiters_eq_nil_iff.1 (Markup.delimiters_escape value) c hc
    simpa [Markup.isDelimiter, and_assoc] using hplain
  · have hchars : ∀ c ∈ name, isAttributeNameChar c = true :=
      fun c hc => isAttributeNameChar_iff.2 (hname c hc)
    rw [elements, found_link_escape hne hchars hquote, found_nil]
    rfl

/-- A name with a quote and a capital letter in it, and a value with an entity that was escaped, a
reference without its end, a tag and both quotes. -/
theorem elements_link_escape_entities :
    let name := "Data-\"x".toList
    let value := "&amp;lt;&#039\"<b>'&".toList
    Markup.decode (Markup.escape value) = value ∧
      elements ("<link ".toList ++ (name ++ '=' :: '\'' :: (Markup.escape value ++ ['\'', '>']))) =
        .ok [⟨.link, [⟨"data-\"x".toList, value⟩], []⟩] := by
  intro name value
  have hall : name.all isAttributeNameChar = true := by
    decide
  have hname : ∀ c ∈ name, Text.isBlank c = false ∧ c ≠ '/' ∧ c ≠ '>' ∧ c ≠ '=' :=
    fun c hc => isAttributeNameChar_iff.1 (List.all_eq_true.1 hall c hc)
  obtain ⟨-, -, hdecode, hread⟩ :=
    elements_link_escape (List.cons_ne_nil _ _) hname (Or.inr rfl) value
  exact ⟨hdecode, hread⟩

end Head

end MenuPages
