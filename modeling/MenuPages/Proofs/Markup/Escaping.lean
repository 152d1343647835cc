import MenuPages.Markup.Entity
import MenuPages.Markup.Escape

/-!
# What escaping does

An escaped text can stand anywhere in markup: it has no delimiters (`delimiters_escape`), so it ends
nothing that it stands in. And it says the same as before: reading its references gives it back
(`decode_escape`), whatever it was, also if it was an escaped text itself.
-/

namespace MenuPages.Markup

/-! ## Delimiters -/

/-- The characters that set markup apart from text: angle brackets and quotes. -/
def isDelimiter (c : Char) : Bool := c == '<' || c == '>' || c == '"' || c == '\''

/-- The delimiters of a text, in order. -/
def delimiters (s : Text) : Text := s.filter isDelimiter

@[simp] theorem delimiters_append (s t : Text) :
    delimiters (s ++ t) = delimiters s ++ delimiters t := List.filter_append ..

theorem delimiters_eq_nil_iff {s : Text} :
    delimiters s = [] ↔ ∀ c ∈ s, isDelimiter c = false := by
  simp [delimiters, List.filter_eq_nil_iff]

/-- Of the five characters that are escaped four are delimiters, and no entity has one in it. -/
theorem delimiters_escapeChar (c : Char) : delimiters (escapeChar c) = [] := by
  unfold escapeChar entity?
  split
  case h_6 hamp hlt hgt hquot hapos =>
    simpa [delimiters, isDelimiter] using ⟨⟨⟨hlt, hgt⟩, hquot⟩, hapos⟩
  all_goals decide

/-- A text that is escaped has no delimiters. -/
theorem delimiters_escape (s : Text) : delimiters (escape s) = [] := by
  induction s with
  | nil => rfl
  | cons c s ih => rw [escape_cons, delimiters_append, delimiters_escapeChar, ih, List.nil_append]

theorem quote_notMem_escape (s : Text) : '"' ∉ escape s := fun hmem =>
  absurd (delimiters_eq_nil_iff.1 (delimiters_escape s) _ hmem) (by decide)

/-! ## References -/

/-- The entity of a character is read as this character, whatever follows. -/
theorem reference?_entity_append {c : Char} {entity : Text} (h : entity? c = some entity)
    (s : Text) : reference? (entity ++ s) = some (c, entity.length) := by
  unfold entity? at h
  split at h
  case h_6 => cases h
  all_goals
    cases h
    rfl

/-- Every reference starts with `&`. -/
theorem reference?_of_ne {c : Char} (h : c ≠ '&') (s : Text) : reference? (c :: s) = none := by
  have hne : ('&' == c) = false := beq_eq_false_iff_ne.2 h.symm
  simp [reference?, references, List.isPrefixOf, hne]

/-- What is left of a reference that was read is passed over. -/
theorem decodeFrom_length_append (rest s : Text) :
    decodeFrom rest.length (rest ++ s) = decodeFrom 0 s := by
  induction rest with
  | nil => rfl
  | cons c rest ih => exact ih

theorem decode_cons_of_none {c : Char} {s : Text} (h : reference? (c :: s) = none) :
    decode (c :: s) = c :: decode s := by
  rw [decode, decodeFrom, h]
  rfl

/-- A text without `&` says what it says. -/
theorem decode_append_of_notMem {a : Text} (h : '&' ∉ a) (s : Text) :
    decode (a ++ s) = a ++ decode s := by
  induction a with
  | nil => rfl
  | cons c a ih =>
    rw [List.mem_cons, not_or] at h
    rw [List.cons_append, decode_cons_of_none (reference?_of_ne (Ne.symm h.1) _), ih h.2,
      List.cons_append]

theorem decode_eq_self {s : Text} (h : '&' ∉ s) : decode s = s := by
  have hdecode := decode_append_of_notMem h []
  rw [List.append_nil] at hdecode
  rw [hdecode, decode, decodeFrom, List.append_nil]

/-- A reference that is read is decoded, and then what is behind it. -/
theorem decode_append_of_reference? {c : Char} {entity s : Text} (hne : entity ≠ [])
    (h : reference? (entity ++ s) = some (c, entity.length)) :
    decode (entity ++ s) = c :: decode s := by
  obtain ⟨d, entity, rfl⟩ := List.exists_cons_of_ne_nil hne
  rw [List.cons_append] at h ⊢
  rw [decode, decodeFrom, h]
  exact congrArg (c :: ·) (decodeFrom_length_append entity s)

/-- An escaped character is read back, whatever follows. -/
theorem decode_escapeChar_append (c : Char) (s : Text) :
    decode (escapeChar c ++ s) = c :: decode s := by
  rw [escapeChar]
  cases h : entity? c with
  | some entity =>
    have hne : entity ≠ [] := by
      rintro rfl
      unfold entity? at h
      split at h <;> cases h
    exact decode_append_of_reference? hne (reference?_entity_append h s)
  | none =>
    have hne : c ≠ '&' := by
      rintro rfl
      cases h
    exact decode_cons_of_none (reference?_of_ne hne s)

/-- **Reading an escaped text gives the text back.** -/
theorem decode_escape (s : Text) : decode (escape s) = s := by
  induction s with
  | nil => rfl
  | cons c s ih => rw [escape_cons, decode_escapeChar_append, ih]

end MenuPages.Markup
