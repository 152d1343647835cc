import MenuPages.Head.Scan
import MenuPages.Proofs.Markup.Escaping
import MenuPages.Proofs.Text.Words

/-!
# Attributes, written and read

What the scan keeps of the attributes of a tag, and what it reads of attributes that were written.
However the attributes of a tag look, the names that are kept are names in small letters and differ
from each other (`attributeName_of_mem_attributes`, `nodup_names_attributes`). Attributes with such
names are written so that the scan reads them back, all of them and nothing else
(`attributes_flatMap_markup`): their values are escaped, so that the quote behind a value ends it.

A name may still hold characters that have no business in one, a quote or a `<` for instance. They
do no harm, since only white space, `/`, `>` and `=` end a name.
-/

namespace MenuPages

/-- The name of an attribute as an element keeps it. -/
structure AttributeName (name : Text) : Prop where
  ne_nil : name ≠ []
  isUpper_eq_false : ∀ c ∈ name, c.isUpper = false
  not_end : ∀ c ∈ name, Text.isBlank c = false ∧ c ≠ '/' ∧ c ≠ '>' ∧ c ≠ '='

theorem Head.isAttributeNameChar_iff {c : Char} :
    isAttributeNameChar c = true ↔ Text.isBlank c = false ∧ c ≠ '/' ∧ c ≠ '>' ∧ c ≠ '=' := by
  simp [isAttributeNameChar, and_assoc]

theorem AttributeName.isAttributeNameChar {name : Text} (h : AttributeName name) :
    ∀ c ∈ name, Head.isAttributeNameChar c = true :=
  fun c hc => Head.isAttributeNameChar_iff.2 (h.not_end c hc)

namespace Head

open Text

/-- The small letter of a character that may stand in a name may stand there as well. -/
theorem isAttributeNameChar_toLower {c : Char} (h : isAttributeNameChar c = true) :
    isAttributeNameChar c.toLower = true := by
  cases hupper : c.isUpper with
  | false => rwa [toLower_eq_self hupper]
  | true =>
    have hcode := toNat_toLower c
    rw [if_pos (isUpper_iff.1 hupper)] at hcode
    have hrange := isUpper_iff.1 hupper
    have hne (d : Char) (hd : d.toNat < 97) : c.toLower ≠ d := by
      rintro rfl
      omega
    refine isAttributeNameChar_iff.2 ⟨?_, hne _ (by decide), hne _ (by decide), hne _ (by decide)⟩
    simp only [isBlank, hcode, Bool.or_eq_false_iff, Bool.and_eq_false_iff, beq_eq_false_iff_ne,
      decide_eq_false_iff_not]
    omega

/-- A name is kept in small letters. -/
theorem attributeName_small {name : Text} (hne : name ≠ [])
    (hname : ∀ c ∈ name, isAttributeNameChar c = true) : AttributeName (small name) := by
  refine ⟨fun hnil => hne (List.map_eq_nil_iff.1 hnil), fun c hc => ?_, fun c hc => ?_⟩
  all_goals obtain ⟨d, hd, rfl⟩ := List.mem_map.1 hc
  · exact isUpper_toLower d
  · exact isAttributeNameChar_iff.1 (isAttributeNameChar_toLower (hname d hd))

/-! ## One attribute -/

/-- A value is read up to the quote that ends it. -/
theorem quotedValue?_written {quote : Char} {value : Text} (h : quote ∉ value) (rest : Text) :
    quotedValue? quote (quote :: (value ++ quote :: rest)) = some (value, rest) := by
  have hvalue : ∀ c ∈ value, (c != quote) = true := by
    intro c hc
    rw [bne_iff_ne]
    rintro rfl
    exact h hc
  have hquote : (quote != quote) = false := by simp
  rw [quotedValue?, if_pos rfl, dropWhile_append_cons hvalue hquote,
    takeWhile_append_cons hvalue hquote]

/-- A value that was written between quotes of either kind is read. -/
theorem attributeValue?_written {quote : Char} (hquote : quote = '"' ∨ quote = '\'')
    {value : Text} (h : quote ∉ value) (rest : Text) :
    attributeValue? (quote :: (value ++ quote :: rest)) = some (value, rest) := by
  rw [attributeValue?]
  rcases hquote with rfl | rfl
  · rw [quotedValue?_written h, Option.some_or]
  · have hother : quotedValue? '"' ('\'' :: (value ++ '\'' :: rest)) = none := by
      rw [quotedValue?, if_neg (by decide)]
    rw [hother, quotedValue?_written h, Option.none_or, Option.some_or]

/-- **An attribute that was written is read**, its name without case and its value with the
references in it replaced. -/
theorem attribute?_written {name value : Text} {quote : Char} (hne : name ≠ [])
    (hname : ∀ c ∈ name, isAttributeNameChar c = true) (hquote : quote = '"' ∨ quote = '\'')
    (hvalue : quote ∉ value) (rest : Text) :
    attribute? (name ++ '=' :: quote :: (value ++ quote :: rest)) =
      some (⟨small name, Markup.decode value⟩, rest) := by
  have heq : isAttributeNameChar '=' = false := by decide
  have hspace : isPlainSpace quote = false := by
    rcases hquote with rfl | rfl <;> decide
  have hassigned : assignedValue? ('=' :: quote :: (value ++ quote :: rest)) =
      some (value, rest) := by
    rw [assignedValue?, List.dropWhile_cons_of_neg (by decide)]
    show attributeValue? ((quote :: (value ++ quote :: rest)).dropWhile isPlainSpace) = _
    rw [List.dropWhile_cons_of_neg (by simp [hspace]), attributeValue?_written hquote hvalue]
  have hempty : name.isEmpty = false := by simpa using hne
  rw [attribute?, takeWhile_append_cons hname heq, dropWhile_append_cons hname heq, hassigned]
  simp [hempty, small]

/-- What is read as an attribute has the name of one. -/
theorem attributeName_of_attribute? {s rest : Text} {a : Attribute}
    (h : attribute? s = some (a, rest)) : AttributeName a.name := by
  rw [attribute?] at h
  split at h
  next => cases h
  next hempty =>
    cases h
    exact attributeName_small (by simpa using hempty)
      fun c hc => List.all_eq_true.1 List.all_takeWhile c hc

/-! ## All attributes of a tag -/

theorem attributes_eq (s : Text) :
    attributes s =
      match attribute? (s.dropWhile isAttributeGap) with
      | none => ([], s.dropWhile isAttributeGap)
      | some (a, rest) =>
        (a :: (attributes rest).1.filter fun b => b.name != a.name, (attributes rest).2) := by
  rw [attributes]
  split <;> simp [*]

/-- Every attribute that is kept has the name of one. -/
theorem attributeName_of_mem_attributes (s : Text) :
    ∀ a ∈ (attributes s).1, AttributeName a.name := by
  fun_induction attributes s with
  | case1 s h => simp
  | case2 s a rest h more ih =>
    intro b hb
    rcases List.mem_cons.1 hb with rfl | hb
    · exact attributeName_of_attribute? h
    · exact ih b (List.mem_of_mem_filter hb)

/-- No two attributes that are kept have the same name. -/
theorem nodup_names_attributes (s : Text) : ((attributes s).1.map Attribute.name).Nodup := by
  fun_induction attributes s with
  | case1 s h => simp
  | case2 s a rest h more ih =>
    rw [List.map_cons, List.nodup_cons]
    refine ⟨fun hmem => ?_, ih.sublist (List.filter_sublist.map _)⟩
    obtain ⟨b, hb, hname⟩ := List.mem_map.1 hmem
    simpa [hname] using (List.mem_filter.1 hb).2

/-- A name does not start with what separates attributes. -/
theorem isAttributeGap_eq_false {c : Char} (h : isAttributeNameChar c = true) :
    isAttributeGap c = false := by
  obtain ⟨hblank, hslash, -, -⟩ := isAttributeNameChar_iff.1 h
  simp [isAttributeGap, hblank, hslash]

/-- An attribute that was written is read behind the space in front of it, its name without case. -/
theorem attribute?_markup {a : Attribute} (hne : a.name ≠ [])
    (hname : ∀ c ∈ a.name, isAttributeNameChar c = true) (rest : Text) :
    attribute? ((a.markup ++ rest).dropWhile isAttributeGap) =
      some (⟨small a.name, a.value⟩, rest) := by
  obtain ⟨name, value⟩ := a
  have hdrop : ((⟨name, value⟩ : Attribute).markup ++ rest).dropWhile isAttributeGap =
      name ++ '=' :: '"' :: (Markup.escape value ++ '"' :: rest) := by
    cases name with
    | nil => exact absurd rfl hne
    | cons c name =>
      have hgap : isAttributeGap c = false := isAttributeGap_eq_false (hname c List.mem_cons_self)
      rw [Attribute.markup, List.cons_append, List.dropWhile_cons_of_pos (by decide)]
      simp [hgap]
  rw [hdrop, attribute?_written hne hname (Or.inl rfl) (Markup.quote_notMem_escape value),
    Markup.decode_escape]

/-- No attribute starts at the end of a tag. -/
theorem attributes_end (rest : Text) : attributes ('>' :: rest) = ([], '>' :: rest) := by
  have hdrop : ('>' :: rest).dropWhile isAttributeGap = '>' :: rest :=
    List.dropWhile_cons_of_neg (by decide)
  have hnone : attribute? ('>' :: rest) = none := by
    rw [attribute?, List.takeWhile_cons_of_neg (by decide)]
    rfl
  rw [attributes_eq, hdrop, hnone]

/-- The attributes of a tag end at its end, whatever is kept of them. -/
theorem behind_attributes_flatMap_markup {as : List Attribute}
    (hnames : ∀ a ∈ as, a.name ≠ [] ∧ ∀ c ∈ a.name, isAttributeNameChar c = true) (rest : Text) :
    (attributes (as.flatMap Attribute.markup ++ '>' :: rest)).2 = '>' :: rest := by
  induction as with
  | nil => rw [List.flatMap_nil, List.nil_append, attributes_end]
  | cons a as ih =>
    obtain ⟨hne, hname⟩ := hnames a List.mem_cons_self
    rw [List.flatMap_cons, List.append_assoc, attributes_eq, attribute?_markup hne hname]
    exact ih fun b hb => hnames b (List.mem_cons_of_mem a hb)

/-- **Attributes that were written are read**, up to the end of the tag. -/
theorem attributes_flatMap_markup {as : List Attribute} (hnames : ∀ a ∈ as, AttributeName a.name)
    (hnodup : (as.map Attribute.name).Nodup) (rest : Text) :
    attributes (as.flatMap Attribute.markup ++ '>' :: rest) = (as, '>' :: rest) := by
  induction as with
  | nil => rw [List.flatMap_nil, List.nil_append, attributes_end]
  | cons a as ih =>
    rw [List.map_cons, List.nodup_cons] at hnodup
    have hname := hnames a List.mem_cons_self
    have hmore := ih (fun b hb => hnames b (List.mem_cons_of_mem a hb)) hnodup.2
    have hothers : as.filter (fun b => b.name != a.name) = as := by
      rw [List.filter_eq_self]
      intro b hb
      rw [bne_iff_ne]
      intro hsame
      exact hnodup.1 (List.mem_map.2 ⟨b, hb, hsame⟩)
    rw [List.flatMap_cons, List.append_assoc, attributes_eq,
      attribute?_markup hname.ne_nil hname.isAttributeNameChar,
      small_eq_self hname.isUpper_eq_false]
    dsimp only
    rw [hmore, hothers]

end Head

end MenuPages
