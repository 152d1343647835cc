import MenuPages.Proofs.Head.Regions

/-!
# Tags of other names

The scan knows six names. An opening tag of any other name is no element for it, and it does not
read the attributes of such a tag either: it goes on at the next `<`, wherever that is.

**The law** (`OtherTag.elements_markup_append`): so it goes on with what is left of the tag from the
first `<` in one of its values on (`OtherTag.unread`). Nothing is left if no value has a `<` in it,
and then the tag contributes nothing, whatever is behind it. But what stands in a value behind a `<`
is read as markup, although it is text there, and a link in it is taken
(`OtherTag.elements_markup_append_link`).
-/

namespace MenuPages.Head

open Text

/-- An attribute as it stands in a tag, with its value between double quotes just as it is written.
-/
structure QuotedAttribute where
  name : Text
  name_isAlpha : ∀ c ∈ name, c.isAlpha = true
  value : Text
  quote_notMem : '"' ∉ value

/-- The attribute, behind a space. -/
def QuotedAttribute.markup (a : QuotedAttribute) : Text :=
  ' ' :: (a.name ++ '=' :: '"' :: (a.value ++ ['"']))

/-- An opening tag of a name that the scan does not know, in any case. -/
structure OtherTag where
  name : Text
  name_isAlpha : ∀ c ∈ name, c.isAlpha = true
  small_notMem : small name ∉ knownNames
  attributes : List QuotedAttribute

namespace OtherTag

/-- The tag without its `<`. -/
def inside (t : OtherTag) : Text :=
  t.name ++ (t.attributes.flatMap QuotedAttribute.markup ++ ['>'])

def markup (t : OtherTag) : Text := '<' :: t.inside

/-- The tag from the first `<` in one of its values on. -/
def unread (t : OtherTag) : Text := t.inside.dropWhile (· != '<')

/-! ## Where the scan stands in front of the tag -/

theorem endsTagName_of_isAlpha {c : Char} (h : c.isAlpha = true) : endsTagName c = false := by
  by_contra hends
  simp only [endsTagName, Bool.not_eq_false, Bool.or_eq_true, beq_iff_eq] at hends
  rcases hends with (((((rfl | rfl) | rfl) | rfl) | rfl) | rfl) | rfl <;> exact absurd h (by decide)

theorem endsTagName_of_mem_name (t : OtherTag) : ∀ c ∈ t.name, endsTagName c = false :=
  fun c hc => endsTagName_of_isAlpha (t.name_isAlpha c hc)

/-- What is behind the name of the tag ends a name. -/
theorem exists_inside_append (t : OtherTag) (rest : Text) :
    ∃ c s, t.inside ++ rest = t.name ++ c :: s ∧ endsTagName c = true := by
  rw [inside]
  cases t.attributes with
  | nil => exact ⟨'>', rest, by simp, rfl⟩
  | cons a as =>
    refine ⟨' ', a.name ++ '=' :: '"' :: (a.value ++ '"' :: (as.flatMap QuotedAttribute.markup ++
      '>' :: rest)), ?_, rfl⟩
    simp [QuotedAttribute.markup]

theorem skipGap_markup_append (t : OtherTag) (rest : Text) :
    skipGap (t.markup ++ rest) = t.markup ++ rest := by
  obtain ⟨c, s, hinside, hends⟩ := t.exists_inside_append rest
  rw [markup, List.cons_append, hinside]
  cases hname : t.name with
  | nil =>
    refine skipGap_lt_cons ?_ s
    rintro rfl
    exact absurd hends (by decide)
  | cons d name =>
    have hletter := t.name_isAlpha d (hname ▸ List.mem_cons_self)
    exact skipGap_lt_cons (ne_of_class hletter (by decide)) (name ++ c :: s)

/-- There is no Kelvin sign in the name of the tag. -/
theorem cutsCharacter_markup_append (t : OtherTag) (rest : Text) :
    cutsCharacter (t.markup ++ rest) = false := by
  obtain ⟨c, s, hinside, hends⟩ := t.exists_inside_append rest
  rw [markup, List.cons_append, hinside, Bool.eq_false_iff, Ne, cutsCharacter_iff]
  rintro ⟨w, behind, hsplit, hw⟩
  have hname : ∀ d ∈ '<' :: t.name, endsTagName d = false := by
    intro d hd
    rcases List.mem_cons.1 hd with rfl | hd
    · rfl
    · exact t.endsTagName_of_mem_name d hd
  have hlin : ∀ d ∈ w, (!endsTagName d) = true := by
    have hletters : ∀ d ∈ small "<lin".toList, endsTagName d = false :=
      TextElement.letters_of_any (by decide)
    intro d hd
    rw [endsTagName_eq_false hw hletters d hd]
    rfl
  -- the name reaches to the first character that ends one, so the sign stands in front of that
  have htaken := congrArg (List.takeWhile fun d => !endsTagName d) hsplit
  rw [← List.cons_append, takeWhile_name hname hends, List.takeWhile_append_of_pos hlin,
    List.takeWhile_cons_of_pos (by decide)] at htaken
  have hkelvin : '\u212a' ∈ '<' :: t.name := htaken ▸ by simp
  rcases List.mem_cons.1 hkelvin with hlt | hmem
  · exact absurd hlt (by decide)
  · exact absurd (t.name_isAlpha _ hmem) (by decide)

/-- The tag is read as none of those that the scan knows. -/
theorem element?_markup_append (t : OtherTag) (rest : Text) :
    element? (t.markup ++ rest) = none := by
  apply element?_eq_none
  intro known hknown
  obtain ⟨c, s, hinside, hends⟩ := t.exists_inside_append rest
  have hletters : (small known).any endsTagName = false ∧ small known = known := by
    revert known
    decide
  rw [markup, List.cons_append, hinside]
  refine startTag?_eq_none t.endsTagName_of_mem_name hends (by simpa using hletters.1) ?_
  rw [hletters.2]
  rintro rfl
  exact t.small_notMem hknown

/-! ## Behind its first character -/

theorem found_markup_append (t : OtherTag) (rest : Text) :
    found (t.markup ++ rest) = found (t.unread ++ rest) := by
  have hgap := t.skipGap_markup_append rest
  have hcuts := t.cutsCharacter_markup_append rest
  have hnone := t.element?_markup_append rest
  have hread : '<' ∉ t.inside.takeWhile (· != '<') := by
    intro hmem
    simpa using List.all_eq_true.1 List.all_takeWhile '<' hmem
  rw [markup, List.cons_append] at hgap hcuts hnone ⊢
  calc found ('<' :: (t.inside ++ rest)) = found (t.inside ++ rest) :=
        found_of_element?_eq_none hgap hcuts hnone
    _ = found (t.inside.takeWhile (· != '<') ++ (t.unread ++ rest)) := by
        rw [unread, ← List.append_assoc, List.takeWhile_append_dropWhile]
    _ = found (t.unread ++ rest) := found_append_of_lt_notMem hread _

/-- Nothing of a tag is left unread if its values are without a `<`. -/
theorem unread_eq_nil_iff (t : OtherTag) :
    t.unread = [] ↔ ∀ a ∈ t.attributes, '<' ∉ a.value := by
  have hlt : t.unread = [] ↔ '<' ∉ t.inside := by
    rw [unread, List.dropWhile_eq_nil_iff]
    simp only [bne_iff_ne, ne_eq]
    exact ⟨fun h hmem => h '<' hmem rfl, fun h c hc heq => h (heq ▸ hc)⟩
  have hletters {s : Text} (hs : ∀ c ∈ s, c.isAlpha = true) : '<' ∉ s :=
    fun hmem => absurd (hs '<' hmem) (by decide)
  rw [hlt, inside]
  simp only [List.mem_append, List.mem_flatMap, QuotedAttribute.markup, List.mem_cons, not_or,
    not_exists, not_and, List.not_mem_nil, not_false_eq_true, and_true]
  constructor
  · rintro ⟨-, hvalues, -⟩ a ha
    exact (hvalues a ha).2.2.2.2.1
  · intro hvalues
    refine ⟨hletters t.name_isAlpha, fun a ha => ?_, by decide⟩
    exact ⟨by decide, hletters a.name_isAlpha, by decide, by decide, hvalues a ha, by decide⟩

/-- **A tag of another name contributes nothing if its values are without a `<`**, whatever is
behind it. Otherwise the scan goes on with the tag from the first `<` in a value on. -/
theorem elements_markup_append (t : OtherTag) (rest : Text) :
    elements (t.markup ++ rest) = elements (t.unread ++ rest) ∧
      ((∀ a ∈ t.attributes, '<' ∉ a.value) → elements (t.markup ++ rest) = elements rest) := by
  have hunread : elements (t.markup ++ rest) = elements (t.unread ++ rest) := by
    rw [elements, elements, t.found_markup_append]
  refine ⟨hunread, fun hvalues => ?_⟩
  rw [hunread, t.unread_eq_nil_iff.2 hvalues, List.nil_append]

/-- A tag in capital letters, with a link behind it. -/
theorem elements_markup_append_meta :
    let t : OtherTag :=
      { name := "META".toList, name_isAlpha := List.all_eq_true.1 (by decide),
        small_notMem := by decide,
        attributes :=
          [⟨"charset".toList, List.all_eq_true.1 (by decide), "utf-8>".toList, by decide⟩] }
    t.markup = "<META charset=\"utf-8>\">".toList ∧ (∀ a ∈ t.attributes, '<' ∉ a.value) ∧
      elements (t.markup ++ "<link x>".toList) = elements "<link x>".toList := by
  intro t
  have hvalues : ∀ a ∈ t.attributes, '<' ∉ a.value := by
    intro a ha
    rw [List.mem_singleton.1 ha]
    decide
  exact ⟨rfl, hvalues, (t.elements_markup_append _).2 hvalues⟩

/-- A link is taken that stands in the value of an attribute. -/
theorem elements_markup_append_link :
    let t : OtherTag :=
      { name := "a".toList, name_isAlpha := List.all_eq_true.1 (by decide),
        small_notMem := by decide,
        attributes := [⟨"b".toList, List.all_eq_true.1 (by decide), "<link>".toList, by decide⟩] }
    t.markup = "<a b=\"<link>\">".toList ∧ elements (t.markup ++ []) = .ok [⟨.link, [], []⟩] ∧
      elements [] = .ok [] ∧ elements (t.markup ++ []) ≠ elements [] := by
  intro t
  have hlink : elements (t.markup ++ []) = .ok [⟨.link, [], []⟩] := by decide +kernel
  have hnothing : elements [] = .ok [] := by decide +kernel
  refine ⟨rfl, hlink, hnothing, ?_⟩
  rw [hlink, hnothing]
  nofun

end OtherTag

end MenuPages.Head
