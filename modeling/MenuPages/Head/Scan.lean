import MenuPages.Head.Element
import MenuPages.Markup.Entity
import MenuPages.Text.Blank

/-!
# Finding head elements

The `style` and `link` elements of a piece of markup, found without reading the rest of it. The scan
stops at every `<`: comments, and the elements whose content is text rather than markup, are passed
over as a whole; a `style` or `link` element is taken; any other `<` is passed over by itself, up to
the next one.

**A limit.** A tag name is compared letter by letter and then cut off by its number of bytes.
U+212A, the Kelvin sign, counts as the letter `k` but takes three bytes, so the cut behind `<lin`
and that sign would fall inside it. There the scan gives up (`ScanFault.cutInsideCharacter`).
-/

namespace MenuPages

/-- Why a scan gives up. -/
inductive ScanFault where
  /-- A tag name ends inside a character. -/
  | cutInsideCharacter
  deriving DecidableEq, Repr

namespace Head

open Text

/-! ## What lies between elements -/

/-- What is behind a comment that a text starts with. A comment that is never closed runs to the
end. -/
def afterComment? (s : Text) : Option Text :=
  (afterWord? "<!--".toList s).map fun inside =>
    match breakAt? "-->".toList inside with
    | some parts => parts.2
    | none => []

theorem length_of_afterComment? {s rest : Text} (h : afterComment? s = some rest) :
    rest.length < s.length := by
  obtain ⟨inside, hw, rfl⟩ := Option.map_eq_some_iff.1 h
  have hlen := length_of_afterWord? hw
  have hfour : "<!--".toList.length = 4 := rfl
  split
  · next parts hb =>
    have := length_of_breakAt? hb
    omega
  · simp only [List.length_nil]
    omega

/-- Passes over plain space and comments. -/
def skipGap (s : Text) : Text :=
  match _h : afterComment? s with
  | some rest => skipGap rest
  | none =>
    match s with
    | [] => []
    | c :: rest => if isPlainSpace c then skipGap rest else c :: rest
termination_by s.length
decreasing_by
  · exact length_of_afterComment? _h
  · simp

theorem length_skipGap_le (s : Text) : (skipGap s).length ≤ s.length := by
  fun_induction skipGap s with
  | case1 s rest h ih => exact Nat.le_trans ih (Nat.le_of_lt (length_of_afterComment? h))
  | case2 => simp
  | case3 _ _ _ _ ih => exact Nat.le_succ_of_le ih
  | case4 => simp

/-! ## Attributes -/

/-- The characters of an attribute name. -/
def isAttributeNameChar (c : Char) : Bool := !isBlank c && c != '/' && c != '>' && c != '='

/-- What separates attributes. -/
def isAttributeGap (c : Char) : Bool := isBlank c || c == '/'

/-- A value between two quote characters, and what is behind it. -/
def quotedValue? (quote : Char) : Text → Option (Text × Text)
  | [] => none
  | c :: s =>
    if c = quote then
      match s.dropWhile (· != quote) with
      | [] => none
      | _ :: rest => some (s.takeWhile (· != quote), rest)
    else none

/-- The characters of a value that is not quoted. -/
def isBareValueChar (c : Char) : Bool := !isBlank c && c != '>'

/-- A value that is not quoted, and what is behind it. -/
def bareValue? (s : Text) : Option (Text × Text) :=
  if (s.takeWhile isBareValueChar).isEmpty then none
  else some (s.takeWhile isBareValueChar, s.dropWhile isBareValueChar)

/-- The value that a text starts with. A quote that is never closed is part of a bare value. -/
def attributeValue? (s : Text) : Option (Text × Text) :=
  (quotedValue? '"' s).or ((quotedValue? '\'' s).or (bareValue? s))

/-- The value behind an equals sign, with plain space around it. -/
def assignedValue? (s : Text) : Option (Text × Text) :=
  match s.dropWhile isPlainSpace with
  | '=' :: rest => attributeValue? (rest.dropWhile isPlainSpace)
  | _ => none

/-- The attribute that a text starts with. Its name is read without case; without a value behind an
equals sign the value is empty. -/
def attribute? (s : Text) : Option (Attribute × Text) :=
  let name := s.takeWhile isAttributeNameChar
  let behind := s.dropWhile isAttributeNameChar
  let assigned := (assignedValue? behind).getD ([], behind)
  if name.isEmpty then none
  else some (⟨name.map Char.toLower, Markup.decode assigned.1⟩, assigned.2)

theorem length_of_quotedValue? {q : Char} {s rest value : Text}
    (h : quotedValue? q s = some (value, rest)) : rest.length ≤ s.length := by
  unfold quotedValue? at h
  split at h
  · simp at h
  · next c s =>
    split at h
    · split at h
      · simp at h
      · next d after hd =>
        simp only [Option.some.injEq, Prod.mk.injEq] at h
        have := length_dropWhile_le (· != q) s
        rw [hd, h.2] at this
        simp only [List.length_cons] at this ⊢
        omega
    · simp at h

theorem length_of_attributeValue? {s rest value : Text}
    (h : attributeValue? s = some (value, rest)) : rest.length ≤ s.length := by
  unfold attributeValue? at h
  rcases Option.or_eq_some_iff.1 h with h | ⟨_, h⟩
  · exact length_of_quotedValue? h
  · rcases Option.or_eq_some_iff.1 h with h | ⟨_, h⟩
    · exact length_of_quotedValue? h
    · unfold bareValue? at h
      split at h
      · simp at h
      · simp only [Option.some.injEq, Prod.mk.injEq] at h
        rw [← h.2]
        exact length_dropWhile_le ..

theorem length_of_assignedValue? {s : Text} {found : Text × Text}
    (h : assignedValue? s = some found) : found.2.length ≤ s.length := by
  obtain ⟨value, rest⟩ := found
  unfold assignedValue? at h
  split at h
  · next after hs =>
    have h1 := length_dropWhile_le isPlainSpace s
    have h2 := length_dropWhile_le isPlainSpace after
    have h3 := length_of_attributeValue? h
    rw [hs, List.length_cons] at h1
    show rest.length ≤ s.length
    omega
  · simp at h

/-- An attribute takes at least one character. -/
theorem length_of_attribute? {s rest : Text} {a : Attribute} (h : attribute? s = some (a, rest)) :
    rest.length < s.length := by
  unfold attribute? at h
  dsimp only at h
  split at h
  · simp at h
  · next hname =>
    simp only [Option.some.injEq, Prod.mk.injEq] at h
    have hsplit := congrArg List.length (@List.takeWhile_append_dropWhile _ isAttributeNameChar s)
    have hpos : 0 < (s.takeWhile isAttributeNameChar).length := by
      rw [List.length_pos_iff]
      intro hnil
      simp [hnil] at hname
    rw [List.length_append] at hsplit
    have hle : rest.length ≤ (s.dropWhile isAttributeNameChar).length := by
      rw [← h.2]
      cases ha : assignedValue? (s.dropWhile isAttributeNameChar) with
      | none => simp
      | some p => exact length_of_assignedValue? ha
    omega

/-- The attributes that a text starts with, up to where no further one can start. The first of
several of one name counts. -/
def attributes (s : Text) : List Attribute × Text :=
  match _h : attribute? (s.dropWhile isAttributeGap) with
  | none => ([], s.dropWhile isAttributeGap)
  | some (a, rest) =>
    let more := attributes rest
    (a :: more.1.filter fun b => b.name != a.name, more.2)
termination_by s.length
decreasing_by
  have := length_of_attribute? _h
  have := length_dropWhile_le isAttributeGap s
  omega

theorem length_attributes_le (s : Text) : (attributes s).2.length ≤ s.length := by
  fun_induction attributes s with
  | case1 s => exact length_dropWhile_le isAttributeGap s
  | case2 s a rest h more ih =>
    have := length_of_attribute? h
    have := length_dropWhile_le isAttributeGap s
    exact Nat.le_trans ih (by omega)

/-! ## Elements -/

/-- What may follow the name of a tag. -/
def endsTagName (c : Char) : Bool :=
  c == ' ' || c == '\t' || c == '\r' || c == '\n' || c == '\x0c' || c == '/' || c == '>'

/-- The attributes of an opening tag of this name, in any case, and what is behind the tag. -/
def startTag? (name s : Text) : Option (List Attribute × Text) :=
  match afterWord? ('<' :: name) s with
  | some (c :: rest) =>
    if endsTagName c then
      match (attributes (c :: rest)).2 with
      | '>' :: behind => some ((attributes (c :: rest)).1, behind)
      | _ => none
    else none
  | _ => none

theorem length_of_startTag? {name s behind : Text} {as : List Attribute}
    (h : startTag? name s = some (as, behind)) : behind.length < s.length := by
  unfold startTag? at h
  split at h
  · next c rest hw =>
    split at h
    · split at h
      · next after ha =>
        simp only [Option.some.injEq, Prod.mk.injEq] at h
        have h1 := length_attributes_le (c :: rest)
        have h2 := length_of_afterWord? hw
        rw [ha, h.2] at h1
        simp only [List.length_cons] at h1 h2
        omega
      · simp at h
    · simp at h
  · simp at h

/-- The text of an element up to its end tag, and what is behind the end tag. Without an end tag
the text runs to the end. -/
def rawText (name s : Text) : Text × Text :=
  match breakAt? ('<' :: '/' :: name) s with
  | some parts => (parts.1, (parts.2.dropWhile (· != '>')).drop 1)
  | none => (s, [])

theorem length_rawText_le (name s : Text) : (rawText name s).2.length ≤ s.length := by
  unfold rawText
  split
  · next parts h =>
    have h1 := length_of_breakAt? h
    have h2 := length_dropWhile_le (· != '>') parts.2
    simp only [List.length_drop]
    omega
  · simp

/-- The elements whose content is text and is passed over. -/
def textElements : List Text :=
  ["script".toList, "noscript".toList, "title".toList, "textarea".toList]

/-- What a text starts with, if it is an element that the scan knows: the element if it is to be
taken, and what is behind it. -/
def element? (s : Text) : Option (Option HeadElement × Text) :=
  match startTag? HeadTag.style.name s with
  | some (as, inside) =>
    some (some ⟨.style, as, (rawText HeadTag.style.name inside).1⟩,
      (rawText HeadTag.style.name inside).2)
  | none =>
    match startTag? HeadTag.link.name s with
    | some (as, behind) => some (some ⟨.link, as, []⟩, behind)
    | none =>
      textElements.findSome? fun name =>
        (startTag? name s).map fun found => (none, (rawText name found.2).2)

theorem length_of_element? {s behind : Text} {e : Option HeadElement}
    (h : element? s = some (e, behind)) : behind.length < s.length := by
  unfold element? at h
  split at h
  · next as inside hs =>
    simp only [Option.some.injEq, Prod.mk.injEq] at h
    rw [← h.2]
    exact Nat.lt_of_le_of_lt (length_rawText_le ..) (length_of_startTag? hs)
  · split at h
    · next as rest hs =>
      simp only [Option.some.injEq, Prod.mk.injEq] at h
      rw [← h.2]
      exact length_of_startTag? hs
    · obtain ⟨name, _, hn⟩ := List.exists_of_findSome?_eq_some h
      obtain ⟨⟨as, inside⟩, hs, heq⟩ := Option.map_eq_some_iff.1 hn
      simp only [Prod.mk.injEq] at heq
      rw [← heq.2]
      exact Nat.lt_of_le_of_lt (length_rawText_le ..) (length_of_startTag? hs)

/-- The name of a tag would be cut inside the character U+212A. -/
def cutsCharacter (s : Text) : Bool :=
  match afterWord? "<lin".toList s with
  | some (c :: _) => c == '\u212a'
  | _ => false

/-- The elements to be taken from a text, in the order in which they stand. -/
def found (s : Text) : Except ScanFault (List HeadElement) :=
  match _h : skipGap s with
  | [] => .ok []
  | c :: rest =>
    if cutsCharacter (c :: rest) then .error .cutInsideCharacter
    else
      match _he : element? (c :: rest) with
      | some (some e, behind) => (found behind).map (e :: ·)
      | some (none, behind) => found behind
      | none => found (rest.dropWhile (· != '<'))
termination_by s.length
decreasing_by
  · have := length_of_element? _he
    have := length_skipGap_le s
    rw [_h] at this
    omega
  · have := length_of_element? _he
    have := length_skipGap_le s
    rw [_h] at this
    omega
  · have := length_dropWhile_le (· != '<') rest
    have := length_skipGap_le s
    rw [_h, List.length_cons] at this
    omega

/-- The `style` elements of a text and then its `link` elements, each in the order in which they
stand. -/
def elements (s : Text) : Except ScanFault (List HeadElement) :=
  (found s).map fun es => es.filter (·.tag = .style) ++ es.filter (·.tag = .link)

end Head

end MenuPages
