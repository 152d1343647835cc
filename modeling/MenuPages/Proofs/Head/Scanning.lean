import Mathlib.Data.List.TakeWhile
import MenuPages.Proofs.Head.Attributes

/-!
# What the scan does

One law for each step of the scan, so that what is proved about whole contents need not look into
it again: which tags and raw texts are read (`startTag?_written`, `rawText_written`), and what is
done where the scan stands (`found_eq`). Whether a tag is read depends on the name of the tag and on
its attributes alone; what is behind it does not matter.

The scan stops at `<` only. So a text without a `<` is passed over (`found_append_of_lt_notMem`), and
nothing is taken from a content that is such a text (`elements_of_lt_notMem`).
-/

namespace MenuPages.Head

open Text

/-! ## Tags -/

/-- An opening tag is read, whatever the case of its name, if its attributes are read up to its
end. -/
theorem startTag?_written {name w s behind : Text} {as : List Attribute} {c : Char}
    (hw : small w = small name) (hend : endsTagName c = true)
    (has : attributes (c :: s) = (as, '>' :: behind)) :
    startTag? name ('<' :: (w ++ c :: s)) = some (as, behind) := by
  have hread : afterWord? ('<' :: name) ('<' :: (w ++ c :: s)) = some (c :: s) :=
    afterWord?_append (w := '<' :: w) (by rw [small_cons, small_cons, hw]) _
  rw [startTag?, hread]
  simp only [hend, if_true, has]

/-- The attributes of a tag that was read have names, and no two the same. -/
theorem names_of_startTag? {name s behind : Text} {as : List Attribute}
    (h : startTag? name s = some (as, behind)) :
    (∀ a ∈ as, AttributeName a.name) ∧ (as.map Attribute.name).Nodup := by
  rw [startTag?] at h
  split at h
  next c rest _ =>
    split at h
    next =>
      split at h
      next =>
        cases h
        exact ⟨attributeName_of_mem_attributes _, nodup_names_attributes _⟩
      next => cases h
    next => cases h
  next => cases h

/-! ## Raw text -/

/-- A raw text that was written is read up to its end tag, whatever the case of the name in it. -/
theorem rawText_written {name w text : Text} (hname : '<' ∉ small name) (hw : small w = small name)
    (htext : ¬ Has ('<' :: '/' :: name) text) (rest : Text) :
    rawText name (text ++ ('<' :: '/' :: w ++ '>' :: rest)) = (text, rest) := by
  have hword : Unbordered (small ('<' :: '/' :: name)) := by
    rw [small_cons]
    apply unbordered_cons
    rw [small_cons, List.mem_cons, not_or]
    exact ⟨by decide, hname⟩
  have hend : small ('<' :: '/' :: w) = small ('<' :: '/' :: name) := by
    rw [small_cons, small_cons, small_cons, small_cons, hw]
  rw [rawText, breakAt?_append hword htext hend]
  simp

/-- A raw text without its end tag is read to the end. -/
theorem rawText_unclosed {name text : Text} (h : ¬ Has ('<' :: '/' :: name) text) :
    rawText name text = (text, []) := by
  rw [rawText, breakAt?_eq_none_iff.2 h]

/-- A raw text that was read does not have its end tag in it. -/
theorem not_has_rawText (name s : Text) : ¬ Has ('<' :: '/' :: name) (rawText name s).1 := by
  rw [rawText]
  split
  next parts h => exact not_has_of_breakAt? (List.cons_ne_nil _ _) h
  next h => exact breakAt?_eq_none_iff.1 h

/-! ## Gaps -/

/-- Every word that the scan looks for starts with `<`. -/
theorem afterWord?_of_ne {c : Char} (h : c ≠ '<') (word s : Text) :
    afterWord? ('<' :: word) (c :: s) = none :=
  if_neg fun hsame => h (eq_of_sameLetter (by decide) hsame)

theorem afterComment?_of_ne {c : Char} (h : c ≠ '<') (s : Text) : afterComment? (c :: s) = none := by
  have hword : afterWord? "<!--".toList (c :: s) = none := afterWord?_of_ne h _ s
  rw [afterComment?, hword, Option.map_none]

theorem skipGap_nil : skipGap [] = [] := by
  rw [skipGap]
  rfl

theorem skipGap_of_afterComment? {s rest : Text} (h : afterComment? s = some rest) :
    skipGap s = skipGap rest := by
  rw [skipGap]
  split
  next hcomment => rw [Option.some.inj (hcomment.symm.trans h)]
  next hcomment => cases hcomment.symm.trans h

theorem skipGap_cons {c : Char} {s : Text} (h : afterComment? (c :: s) = none) :
    skipGap (c :: s) = if isPlainSpace c then skipGap s else c :: s := by
  rw [skipGap]
  split
  next hcomment => cases h.symm.trans hcomment
  next => rfl

/-- Only `<!` may start a comment. -/
theorem skipGap_lt_cons {c : Char} (h : c ≠ '!') (s : Text) :
    skipGap ('<' :: c :: s) = '<' :: c :: s := by
  have hword : afterWord? "<!--".toList ('<' :: c :: s) = none := by
    show (if sameLetter '<' '<' then afterWord? "!--".toList (c :: s) else none) = none
    rw [if_pos (by decide)]
    exact if_neg fun hsame => h (eq_of_sameLetter (by decide) hsame)
  have hcomment : afterComment? ('<' :: c :: s) = none := by
    rw [afterComment?, hword, Option.map_none]
  rw [skipGap_cons hcomment, if_neg (by decide)]

/-- Plain space is passed over. -/
theorem skipGap_append {gap : Text} (h : ∀ c ∈ gap, isPlainSpace c = true) (s : Text) :
    skipGap (gap ++ s) = skipGap s := by
  induction gap with
  | nil => rfl
  | cons c gap ih =>
    have hspace := h c List.mem_cons_self
    have hne : c ≠ '<' := by
      rintro rfl
      exact absurd hspace (by decide)
    rw [List.cons_append, skipGap_cons (afterComment?_of_ne hne _), if_pos hspace]
    exact ih fun d hd => h d (List.mem_cons_of_mem c hd)

/-! ## The scan -/

theorem found_eq (s : Text) :
    found s =
      match skipGap s with
      | [] => .ok []
      | c :: rest =>
        if cutsCharacter (c :: rest) then .error .cutInsideCharacter
        else
          match element? (c :: rest) with
          | some (some e, behind) => (found behind).map (e :: ·)
          | some (none, behind) => found behind
          | none => found (rest.dropWhile (· != '<')) := by
  rw [found]
  split
  next h => rw [h]
  next h =>
    simp only [h]
    split
    next => rfl
    next => split <;> (rename_i he; simp only [he])

/-- The scan does not stop in plain space. -/
theorem found_append {gap : Text} (h : ∀ c ∈ gap, isPlainSpace c = true) (s : Text) :
    found (gap ++ s) = found s := by
  rw [found_eq, skipGap_append h, ← found_eq]

theorem map_nil_append (o : Except ScanFault (List HeadElement)) :
    o.map (([] : List HeadElement) ++ ·) = o := by
  cases o <;> rfl

/-- The names of the tags that the scan knows. -/
def knownNames : List Text := HeadTag.style.name :: HeadTag.link.name :: textElements

/-- What the scan does where it stands in front of something that it knows. -/
theorem found_of_element? {s behind : Text} {e : Option HeadElement} (hgap : skipGap s = s)
    (hcuts : cutsCharacter s = false) (h : element? s = some (e, behind)) :
    found s = (found behind).map (e.toList ++ ·) := by
  rw [found_eq, hgap]
  cases s with
  | nil => cases h
  | cons c s =>
    simp only [hcuts, h, Bool.false_eq_true, if_false]
    cases e with
    | some e => rfl
    | none => exact (map_nil_append _).symm

/-- The scan gives up in front of `<lin` and the Kelvin sign, the three letters in any case. -/
theorem cutsCharacter_iff {s : Text} :
    cutsCharacter s = true ↔ ∃ w rest, s = w ++ '\u212a' :: rest ∧ small w = "<lin".toList := by
  rw [cutsCharacter]
  constructor
  · intro h
    split at h
    next c rest hread =>
      obtain ⟨w, rfl, hw⟩ := afterWord?_eq_some_iff.1 hread
      exact ⟨w, rest, by rw [beq_iff_eq.1 h], hw⟩
    next => cases h
  · rintro ⟨w, rest, rfl, hw⟩
    have hread : afterWord? "<lin".toList (w ++ '\u212a' :: rest) = some ('\u212a' :: rest) :=
      afterWord?_append hw _
    rw [hread]
    rfl

/-! ## Texts between elements -/

/-- Nothing is read where no tag of a name that the scan knows is read. -/
theorem element?_eq_none {s : Text} (h : ∀ name ∈ knownNames, startTag? name s = none) :
    element? s = none := by
  rw [element?, h _ (by decide), h _ (by decide)]
  apply List.findSome?_eq_none_iff.2
  intro name hname
  rw [h name (List.mem_cons_of_mem _ (List.mem_cons_of_mem _ hname)), Option.map_none]

theorem startTag?_of_ne {c : Char} (h : c ≠ '<') (name s : Text) :
    startTag? name (c :: s) = none := by
  rw [startTag?, afterWord?_of_ne h]

/-- Nothing starts at a character other than `<`. -/
theorem element?_of_ne {c : Char} (h : c ≠ '<') (s : Text) : element? (c :: s) = none :=
  element?_eq_none fun name _ => startTag?_of_ne h name s

theorem cutsCharacter_of_ne {c : Char} (h : c ≠ '<') (s : Text) :
    cutsCharacter (c :: s) = false := by
  have hlin : afterWord? "<lin".toList (c :: s) = none := afterWord?_of_ne h _ s
  rw [cutsCharacter, hlin]

/-- At a character that no element starts with, the scan goes on behind it or at the next `<`. -/
theorem found_cons_of_ne {c : Char} (h : c ≠ '<') (s : Text) :
    found (c :: s) = found s ∨ found (c :: s) = found (s.dropWhile (· != '<')) := by
  by_cases hspace : isPlainSpace c = true
  · have hgap : ∀ d ∈ [c], isPlainSpace d = true := by simpa using hspace
    exact Or.inl (found_append hgap s)
  · have hgap : skipGap (c :: s) = c :: s := by
      rw [skipGap_cons (afterComment?_of_ne h s), if_neg hspace]
    right
    rw [found_eq, hgap]
    simp only [cutsCharacter_of_ne h, element?_of_ne h, Bool.false_eq_true, if_false]

/-- Where the scan stands in front of the next `<` does not matter. -/
theorem found_dropWhile_ne (s : Text) : found (s.dropWhile (· != '<')) = found s := by
  induction s with
  | nil => rfl
  | cons c s ih =>
    by_cases hc : c = '<'
    · rw [List.dropWhile_cons_of_neg (by simp [hc])]
    · rw [List.dropWhile_cons_of_pos (by simpa using hc), ih]
      rcases found_cons_of_ne hc s with hfound | hfound
      · exact hfound.symm
      · rw [hfound, ih]

/-- Where the scan stops in front of something that it does not know, it goes on behind the
character at which it stands. -/
theorem found_of_element?_eq_none {c : Char} {s : Text} (hgap : skipGap (c :: s) = c :: s)
    (hcuts : cutsCharacter (c :: s) = false) (h : element? (c :: s) = none) :
    found (c :: s) = found s := by
  rw [found_eq, hgap]
  simp only [hcuts, h, Bool.false_eq_true, if_false]
  exact found_dropWhile_ne s

/-- **A text without a `<` is passed over**, whatever is behind it. -/
theorem found_append_of_lt_notMem {s : Text} (h : '<' ∉ s) (rest : Text) :
    found (s ++ rest) = found rest := by
  have hplain : ∀ c ∈ s, (c != '<') = true := by
    intro c hc
    rw [bne_iff_ne]
    intro hlt
    exact h (hlt ▸ hc)
  rw [← found_dropWhile_ne (s ++ rest), List.dropWhile_append_of_pos hplain, found_dropWhile_ne]

theorem found_nil : found [] = .ok [] := by
  rw [found_eq, skipGap_nil]

/-- Elements stand behind a `<`. -/
theorem elements_of_lt_notMem {s : Text} (h : '<' ∉ s) : elements s = .ok [] := by
  have hfound : found s = .ok [] := by
    rw [← List.append_nil s, found_append_of_lt_notMem h, found_nil]
  rw [elements, hfound]
  rfl

theorem elements_of_allBlank {s : Text} (h : Text.allBlank s = true) : elements s = .ok [] := by
  apply elements_of_lt_notMem
  intro hmem
  exact absurd (List.all_eq_true.1 h '<' hmem) (by decide)

end MenuPages.Head
