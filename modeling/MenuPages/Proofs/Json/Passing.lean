import MenuPages.Proofs.Json.Scalars
import MenuPages.Proofs.Text.Words

/-!
# Values that are not wanted are passed over

Passing over a value ends behind it, whatever the value is and however deep it goes, and then goes
on with the containers that are open (`Value.skipValue_eq`). This is shown for values, for the parts
of a container and for one part together, along the grammar; the containers that are open are any,
since each bracket adds one.
-/

namespace MenuPages.Json

open Text

variable {k : Container} {ks : List Container} {c : Char} {s t rest : Text}

/-! ## How values start -/

/-- What a value may start with: no white space, and no bracket that closes a container. -/
def IsStart (c : Char) : Prop := isPlainSpace c = false ∧ c ≠ ']' ∧ c ≠ '}'

instance : DecidablePred IsStart := fun c =>
  inferInstanceAs (Decidable (isPlainSpace c = false ∧ c ≠ ']' ∧ c ≠ '}'))

theorem IsStart.ne_closing (h : IsStart c) (k : Container) : c ≠ k.closing := by
  cases k
  · exact h.2.1
  · exact h.2.2

theorem isStart_of_isDigit (hc : c.isDigit = true) : IsStart c := by
  have hne : ∀ d : Char, d.isDigit = false → c ≠ d := fun _ => ne_of_class hc
  refine ⟨?_, hne ']' (by decide), hne '}' (by decide)⟩
  rw [isPlainSpace]
  simp [hne ' ' (by decide), hne '\t' (by decide), hne '\r' (by decide), hne '\n' (by decide)]

theorem isStart_opening (k : Container) : IsStart k.opening := by
  cases k <;> decide

theorem Magnitude.exists_cons (h : Magnitude s rest) : ∃ c t, s = c :: t ∧ c.isDigit = true := by
  cases h with
  | parts hwhole _ _ =>
    cases hwhole with
    | zero => exact ⟨'0', _, rfl, by decide⟩
    | digits hc _ _ => exact ⟨_, _, rfl, hc⟩

/-- The words that are values. -/
theorem eq_of_mem_words {w : Text} (hw : w ∈ ["null".toList, "true".toList, "false".toList]) :
    w = 'n' :: "ull".toList ∨ w = 't' :: "rue".toList ∨ w = 'f' :: "alse".toList := by
  simpa using hw

theorem Value.exists_cons (h : Value s rest) : ∃ c t, s = c :: t ∧ IsStart c := by
  cases h with
  | word hw =>
    rcases eq_of_mem_words hw with rfl | rfl | rfl
    · exact ⟨_, _, rfl, by decide⟩
    · exact ⟨_, _, rfl, by decide⟩
    · exact ⟨_, _, rfl, by decide⟩
  | positive h =>
    obtain ⟨c, t, rfl, hc⟩ := h.exists_cons
    exact ⟨c, t, rfl, isStart_of_isDigit hc⟩
  | negative => exact ⟨_, _, rfl, by decide⟩
  | string => exact ⟨_, _, rfl, by decide⟩
  | empty k => exact ⟨_, _, rfl, isStart_opening k⟩
  | filled k => exact ⟨_, _, rfl, isStart_opening k⟩

/-! ## Scalars -/

theorem readWord_append (w rest : Text) : readWord w (w ++ rest) = .ok ((), rest) := by
  induction w with
  | nil => rfl
  | cons c w ih => rw [List.cons_append, readWord, if_pos rfl, ih]

theorem skipScalar_word {w : Text} (hw : w ∈ ["null".toList, "true".toList, "false".toList])
    (rest : Text) : skipScalar (w ++ rest) = .ok ((), rest) := by
  rcases eq_of_mem_words hw with rfl | rfl | rfl
  · exact readWord_append "ull".toList rest
  · exact readWord_append "rue".toList rest
  · exact readWord_append "alse".toList rest

theorem skipScalar_digit (hc : c.isDigit = true) (s : Text) :
    skipScalar (c :: s) = skipNumber (c :: s) := by
  have hne : ∀ d : Char, d.isDigit = false → c ≠ d := fun _ => ne_of_class hc
  rw [skipScalar, if_neg (hne 'n' (by decide)), if_neg (hne 't' (by decide)),
    if_neg (hne 'f' (by decide)), if_neg (hne '"' (by decide)), if_neg (hne '-' (by decide)),
    if_pos hc]

/-! ## One step -/

theorem Space.skipValue_eq (h : Space s t) (ks : List Container) :
    skipValue ks s = skipValue ks t := by
  rw [skipValue, skipValue, h.skipSpace_eq]

theorem skipValue_scalar (hc : isPlainSpace c = false) (hopening : ∀ k : Container, c ≠ k.opening)
    (h : skipScalar (c :: s) = .ok ((), rest)) (ks : List Container) :
    skipValue ks (c :: s) = skipBehind ks rest := by
  rw [skipValue, skipSpace_cons hc]
  have hlist : c ≠ '[' := hopening .list
  have hobject : c ≠ '{' := hopening .object
  simp only [hlist, hobject, if_false]
  split
  · next hscalar => simp [h] at hscalar
  · next hscalar =>
    rw [h] at hscalar
    cases hscalar
    rfl

theorem skipValue_opening (k : Container) (ks : List Container) (s : Text) :
    skipValue ks (k.opening :: s) = skipOpened k ks s := by
  rw [skipValue, skipSpace_cons (isStart_opening k).1]
  cases k
  · rfl
  · rfl

theorem skipOpened_closing (h : Space s (k.closing :: rest)) (ks : List Container) :
    skipOpened k ks s = skipBehind ks rest := by
  rw [skipOpened, h.skipSpace_eq_cons (isPlainSpace_closing k)]
  exact if_pos rfl

theorem skipOpened_part (h : Space s (c :: t)) (hc : IsStart c) {u : Text}
    (hpart : skipPartStart k (c :: t) = .ok ((), u)) (ks : List Container) :
    skipOpened k ks s = skipValue (k :: ks) u := by
  rw [skipOpened, h.skipSpace_eq_cons hc.1]
  simp only [if_neg (hc.ne_closing k)]
  split
  · next he => simp [hpart] at he
  · next he =>
    rw [hpart] at he
    cases he
    rfl

theorem skipBehind_closing (h : Space s (k.closing :: rest)) (ks : List Container) :
    skipBehind (k :: ks) s = skipBehind ks rest := by
  have hcomma : k.closing ≠ ',' := by cases k <;> decide
  rw [skipBehind, h.skipSpace_eq_cons (isPlainSpace_closing k)]
  simp only [if_neg hcomma, if_true]

theorem skipBehind_comma (h : Space s (',' :: t)) {u : Text}
    (hpart : skipPartStart k t = .ok ((), u)) (ks : List Container) :
    skipBehind (k :: ks) s = skipValue (k :: ks) u := by
  rw [skipBehind, h.skipSpace_eq_cons]
  simp only [if_true]
  split
  · next he => simp [hpart] at he
  · next he =>
    rw [hpart] at he
    cases he
    rfl

/-! ## Along the grammar -/

theorem Part.exists_cons (h : Part k s rest) : ∃ c t, s = c :: t ∧ IsStart c := by
  cases h with
  | element h => exact h.exists_cons
  | member => exact ⟨_, _, rfl, by decide⟩

theorem Parts.exists_cons (h : Parts k s rest) : ∃ c t, s = c :: t ∧ IsStart c := by
  cases h with
  | last h => exact h.exists_cons
  | more h => exact h.exists_cons

theorem Space.skipKey_eq (h : Space s t) : skipKey s = skipKey t := by
  rw [skipKey, skipKey, h.skipSpace_eq]

theorem skipKey_eq {u : Text} (hkey : AnyString s t) (ht : Space t (':' :: u)) :
    skipKey ('"' :: s) = .ok ((), u) := by
  rw [skipKey, skipSpace_cons (by decide)]
  simp only [if_true, hkey.skipString_eq]
  rw [readColon, ht.skipSpace_eq_cons]
  exact if_pos rfl

/-- Where an opening character decides what kind of value there is, it is no opening bracket. -/
theorem ne_opening (hc : c ≠ '[' ∧ c ≠ '{') (k : Container) : c ≠ k.opening := by
  cases k
  · exact hc.1
  · exact hc.2

mutual
/-- Any value is passed over, and nothing behind it. -/
theorem Value.skipValue_eq : ∀ {s rest : Text}, Value s rest → Stops rest →
    ∀ ks, skipValue ks s = skipBehind ks rest
  | _, rest, .word hw, _, ks => by
    have hscalar := skipScalar_word hw rest
    rcases eq_of_mem_words hw with rfl | rfl | rfl
    · exact skipValue_scalar (by decide) (ne_opening (by decide)) hscalar ks
    · exact skipValue_scalar (by decide) (ne_opening (by decide)) hscalar ks
    · exact skipValue_scalar (by decide) (ne_opening (by decide)) hscalar ks
  | _, _, .positive h, hrest, ks => by
    have hnumber := h.skipNumber_eq hrest
    obtain ⟨c, t, rfl, hc⟩ := h.exists_cons
    rw [← skipScalar_digit hc] at hnumber
    have hopening := ne_opening ⟨ne_of_class hc (by decide), ne_of_class hc (by decide)⟩
    exact skipValue_scalar (isStart_of_isDigit hc).1 hopening hnumber ks
  | _, rest, .negative (s := s) h, hrest, ks => by
    have hscalar : skipScalar ('-' :: s) = .ok ((), rest) := h.skipNumber_eq hrest
    exact skipValue_scalar (by decide) (ne_opening (by decide)) hscalar ks
  | _, rest, .string (s := s) h, _, ks => by
    have hscalar : skipScalar ('"' :: s) = .ok ((), rest) := h.skipString_eq
    exact skipValue_scalar (by decide) (ne_opening (by decide)) hscalar ks
  | _, _, .empty k h, _, ks => by rw [skipValue_opening, skipOpened_closing h]
  | _, _, .filled k hs h, hrest, ks => by
    obtain ⟨t, hpart, hvalue⟩ := h.skip_eq hrest ks
    obtain ⟨c, u, rfl, hc⟩ := h.exists_cons
    rw [skipValue_opening, skipOpened_part hs hc hpart, hvalue]
theorem Parts.skip_eq : ∀ {k : Container} {s rest : Text}, Parts k s rest → Stops rest →
    ∀ ks, ∃ t, skipPartStart k s = .ok ((), t) ∧ skipValue (k :: ks) t = skipBehind ks rest
  | _, _, _, .last h ht, _, ks => by
    obtain ⟨t, hpart, hvalue⟩ := h.skip_eq ht.stops_closing ks
    exact ⟨t, hpart, by rw [hvalue, skipBehind_closing ht]⟩
  | k, _, _, .more h ht hu hmore, hrest, ks => by
    obtain ⟨t, hpart, hvalue⟩ := h.skip_eq ht.stops_comma ks
    obtain ⟨w, hmorepart, hmorevalue⟩ := hmore.skip_eq hrest ks
    refine ⟨t, hpart, ?_⟩
    rw [hvalue]
    cases k with
    | list =>
      cases hmorepart
      rw [skipBehind_comma ht rfl, hu.skipValue_eq, hmorevalue]
    | object =>
      have hkey : skipPartStart .object _ = .ok ((), w) := hu.skipKey_eq.trans hmorepart
      rw [skipBehind_comma ht hkey, hmorevalue]
theorem Part.skip_eq : ∀ {k : Container} {s rest : Text}, Part k s rest → Stops rest →
    ∀ ks, ∃ t, skipPartStart k s = .ok ((), t) ∧
      skipValue (k :: ks) t = skipBehind (k :: ks) rest
  | _, s, _, .element h, hrest, ks => ⟨s, rfl, h.skipValue_eq hrest (.list :: ks)⟩
  | _, _, _, .member hkey ht hu h, hrest, ks => by
    refine ⟨_, skipKey_eq hkey ht, ?_⟩
    rw [hu.skipValue_eq, h.skipValue_eq hrest]
end

end MenuPages.Json
