import Mathlib.Logic.Relation
import MenuPages.Proofs.Head.Cuts

/-!
# Where the scan faults

The scan by cuts as a whole: turn by turn it passes over plain space and comments, reads an element
or goes on at the next `<` (`turn`), and keeps what it found.

**The law** (`scan_faults_iff`): it finds the elements that `Head.elements` finds, and faults in one
place only. What a turn does is what a step of `Head.found` does (`found_eq_step`, `turn_eq`), and
so the scan faults if and only if it comes to a rest at which a turn does (`found_eq_error_iff`).
Whatever it comes to is an end of the text that it started from (`suffix_of_reaches`), so it comes
to no character that is not in the text.
-/

namespace MenuPages

open Text Text.Reading

/-- The fault of the cut at which a scan gives up. -/
def ScanFault.cut : ScanFault → CutFault
  | .cutInsideCharacter => .insideCharacter

namespace Head

/-! ## What is left of a text -/

theorem suffix_of_afterComment? {s rest : Text} (h : afterComment? s = some rest) : rest <:+ s := by
  obtain ⟨inside, hword, rfl⟩ := Option.map_eq_some_iff.1 h
  split
  · next parts hbreak => exact (suffix_of_breakAt? hbreak).trans (suffix_of_afterWord? hword)
  · exact List.nil_suffix

theorem skipGap_suffix (s : Text) : skipGap s <:+ s := by
  fun_induction skipGap s with
  | case1 s rest h ih => exact ih.trans (suffix_of_afterComment? h)
  | case2 => exact List.suffix_rfl
  | case3 c s _ _ ih => exact ih.trans (List.suffix_cons c s)
  | case4 => exact List.suffix_rfl

theorem suffix_of_quotedValue? {quote : Char} {s : Text} {found : Text × Text}
    (h : quotedValue? quote s = some found) : found.2 <:+ s := by
  cases s with
  | nil => cases h
  | cons c s =>
    rw [quotedValue?] at h
    split at h
    · split at h
      · cases h
      · next d rest hdrop =>
        cases h
        have hrest : d :: rest <:+ s := hdrop ▸ List.dropWhile_suffix _
        exact (List.suffix_cons d rest).trans (hrest.trans (List.suffix_cons c s))
    · cases h

theorem suffix_of_attributeValue? {s : Text} {found : Text × Text}
    (h : attributeValue? s = some found) : found.2 <:+ s := by
  rcases Option.or_eq_some_iff.1 h with h | ⟨-, h⟩
  · exact suffix_of_quotedValue? h
  · rcases Option.or_eq_some_iff.1 h with h | ⟨-, h⟩
    · exact suffix_of_quotedValue? h
    · rw [bareValue?] at h
      split at h
      · cases h
      · cases h
        exact List.dropWhile_suffix _

theorem suffix_of_assignedValue? {s : Text} {found : Text × Text}
    (h : assignedValue? s = some found) : found.2 <:+ s := by
  rw [assignedValue?] at h
  split at h
  · next rest hdrop =>
    have hrest : '=' :: rest <:+ s := hdrop ▸ List.dropWhile_suffix _
    exact (suffix_of_attributeValue? h).trans
      ((List.dropWhile_suffix _).trans ((List.suffix_cons '=' rest).trans hrest))
  · cases h

theorem suffix_of_attribute? {s rest : Text} {a : Attribute} (h : attribute? s = some (a, rest)) :
    rest <:+ s := by
  rw [attribute?] at h
  split at h
  · cases h
  · have hbehind : s.dropWhile isAttributeNameChar <:+ s := List.dropWhile_suffix _
    obtain ⟨-, rfl⟩ := Prod.mk.inj (Option.some.inj h)
    cases hvalue : assignedValue? (s.dropWhile isAttributeNameChar) with
    | none => exact hbehind
    | some found => exact (suffix_of_assignedValue? hvalue).trans hbehind

theorem attributes_suffix (s : Text) : (attributes s).2 <:+ s := by
  fun_induction attributes s with
  | case1 s => exact List.dropWhile_suffix _
  | case2 s a rest h _ ih =>
    exact ih.trans ((suffix_of_attribute? h).trans (List.dropWhile_suffix _))

theorem suffix_of_startTag? {name s : Text} {found : List Attribute × Text}
    (h : startTag? name s = some found) : found.2 <:+ s := by
  rw [startTag?] at h
  split at h
  · next c rest hword =>
    split at h
    · split at h
      · next behind hattributes =>
        cases h
        have hend := hattributes ▸ attributes_suffix (c :: rest)
        exact (List.suffix_cons '>' behind).trans (hend.trans (suffix_of_afterWord? hword))
      · cases h
    · cases h
  · cases h

theorem rawText_suffix (name s : Text) : (rawText name s).2 <:+ s := by
  rw [rawText]
  split
  · next parts h =>
    exact (List.drop_suffix 1 _).trans ((List.dropWhile_suffix _).trans (suffix_of_breakAt? h))
  · exact List.nil_suffix

theorem suffix_of_element? {s : Text} {found : Option HeadElement × Text}
    (h : element? s = some found) : found.2 <:+ s := by
  rw [element?] at h
  split at h
  · next as inside hstyle =>
    cases h
    exact (rawText_suffix _ inside).trans (suffix_of_startTag? hstyle)
  · split at h
    · next as behind hlink =>
      cases h
      exact suffix_of_startTag? hlink
    · obtain ⟨name, -, hname⟩ := List.exists_of_findSome?_eq_some h
      obtain ⟨tag, htag, rfl⟩ := Option.map_eq_some_iff.1 hname
      exact (rawText_suffix name tag.2).trans (suffix_of_startTag? htag)

/-! ## Turns -/

/-- What is found where the scan stands, and where it goes on: behind what was found, or else at the
next `<`. -/
def step (s : Text) : Option HeadElement × Text :=
  (element? s).getD (none, (s.drop 1).dropWhile (· != '<'))

theorem step_suffix (s : Text) : (step s).2 <:+ s := by
  rw [step]
  cases h : element? s with
  | some found => exact suffix_of_element? h
  | none => exact (List.dropWhile_suffix _).trans (List.drop_suffix 1 s)

theorem length_step_lt {s : Text} (hne : s ≠ []) : (step s).2.length < s.length := by
  rw [step]
  cases h : element? s with
  | some found => exact length_of_element? h
  | none =>
    have hle := length_dropWhile_le (· != '<') (s.drop 1)
    have hpos := List.length_pos_of_ne_nil hne
    rw [List.length_drop] at hle
    exact Nat.lt_of_le_of_lt hle (by omega)

theorem found_eq_step (s : Text) :
    found s =
      if cutsCharacter (skipGap s) then .error .cutInsideCharacter
      else (found (step (skipGap s)).2).map ((step (skipGap s)).1.toList ++ ·) := by
  rw [found_eq]
  cases skipGap s with
  | nil =>
    rw [if_neg (by decide)]
    exact (congrArg (Except.map ([] ++ ·)) found_nil).symm
  | cons c rest =>
    simp only [step]
    split
    · rfl
    · cases element? (c :: rest) with
      | none => exact (map_nil_append _).symm
      | some read =>
        obtain ⟨e, behind⟩ := read
        cases e with
        | none => exact (map_nil_append _).symm
        | some e => rfl

/-- The offset of the next `<` behind the first character, or else of the end. -/
def nextTagOffset : Text → Nat
  | [] => 0
  | c :: s => c.utf8Size + offsetBehind (· != '<') s

theorem cutAt_nextTagOffset (s : Text) :
    ∃ passed, cutAt (nextTagOffset s) s = .ok (passed, (s.drop 1).dropWhile (· != '<')) := by
  cases s with
  | nil => exact ⟨[], rfl⟩
  | cons c s =>
    have hcut : cutAt (offsetBehind (· != '<') s) s = .ok _ := readMany_eq (· != '<') s
    rw [nextTagOffset, cutAt_cons, hcut]
    exact ⟨_, rfl⟩

/-- One turn of the scan by cuts: it passes over a gap, and reads an element or goes on at the next
`<`. -/
def turn (s : Text) : Except CutFault (Option HeadElement × Text) := do
  let s ← readGap s
  match ← (readElement s).run with
  | some found => return found
  | none =>
    let (_, rest) ← cutAt (nextTagOffset s) s
    return (none, rest)

/-- **A turn does what the scan does**, and faults where the scan gives up. -/
theorem turn_eq (s : Text) :
    turn s =
      if cutsCharacter (skipGap s) then .error .insideCharacter else .ok (step (skipGap s)) := by
  rw [turn, readGap_eq, ok_bind, readElement_eq, step]
  split
  · rfl
  · obtain ⟨passed, hcut⟩ := cutAt_nextTagOffset (skipGap s)
    cases element? (skipGap s) with
    | some found => rfl
    | none =>
      show (cutAt (nextTagOffset (skipGap s)) (skipGap s) >>= _) = _
      rw [hcut]
      rfl

theorem eq_step_of_turn {s : Text} {found : Option HeadElement × Text} (h : turn s = .ok found) :
    cutsCharacter (skipGap s) = false ∧ found = step (skipGap s) := by
  rw [turn_eq] at h
  split at h
  · cases h
  · next hcuts => exact ⟨Bool.not_eq_true _ ▸ hcuts, (Except.ok.inj h).symm⟩

theorem found_of_turn {s rest : Text} {e : Option HeadElement} (h : turn s = .ok (e, rest)) :
    found s = (found rest).map (e.toList ++ ·) := by
  obtain ⟨hcuts, hstep⟩ := eq_step_of_turn h
  rw [found_eq_step, hcuts, ← hstep]
  rfl

/-- A turn takes something of a text. -/
theorem length_of_turn {s : Text} {found : Option HeadElement × Text} (hne : s ≠ [])
    (h : turn s = .ok found) : found.2.length < s.length := by
  rw [(eq_step_of_turn h).2]
  by_cases hgap : skipGap s = []
  · rw [hgap]
    exact List.length_pos_of_ne_nil hne
  · exact Nat.lt_of_lt_of_le (length_step_lt hgap) (length_skipGap_le s)

/-! ## The scan -/

/-- Scans what is left of a text, turn by turn, with the `style` and `link` elements that were found
before. -/
def scanFrom (styles links : List HeadElement) (s : Text) : Except CutFault (List HeadElement) :=
  if _hne : s = [] then .ok (styles ++ links)
  else
    match _h : turn s with
    | .error f => .error f
    | .ok (none, rest) => scanFrom styles links rest
    | .ok (some e, rest) =>
      if e.tag = .style then scanFrom (styles ++ [e]) links rest
      else scanFrom styles (links ++ [e]) rest
termination_by s.length
decreasing_by all_goals exact length_of_turn _hne _h

/-- The `style` elements of a text and then its `link` elements, found by cuts. -/
def scan (s : Text) : Except CutFault (List HeadElement) := scanFrom [] [] s

theorem scanFrom_eq (styles links : List HeadElement) (s : Text) :
    scanFrom styles links s =
      ((found s).mapError ScanFault.cut).map fun es =>
        (styles ++ es.filter (·.tag = .style)) ++ (links ++ es.filter (·.tag = .link)) := by
  fun_induction scanFrom styles links s with
  | case1 styles links =>
    rw [found_nil]
    simp [Except.mapError, Except.map]
  | case2 styles links s _ f h =>
    rw [turn_eq] at h
    split at h
    · next hcuts =>
      rw [found_eq_step, if_pos hcuts, ← Except.error.inj h]
      rfl
    · cases h
  | case3 styles links s _ rest h ih =>
    rw [ih, found_of_turn h]
    cases found rest <;> rfl
  | case4 styles links s _ e rest h htag ih =>
    rw [ih, found_of_turn h]
    cases found rest with
    | error f => rfl
    | ok es => simp [Except.mapError, Except.map, htag]
  | case5 styles links s _ e rest h htag ih =>
    have hlink : e.tag = .link := by
      cases hcase : e.tag with
      | style => exact absurd hcase htag
      | link => rfl
    rw [ih, found_of_turn h]
    cases found rest with
    | error f => rfl
    | ok es => simp [Except.mapError, Except.map, hlink]

/-- **The scan by cuts finds the same elements**, and faults where the scan gives up. -/
theorem scan_eq (s : Text) : scan s = (elements s).mapError ScanFault.cut := by
  rw [scan, scanFrom_eq, elements]
  cases found s <;> rfl

/-! ## Where it faults -/

/-- A turn of the scan leaves a rest. -/
def Leaves (s rest : Text) : Prop := s ≠ [] ∧ ∃ e, turn s = .ok (e, rest)

/-- The scan of a text comes to a rest of it. -/
def Reaches : Text → Text → Prop := Relation.ReflTransGen Leaves

theorem suffix_of_reaches {s rest : Text} (h : Reaches s rest) : rest <:+ s := by
  induction h with
  | refl => exact List.suffix_rfl
  | tail _ hleaves ih =>
    obtain ⟨-, e, hturn⟩ := hleaves
    have hrest := congrArg Prod.snd (eq_step_of_turn hturn).2
    exact ((hrest ▸ step_suffix _).trans (skipGap_suffix _)).trans ih

/-- The scan gives up if and only if it comes to a rest at which it does. -/
theorem found_eq_error_iff (s : Text) :
    found s = .error .cutInsideCharacter ↔
      ∃ rest, Reaches s rest ∧ cutsCharacter (skipGap rest) = true := by
  constructor
  · intro h
    induction hlen : s.length using Nat.strong_induction_on generalizing s with
    | _ n ih =>
      subst hlen
      cases hcuts : cutsCharacter (skipGap s) with
      | true => exact ⟨s, .refl, hcuts⟩
      | false =>
        have hne : s ≠ [] := by
          rintro rfl
          rw [found_nil] at h
          cases h
        obtain ⟨e, next, hturn⟩ : ∃ e next, turn s = .ok (e, next) := by
          rw [turn_eq, hcuts]
          exact ⟨_, _, rfl⟩
        have hnext : found next = .error .cutInsideCharacter := by
          rw [found_of_turn hturn] at h
          cases hfound : found next with
          | error f => rfl
          | ok es =>
            rw [hfound] at h
            cases h
        obtain ⟨rest, hreach, hstuck⟩ := ih _ (length_of_turn hne hturn) next hnext rfl
        exact ⟨rest, .head ⟨hne, e, hturn⟩ hreach, hstuck⟩
  · rintro ⟨rest, hreach, hcuts⟩
    induction hreach using Relation.ReflTransGen.head_induction_on with
    | refl => rw [found_eq_step, if_pos hcuts]
    | head hleaves _ ih =>
      obtain ⟨-, e, hturn⟩ := hleaves
      rw [found_of_turn hturn, ih]
      rfl

/-- That is where behind plain space and comments a `<` stands, the letters `l`, `i` and `n` in any
case, and the Kelvin sign. -/
theorem elements_eq_error_iff (s : Text) :
    (∃ f, elements s = .error f) ↔
      ∃ rest w behind, Reaches s rest ∧ readGap rest = .ok (w ++ '\u212a' :: behind) ∧
        small w = "<lin".toList := by
  have hfound : (∃ f, elements s = .error f) ↔ found s = .error .cutInsideCharacter := by
    rw [elements]
    cases found s with
    | error f => exact iff_of_true ⟨f, rfl⟩ rfl
    | ok es => simp [Except.map]
  rw [hfound, found_eq_error_iff]
  simp only [cutsCharacter_iff, readGap_eq, Except.ok.injEq]
  constructor
  · rintro ⟨rest, hreach, w, behind, hgap, hw⟩
    exact ⟨rest, w, behind, hreach, hgap, hw⟩
  · rintro ⟨rest, w, behind, hreach, hgap, hw⟩
    exact ⟨rest, hreach, w, behind, hgap, hw⟩

/-- A text without a Kelvin sign is scanned to its end. -/
theorem exists_elements_of_notMem {s : Text} (h : '\u212a' ∉ s) : ∃ es, elements s = .ok es := by
  cases helements : elements s with
  | ok es => exact ⟨es, rfl⟩
  | error f =>
    obtain ⟨rest, w, behind, hreach, hgap, -⟩ := (elements_eq_error_iff s).1 ⟨f, helements⟩
    have hsign : '\u212a' ∈ w ++ '\u212a' :: behind := List.mem_append_right w List.mem_cons_self
    rw [readGap_eq] at hgap
    rw [← Except.ok.inj hgap] at hsign
    exact absurd ((suffix_of_reaches hreach).mem ((skipGap_suffix rest).mem hsign)) h

/-- **The scan faults in one place only.** All its cuts are between two characters of the text, and
it finds the elements, unless it comes to a rest that goes on, behind plain space and comments, with
`<`, the letters `l`, `i` and `n` in any case, and the Kelvin sign. Then the cut is inside this
sign. So a text without a Kelvin sign is scanned to its end. -/
theorem scan_faults_iff (s : Text) :
    scan s = (elements s).mapError ScanFault.cut ∧
    ((∃ f, elements s = .error f) ↔
      ∃ rest w behind, Reaches s rest ∧ readGap rest = .ok (w ++ '\u212a' :: behind) ∧
        small w = "<lin".toList) ∧
    ('\u212a' ∉ s → ∃ es, elements s = .ok es) :=
  ⟨scan_eq s, elements_eq_error_iff s, exists_elements_of_notMem⟩

/-- A `link` tag behind a gap, with the Kelvin sign and with a `k`. -/
theorem scan_faults_iff_link :
    (∃ f, elements "<!-- -->\n<LIN\u212a>".toList = .error f) ∧
      '\u212a' ∉ "<!-- -->\n<LINK>".toList ∧
        ∃ es, elements "<!-- -->\n<LINK>".toList = .ok es := by
  have hnot : '\u212a' ∉ "<!-- -->\n<LINK>".toList := by decide
  refine ⟨(scan_faults_iff _).2.1.2 ⟨_, "<LIN".toList, ">".toList, .refl, ?_, ?_⟩, hnot,
    (scan_faults_iff _).2.2 hnot⟩
  · decide +kernel
  · decide

end Head

end MenuPages
