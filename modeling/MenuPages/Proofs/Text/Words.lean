import Mathlib.Data.List.Infix
import MenuPages.Text.Basic

/-!
# Words in a text

What the searches of a text find, said without the searches: a text `Has` a word if the word stands
somewhere in it, ASCII letters in any case. The search fails if and only if the text does not have
the word (`breakAt?_eq_none_iff`), and in front of what it finds there is no such word
(`not_has_of_breakAt?`).

**Finding a word that was written** (`breakAt?_append`) needs more: the word must not be found too
early, partly in what stands before it. That cannot be if no end of the word is a start of it
(`Unbordered`), as with all tags, in which `<` comes once, and with the end of a comment, in which
`>` comes once.
-/

namespace MenuPages.Text

/-! ## Small letters -/

/-- A text with its ASCII letters in small. -/
def small (s : Text) : Text := s.map Char.toLower

@[simp] theorem small_nil : small [] = [] := rfl

@[simp] theorem small_cons (c : Char) (s : Text) : small (c :: s) = c.toLower :: small s := rfl

@[simp] theorem small_append (s t : Text) : small (s ++ t) = small s ++ small t := List.map_append

theorem sameLetter_iff {a b : Char} : sameLetter a b = true ↔ a.toLower = b.toLower := beq_iff_eq

/-- The code of a small letter is that of the capital letter and 32 more. -/
theorem toNat_toLower (c : Char) :
    c.toLower.toNat = if 65 ≤ c.toNat ∧ c.toNat ≤ 90 then c.toNat + 32 else c.toNat := by
  have hcapital : (c.val ≥ 'A'.val ∧ c.val ≤ 'Z'.val) ↔ 65 ≤ c.toNat ∧ c.toNat ≤ 90 :=
    and_congr UInt32.le_iff_toNat_le UInt32.le_iff_toNat_le
  delta Char.toLower
  split
  next h =>
    rw [if_pos (hcapital.1 h)]
    have hsum : (c.val + 32).toNat = (c.toNat + 32) % 2 ^ 32 := UInt32.toNat_add c.val 32
    have hle := (hcapital.1 h).2
    exact hsum.trans (Nat.mod_eq_of_lt (by omega))
  next h => rw [if_neg fun hc => h (hcapital.2 hc)]

theorem isUpper_iff {c : Char} : c.isUpper = true ↔ 65 ≤ c.toNat ∧ c.toNat ≤ 90 := by
  delta Char.isUpper
  rw [decide_eq_true_iff]
  exact and_congr UInt32.le_iff_toNat_le UInt32.le_iff_toNat_le

theorem isLower_iff {c : Char} : c.isLower = true ↔ 97 ≤ c.toNat ∧ c.toNat ≤ 122 := by
  delta Char.isLower
  rw [Bool.and_eq_true, decide_eq_true_iff, decide_eq_true_iff]
  exact and_congr UInt32.le_iff_toNat_le UInt32.le_iff_toNat_le

theorem isDigit_iff {c : Char} : c.isDigit = true ↔ 48 ≤ c.toNat ∧ c.toNat ≤ 57 := by
  delta Char.isDigit
  rw [Bool.and_eq_true, decide_eq_true_iff, decide_eq_true_iff]
  exact and_congr UInt32.le_iff_toNat_le UInt32.le_iff_toNat_le

/-- A character of a class is none of those that are not. -/
theorem ne_of_class {p : Char → Bool} {c d : Char} (hc : p c = true) (hd : p d = false) :
    c ≠ d := by
  rintro rfl
  rw [hc] at hd
  cases hd

/-- What is no letter is the same as nothing but itself. -/
theorem eq_of_sameLetter {a b : Char} (ha : a.isAlpha = false) (h : sameLetter a b = true) :
    b = a := by
  obtain ⟨hnotUpper, hnotLower⟩ := Bool.or_eq_false_iff.1 ha
  have hupper := mt isUpper_iff.2 (Bool.eq_false_iff.1 hnotUpper)
  have hlower := mt isLower_iff.2 (Bool.eq_false_iff.1 hnotLower)
  have hcode := congrArg Char.toNat (sameLetter_iff.1 h)
  rw [toNat_toLower, toNat_toLower, if_neg hupper] at hcode
  apply Char.toNat_inj.1
  split at hcode
  · omega
  · exact hcode.symm

/-- A small letter is not a capital one. -/
theorem isUpper_toLower (c : Char) : c.toLower.isUpper = false := by
  rw [Bool.eq_false_iff, Ne, isUpper_iff, toNat_toLower]
  split <;> omega

/-- Only capital letters have a small one that is another character. -/
theorem toLower_eq_self {c : Char} (h : c.isUpper = false) : c.toLower = c := by
  rw [Bool.eq_false_iff, Ne, isUpper_iff] at h
  exact Char.toNat_inj.1 (by rw [toNat_toLower, if_neg h])

theorem small_eq_self {s : Text} (h : ∀ c ∈ s, c.isUpper = false) : small s = s := by
  induction s with
  | nil => rfl
  | cons c s ih =>
    rw [small_cons, toLower_eq_self (h c List.mem_cons_self),
      ih fun d hd => h d (List.mem_cons_of_mem c hd)]

/-! ## Cuts -/

section Cuts

variable {p : Char → Bool} {a : Text} {c : Char}

/-- What is taken ends before the first character that is not of the class. -/
theorem takeWhile_append_cons (ha : ∀ d ∈ a, p d = true) (hc : p c = false) (s : Text) :
    (a ++ c :: s).takeWhile p = a := by
  rw [List.takeWhile_append_of_pos ha, List.takeWhile_cons_of_neg (by simp [hc]), List.append_nil]

/-- What is left starts with the first character that is not of the class. -/
theorem dropWhile_append_cons (ha : ∀ d ∈ a, p d = true) (hc : p c = false) (s : Text) :
    (a ++ c :: s).dropWhile p = c :: s := by
  rw [List.dropWhile_append_of_pos ha, List.dropWhile_cons_of_neg (by simp [hc])]

end Cuts

/-! ## Words at the front -/

/-- A word is read off the front of a text that starts with it, in any case. -/
theorem afterWord?_eq_some_iff {word s rest : Text} :
    afterWord? word s = some rest ↔ ∃ w, s = w ++ rest ∧ small w = small word := by
  induction word generalizing s with
  | nil =>
    constructor
    · rintro ⟨⟩
      exact ⟨[], rfl, rfl⟩
    · rintro ⟨w, rfl, hw⟩
      rw [List.map_eq_nil_iff.1 hw]
      rfl
  | cons d word ih =>
    cases s with
    | nil =>
      constructor
      · rintro ⟨⟩
      · rintro ⟨w, hnil, hw⟩
        rw [(List.append_eq_nil_iff.1 hnil.symm).1] at hw
        cases hw
    | cons c s =>
      rw [afterWord?]
      constructor
      · intro h
        split at h
        next hsame =>
          obtain ⟨w, rfl, hw⟩ := ih.1 h
          exact ⟨c :: w, rfl, by rw [small_cons, small_cons, hw, sameLetter_iff.1 hsame]⟩
        next => cases h
      · rintro ⟨w, hs, hw⟩
        cases w with
        | nil => cases hw
        | cons b w =>
          obtain ⟨rfl, rfl⟩ := List.cons.inj hs
          obtain ⟨hhead, htail⟩ := List.cons.inj hw
          rw [if_pos (sameLetter_iff.2 hhead.symm)]
          exact ih.2 ⟨w, rfl, htail⟩

theorem afterWord?_append {w word : Text} (h : small w = small word) (rest : Text) :
    afterWord? word (w ++ rest) = some rest := afterWord?_eq_some_iff.2 ⟨w, rfl, h⟩

theorem suffix_of_afterWord? {word s rest : Text} (h : afterWord? word s = some rest) :
    rest <:+ s := by
  obtain ⟨w, rfl, -⟩ := afterWord?_eq_some_iff.1 h
  exact List.suffix_append w rest

/-- A word is read in two parts. -/
theorem afterWord?_append_word (a b s : Text) :
    afterWord? (a ++ b) s = (afterWord? a s).bind (afterWord? b) := by
  induction a generalizing s with
  | nil => rfl
  | cons d a ih =>
    cases s with
    | nil => rfl
    | cons c s =>
      rw [List.cons_append, afterWord?, afterWord?, ih]
      split <;> rfl

/-- A text does not start with a word if and only if the word is not read off it. -/
theorem afterWord?_eq_none_iff {word s : Text} :
    afterWord? word s = none ↔ ¬ small word <+: small s := by
  constructor
  · rintro h ⟨rest, hrest⟩
    obtain ⟨w, t, rfl, hw, -⟩ := List.map_eq_append_iff.1 hrest.symm
    rw [afterWord?_append hw] at h
    cases h
  · intro h
    cases hw : afterWord? word s with
    | none => rfl
    | some rest =>
      obtain ⟨w, rfl, hsame⟩ := afterWord?_eq_some_iff.1 hw
      exact absurd ⟨small rest, by rw [small_append, hsame]⟩ h

/-! ## Words anywhere -/

/-- The word stands somewhere in the text, ASCII letters in any case. -/
def Has (word s : Text) : Prop := small word <:+: small s

theorem has_cons_iff {word s : Text} {c : Char} :
    Has word (c :: s) ↔ small word <+: small (c :: s) ∨ Has word s := List.infix_cons_iff

theorem suffix_of_breakAt? {word s : Text} {parts : Text × Text}
    (h : breakAt? word s = some parts) : parts.2 <:+ s := by
  obtain ⟨before, behind⟩ := parts
  obtain ⟨found, rfl, hafter⟩ := breakAt?_eq_some h
  exact (suffix_of_afterWord? hafter).trans (List.suffix_append before found)

/-- A word is not found in a text if and only if the text does not have it. -/
theorem breakAt?_eq_none_iff {word s : Text} : breakAt? word s = none ↔ ¬ Has word s := by
  induction s with
  | nil =>
    rw [breakAt?, Option.map_eq_none_iff, afterWord?_eq_none_iff]
    exact not_congr (List.prefix_nil.trans List.infix_nil.symm)
  | cons c s ih =>
    rw [breakAt?, has_cons_iff, not_or, ← ih, ← afterWord?_eq_none_iff]
    cases afterWord? word (c :: s) <;> simp

/-- What stands before the word that is found does not have the word. -/
theorem not_has_of_breakAt? {word s before behind : Text} (hword : word ≠ [])
    (h : breakAt? word s = some (before, behind)) : ¬ Has word before := by
  have hnil : ¬ Has word [] := fun hhas => hword (List.map_eq_nil_iff.1 (List.infix_nil.1 hhas))
  induction s generalizing before with
  | nil =>
    obtain ⟨_, _, heq⟩ := Option.map_eq_some_iff.1 h
    cases heq
    exact hnil
  | cons c s ih =>
    rw [breakAt?] at h
    split at h
    next => cases h; exact hnil
    next hw =>
      obtain ⟨⟨a, z⟩, hparts, heq⟩ := Option.map_eq_some_iff.1 h
      cases heq
      obtain ⟨found, rfl, -⟩ := breakAt?_eq_some hparts
      rw [has_cons_iff, not_or]
      refine ⟨fun hprefix => afterWord?_eq_none_iff.1 hw ?_, ih hparts⟩
      rw [← List.cons_append, small_append]
      exact hprefix.trans (List.prefix_append _ _)

/-! ## Words that do not overlap themselves -/

/-- No part of a word but the word itself is both its start and its end. -/
def Unbordered (word : Text) : Prop := ∀ part, part ≠ [] → part <+: word → part <:+ word → part = word

/-- A word whose first letter does not come again. -/
theorem unbordered_cons {d : Char} {s : Text} (h : d ∉ s) : Unbordered (d :: s) := by
  intro part hne hstart hend
  cases part with
  | nil => exact absurd rfl hne
  | cons e part =>
    obtain ⟨rfl, -⟩ := List.cons_prefix_cons.1 hstart
    rcases List.suffix_cons_iff.1 hend with hwhole | hlater
    · exact hwhole
    · exact absurd (hlater.subset List.mem_cons_self) h

/-- A word whose last letter does not come before. -/
theorem unbordered_concat {d : Char} {s : Text} (h : d ∉ s) : Unbordered (s ++ [d]) := by
  intro part hne hstart hend
  rcases List.prefix_concat_iff.1 hstart with hwhole | hearlier
  · exact hwhole
  · obtain ⟨front, hfront⟩ := hend
    rcases List.eq_nil_or_concat part with rfl | ⟨init, e, rfl⟩
    · exact absurd rfl hne
    · rw [List.concat_eq_append, ← List.append_assoc] at hfront
      obtain ⟨-, hlast⟩ := List.append_inj' hfront rfl
      rw [List.concat_eq_append] at hearlier
      have hmem : e ∈ s := hearlier.subset (List.mem_append_right _ List.mem_cons_self)
      rw [(List.cons.inj hlast).1] at hmem
      exact absurd hmem h

/-- Such a word does not start in a text that does not have it and end behind that text. -/
theorem not_prefix_append {word a behind : Text} (hword : Unbordered (small word)) (ha : a ≠ [])
    (hnot : ¬ Has word a) : ¬ small word <+: small a ++ (small word ++ behind) := by
  rintro ⟨rest, hrest⟩
  rcases List.append_eq_append_iff.1 hrest with ⟨more, hmore, -⟩ | ⟨more, hmore, hbehind⟩
  · exact hnot ⟨[], more, by rw [List.nil_append, ← hmore]⟩
  · -- the end of the word would be its start
    have hlength : more.length < (small word).length := by
      have hpos : 0 < (small a).length := by
        rw [small, List.length_map]
        exact List.length_pos_of_ne_nil ha
      rw [hmore, List.length_append]
      omega
    have hstart : more <+: small word :=
      List.prefix_of_prefix_length_le ⟨rest, hbehind.symm⟩ (List.prefix_append _ _) hlength.le
    by_cases hnil : more = []
    · exact hnot (by rw [Has, hmore, hnil, List.append_nil])
    · have hwhole := hword more hnil hstart ⟨small a, hmore.symm⟩
      rw [hwhole] at hlength
      exact absurd hlength (lt_irrefl _)

theorem breakAt?_of_afterWord? {word s rest : Text} (h : afterWord? word s = some rest) :
    breakAt? word s = some ([], rest) := by
  cases s <;> rw [breakAt?, h]
  rfl

/-- **A word that was written is found**, if what stands before it does not have it and it does not
overlap itself. -/
theorem breakAt?_append {word a w : Text} (hword : Unbordered (small word)) (hnot : ¬ Has word a)
    (hw : small w = small word) (behind : Text) :
    breakAt? word (a ++ (w ++ behind)) = some (a, behind) := by
  induction a with
  | nil => exact breakAt?_of_afterWord? (afterWord?_append hw behind)
  | cons c a ih =>
    have hread : afterWord? word (c :: (a ++ (w ++ behind))) = none := by
      rw [afterWord?_eq_none_iff, ← List.cons_append, small_append, small_append, hw]
      exact not_prefix_append hword (List.cons_ne_nil _ _) hnot
    rw [List.cons_append, breakAt?, hread]
    dsimp only
    rw [ih fun hhas => hnot (has_cons_iff.2 (Or.inr hhas))]
    rfl

end MenuPages.Text
