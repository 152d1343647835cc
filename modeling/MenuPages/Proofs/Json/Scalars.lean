import MenuPages.Proofs.Json.Grammar
import MenuPages.Proofs.Number.Digits

/-!
# Strings and numbers are read to their end

A string that stands for a text is read as that text, any string is passed over, and so is any
number, up to what is left in the grammar. A whole number of 64 bits that is written in digits is
read as that number.
-/

namespace MenuPages.Json

open Text

/-! ## Escapes -/

theorem IsHex.hexValue?_eq {c : Char} {v : Nat} (h : IsHex c v) : hexValue? c = some v := by
  have hlower : ∀ p ∈ "0123456789abcdef".toList.zipIdx, hexValue? p.1 = some p.2 := by decide
  have hupper : ∀ p ∈ "0123456789ABCDEF".toList.zipIdx, hexValue? p.1 = some p.2 := by decide
  rcases h with h | h
  · exact hlower (c, v) (List.mk_mem_zipIdx_iff_getElem?.mpr h)
  · exact hupper (c, v) (List.mk_mem_zipIdx_iff_getElem?.mpr h)

theorem FourHex.readFourHex_eq {n : Nat} {s rest : Text} (h : FourHex n s rest) :
    readFourHex s = .ok (n, rest) := by
  cases h with
  | digits ha hb hc hd =>
    rw [readFourHex, fourHex?, ha.hexValue?_eq, hb.hexValue?_eq, hc.hexValue?_eq, hd.hexValue?_eq]

theorem letterEscape?_eq {e c : Char} (h : (e, c) ∈ letterEscapes) : letterEscape? e = some c := by
  have hall : ∀ p ∈ letterEscapes, letterEscape? p.1 = some p.2 := by decide
  exact hall (e, c) h

theorem ne_u_of_mem_letterEscapes {e c : Char} (h : (e, c) ∈ letterEscapes) : e ≠ 'u' := by
  have hall : ∀ p ∈ letterEscapes, p.1 ≠ 'u' := by decide
  exact hall (e, c) h

/-- A character is no surrogate. -/
theorem not_surrogate (c : Char) :
    isTrailingSurrogate c.toNat = false ∧ isLeadingSurrogate c.toNat = false := by
  have hvalid : c.toNat < 0xD800 ∨ 0xDFFF < c.toNat := by
    rcases c.valid with h | h
    · exact Or.inl h
    · exact Or.inr h.1
  simp only [isTrailingSurrogate, isLeadingSurrogate, Bool.and_eq_false_iff,
    decide_eq_false_iff_not]
  omega

section

variable {e c : Char} {s t u : Text}

theorem readEscape_letter (h : (e, c) ∈ letterEscapes) (s : Text) :
    readEscape (e :: s) = .ok (c, s) := by
  rw [readEscape.eq_def]
  split
  · next heq => cases heq
  · next heq =>
    cases heq
    exact absurd rfl (ne_u_of_mem_letterEscapes h)
  · next heq =>
    cases heq
    rw [letterEscape?_eq h]

theorem skipEscape_letter (h : (e, c) ∈ letterEscapes) (s : Text) :
    skipEscape (e :: s) = .ok ((), s) := by
  rw [skipEscape.eq_def]
  split
  · next heq => cases heq
  · next heq =>
    cases heq
    exact absurd rfl (ne_u_of_mem_letterEscapes h)
  · next heq =>
    cases heq
    rw [letterEscape?_eq h]

theorem readEscape_unit (h : FourHex c.toNat s t) : readEscape ('u' :: s) = .ok (c, t) := by
  rw [readEscape, h.readFourHex_eq]
  simp [not_surrogate]

theorem skipEscape_unit {n : Nat} (h : FourHex n s t) : skipEscape ('u' :: s) = .ok ((), t) := by
  rw [skipEscape, h.readFourHex_eq]

theorem readEscape_pair (hc : 0x10000 ≤ c.toNat)
    (hlead : FourHex (0xD800 + (c.toNat - 0x10000) / 0x400) s ('\\' :: 'u' :: t))
    (htrail : FourHex (0xDC00 + (c.toNat - 0x10000) % 0x400) t u) :
    readEscape ('u' :: s) = .ok (c, u) := by
  have hlt : c.toNat < 0x110000 := by
    rcases c.valid with h | h
    · exact Nat.lt_trans h (by decide)
    · exact h.2
  have hpair : pairedCharacter (0xD800 + (c.toNat - 0x10000) / 0x400)
      (0xDC00 + (c.toNat - 0x10000) % 0x400) = c := by
    rw [pairedCharacter, Nat.add_sub_cancel_left, Nat.add_sub_cancel_left, Nat.div_add_mod',
      Nat.sub_add_cancel hc, Char.ofNat_toNat]
  have hleading : isTrailingSurrogate (0xD800 + (c.toNat - 0x10000) / 0x400) = false ∧
      isLeadingSurrogate (0xD800 + (c.toNat - 0x10000) / 0x400) = true := by
    simp only [isTrailingSurrogate, isLeadingSurrogate, Bool.and_eq_false_iff, Bool.and_eq_true,
      decide_eq_false_iff_not, decide_eq_true_eq]
    omega
  have htrailing : isTrailingSurrogate (0xDC00 + (c.toNat - 0x10000) % 0x400) = true := by
    simp only [isTrailingSurrogate, Bool.and_eq_true, decide_eq_true_eq]
    omega
  rw [readEscape, hlead.readFourHex_eq]
  simp only [hleading, readTrailing, htrail.readFourHex_eq, htrailing, hpair, if_true,
    Bool.false_eq_true, if_false]

end

/-! ## Strings -/

section

variable {c : Char} {v s t rest : Text}

theorem readString_plain (hc : IsPlain c) (h : readString s = .ok (v, rest)) :
    readString (c :: s) = .ok (c :: v, rest) := by
  have hcontrol : isStringControl c = false := by simp [isStringControl, hc.2.2]
  rw [readString, if_neg hc.1, if_neg hc.2.1, hcontrol, h]
  rfl

theorem readString_escape (he : readEscape s = .ok (c, t)) (h : readString t = .ok (v, rest)) :
    readString ('\\' :: s) = .ok (c :: v, rest) := by
  rw [readString, if_neg (by decide), if_pos rfl]
  split
  · next hr => simp [he] at hr
  · next hr =>
    rw [he] at hr
    cases hr
    rw [h]

/-- A string is read as the text that it stands for. -/
theorem Quoted.readString_eq (h : Quoted v s rest) : readString s = .ok (v, rest) := by
  induction h with
  | close =>
    rw [readString]
    rfl
  | plain hc _ ih => exact readString_plain hc ih
  | letter he _ ih => exact readString_escape (readEscape_letter he _) ih
  | unit hc _ ih => exact readString_escape (readEscape_unit hc) ih
  | pair hc hlead htrail _ ih => exact readString_escape (readEscape_pair hc hlead htrail) ih

theorem skipString_plain (hc : IsPlain c) (h : skipString s = .ok ((), rest)) :
    skipString (c :: s) = .ok ((), rest) := by
  have hcontrol : isStringControl c = false := by simp [isStringControl, hc.2.2]
  rw [skipString, if_neg hc.1, if_neg hc.2.1, hcontrol, h]
  rfl

theorem skipString_escape (he : skipEscape s = .ok ((), t)) (h : skipString t = .ok ((), rest)) :
    skipString ('\\' :: s) = .ok ((), rest) := by
  rw [skipString, if_neg (by decide), if_pos rfl]
  split
  · next hr => simp [he] at hr
  · next hr =>
    rw [he] at hr
    cases hr
    exact h

/-- Any string is passed over. -/
theorem AnyString.skipString_eq (h : AnyString s rest) : skipString s = .ok ((), rest) := by
  induction h with
  | close =>
    rw [skipString]
    rfl
  | plain hc _ ih => exact skipString_plain hc ih
  | letter he _ ih => exact skipString_escape (skipEscape_letter he _) ih
  | unit hn _ ih => exact skipString_escape (skipEscape_unit hn) ih

/-- A text without quotes, backslashes and control characters stands for itself. -/
theorem quoted_self (hv : ∀ c ∈ v, IsPlain c) (rest : Text) : Quoted v (v ++ '"' :: rest) rest := by
  induction v with
  | nil => exact .close rest
  | cons c v ih =>
    obtain ⟨hc, hv⟩ := List.forall_mem_cons.mp hv
    exact .plain hc (ih hv)

end

/-! ## What is behind a number -/

section

variable {s t u rest : Text}

/-- What stops a value does not go on with a number. -/
theorem Stops.not_number (h : Stops rest) (c : Char) (hc : rest.head? = some c) :
    c.isDigit = false ∧ c ≠ '.' ∧ c ≠ 'e' ∧ c ≠ 'E' := by
  rcases h c hc with hspace | rfl | rfl | rfl
  · rw [isPlainSpace] at hspace
    simp only [Bool.or_eq_true, beq_iff_eq] at hspace
    rcases hspace with ((rfl | rfl) | rfl) | rfl <;> decide
  all_goals decide

theorem Stops.startsWithDigit_eq (h : Stops rest) : startsWithDigit rest = false := by
  cases rest with
  | nil => rfl
  | cons c s => exact (h.not_number c rfl).1

theorem AnyDigits.afterDigits_eq (h : AnyDigits s t) (ht : startsWithDigit t = false) :
    afterDigits s = t := by
  induction h with
  | none s =>
    cases s with
    | nil => rfl
    | cons c s => exact List.dropWhile_cons_of_neg (by simpa [startsWithDigit] using ht)
  | digit hc _ ih => rw [afterDigits, List.dropWhile_cons_of_pos hc, ← afterDigits, ih ht]

theorem SomeDigits.afterDigits_eq (h : SomeDigits s t) (ht : startsWithDigit t = false) :
    afterDigits s = t := by
  cases h with
  | digits hc h =>
    rw [afterDigits, List.dropWhile_cons_of_pos hc, ← afterDigits, h.afterDigits_eq ht]

theorem SomeDigits.startsWithDigit_eq (h : SomeDigits s t) : startsWithDigit s = true := by
  cases h with
  | digits hc _ => exact hc

/-! ## Numbers that are passed over -/

theorem Exponent.startsWithDigit_eq (h : Exponent s rest) (hrest : Stops rest) :
    startsWithDigit s = false := by
  cases h with
  | none => exact hrest.startsWithDigit_eq
  | digits he => rcases he with rfl | rfl <;> rfl

theorem Fraction.startsWithDigit_eq (h : Fraction s t) (ht : startsWithDigit t = false) :
    startsWithDigit s = false := by
  cases h with
  | none => exact ht
  | digits => rfl

theorem skipExponentDigits_eq (h : SomeDigits s rest) (hrest : startsWithDigit rest = false) :
    skipExponentDigits s = .ok ((), rest) := by
  cases h with
  | digits hc h => rw [skipExponentDigits, if_pos hc, h.afterDigits_eq hrest]

theorem skipExponent_eq (hsign : ExponentSign s t) (h : SomeDigits t rest)
    (hrest : startsWithDigit rest = false) : skipExponent s = .ok ((), rest) := by
  have hdigits := skipExponentDigits_eq h hrest
  cases hsign with
  | plus => exact hdigits
  | minus => exact hdigits
  | none =>
    cases h with
    | digits hc _ =>
      rw [skipExponent.eq_def]
      split
      · next heq =>
        cases heq
        exact absurd hc (by decide)
      · next heq =>
        cases heq
        exact absurd hc (by decide)
      · exact hdigits

theorem Exponent.skipBehindDigits_eq (h : Exponent s rest) (hrest : Stops rest) :
    skipBehindDigits s = .ok ((), rest) := by
  cases h with
  | none =>
    rw [skipBehindDigits.eq_def]
    split
    · exact absurd rfl (hrest.not_number _ rfl).2.2.1
    · exact absurd rfl (hrest.not_number _ rfl).2.2.2
    · rfl
  | digits he hsign h =>
    have hexponent := skipExponent_eq hsign h hrest.startsWithDigit_eq
    rcases he with rfl | rfl
    · exact hexponent
    · exact hexponent

theorem Exponent.ne_point (h : Exponent s rest) (hrest : Stops rest) (t : Text) : s ≠ '.' :: t := by
  rintro rfl
  cases h with
  | none => exact (hrest.not_number _ rfl).2.1 rfl
  | digits he => rcases he with he | he <;> cases he

theorem skipBehindWhole_eq (hfraction : Fraction s t) (hexponent : Exponent t rest)
    (hrest : Stops rest) : skipBehindWhole s = .ok ((), rest) := by
  have hend := hexponent.skipBehindDigits_eq hrest
  cases hfraction with
  | none =>
    rw [skipBehindWhole.eq_def]
    split
    · exact absurd rfl (hexponent.ne_point hrest _)
    · exact hend
  | digits h =>
    rw [skipBehindWhole, if_pos h.startsWithDigit_eq,
      h.afterDigits_eq (hexponent.startsWithDigit_eq hrest), hend]

/-- Any number is passed over, whatever its digits. -/
theorem Magnitude.skipNumber_eq (h : Magnitude s rest) (hrest : Stops rest) :
    skipNumber s = .ok ((), rest) := by
  cases h with
  | parts hwhole hfraction hexponent =>
    have hend := skipBehindWhole_eq hfraction hexponent hrest
    have hdigit := hfraction.startsWithDigit_eq (hexponent.startsWithDigit_eq hrest)
    cases hwhole with
    | zero => rw [skipNumber, if_pos rfl, hdigit, if_neg Bool.false_ne_true, hend]
    | digits hc hzero h =>
      rw [skipNumber, if_neg hzero, if_pos hc, h.afterDigits_eq hdigit, hend]

end

/-! ## Whole numbers -/

/-- Digits are collected to the number that they write, if it is small enough. -/
theorem collect_eq {limit : Nat} (s : Text) {n : Nat} (h : Nat.ofDigitChars 10 s n < limit) :
    collect limit n s = (Nat.ofDigitChars 10 s n, []) := by
  induction s generalizing n with
  | nil => rfl
  | cons c s ih =>
    have hstep : 10 * n + (c.toNat - '0'.toNat) = n * 10 + digitValue c := by
      rw [Nat.mul_comm]
      rfl
    rw [Nat.ofDigitChars_cons, hstep] at h ⊢
    rw [collect, if_pos (Nat.lt_of_le_of_lt (Digits.le_ofDigitChars s _) h), ih h]

theorem digitsOf_append {s rest : Text} (hs : ∀ c ∈ s, c.isDigit)
    (hrest : startsWithDigit rest = false) : digitsOf (s ++ rest) = s := by
  rw [digitsOf, List.takeWhile_append_of_pos hs]
  cases rest with
  | nil => simp
  | cons c t =>
    have hc : ¬c.isDigit = true := by simpa [startsWithDigit] using hrest
    rw [List.takeWhile_cons_of_neg hc, List.append_nil]

theorem afterDigits_append {s rest : Text} (hs : ∀ c ∈ s, c.isDigit)
    (hrest : startsWithDigit rest = false) : afterDigits (s ++ rest) = rest := by
  rw [afterDigits, List.dropWhile_append_of_pos hs]
  exact (AnyDigits.none rest).afterDigits_eq hrest

theorem readBehindWhole_eq {rest : Text} (hrest : Stops rest) (negative : Bool) (n : Nat) :
    readBehindWhole negative n 0 rest = .ok (wholeNumeral negative n, rest) := by
  rw [readBehindWhole.eq_def]
  split
  · exact absurd rfl (hrest.not_number _ rfl).2.1
  · exact absurd rfl (hrest.not_number _ rfl).2.2.1
  · exact absurd rfl (hrest.not_number _ rfl).2.2.2
  · rfl

/-- The digits of a whole number of 64 bits are read as that number. -/
theorem readNumber_ofNat {rest : Text} (hrest : Stops rest) (negative : Bool) {n : Nat}
    (hn : n < UInt64.size) :
    readNumber negative (Digits.ofNat n ++ rest) =
      .ok (wholeNumeral negative n, rest) := by
  obtain ⟨c, s, hcs⟩ : ∃ c s, Digits.ofNat n = c :: s :=
    List.exists_cons_of_ne_nil Nat.toDigits_ne_nil
  have hdigits : ∀ d ∈ c :: s, d.isDigit := fun d hd => Digits.isDigit_of_mem_ofNat (hcs ▸ hd)
  have hread : Nat.ofDigitChars 10 (c :: s) 0 = n := by rw [← hcs, Digits.ofDigitChars_ofNat]
  rw [hcs, List.cons_append, readNumber]
  by_cases hzero : c = '0'
  · have hall : Digits.ofNat n = ['0'] :=
      Digits.ofNat_eq_of_head? (by rw [hcs, hzero]; rfl)
    obtain ⟨-, rfl⟩ := List.cons_eq_cons.mp (hcs.symm.trans hall)
    obtain rfl := Digits.eq_zero_of_ofNat hall
    rw [if_pos hzero, List.nil_append, hrest.startsWithDigit_eq, if_neg Bool.false_ne_true,
      readBehindWhole_eq hrest]
  · have hrun : digitsOf (c :: (s ++ rest)) = c :: s := by
      rw [← List.cons_append, digitsOf_append hdigits hrest.startsWithDigit_eq]
    have htail : afterDigits (s ++ rest) = rest :=
      afterDigits_append (fun d hd => hdigits d (List.mem_cons_of_mem c hd))
        hrest.startsWithDigit_eq
    have hcollect : collect UInt64.size 0 (c :: s) = (n, []) := by
      rw [collect_eq _ (by rwa [hread]), hread]
    rw [if_neg hzero, if_pos (hdigits c List.mem_cons_self), hrun, htail, hcollect]
    exact readBehindWhole_eq hrest negative n

end MenuPages.Json
