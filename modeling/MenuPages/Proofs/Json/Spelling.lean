import MenuPages.Json.Reader
import MenuPages.Proofs.Json.Passing
import MenuPages.Proofs.Number.Distinct

/-!
# Texts that spell a value, and readers of them

A value has many spellings: white space, escapes and the order of members are free. `Spelling α`
says which texts spell a value of `α`, with what is left behind them.

A spelling may have one flaw, which is that one object in it lacks members that it has to have. Such
a text spells nothing; what is known of it is which of them is the first (`Flaw`). Flaws are part of
spellings, rather than said apart, because the flawed object may be anywhere inside.

`Reads r S` says that the reader `r` understands all spellings of `S` and finds their flaws.
-/

namespace MenuPages.Json

open Text

/-! ## Spellings -/

/-- What is missing in one object of a text, and what is behind that object. -/
structure Flaw where
  missing : Text
  behind : Text

/-- The texts that spell a value, with the flaw in them and what is left behind. -/
abbrev Spelling (α : Type) := α → Option Flaw → Text → Text → Prop

/-- One thing or more between the brackets of a container, up to the closing one. At most one of
them has a flaw. -/
inductive Items {ι : Type} (k : Container) (S : Spelling ι) : Spelling (List ι)
  | last {i : ι} {flaw : Option Flaw} {s t rest : Text} (h : S i flaw s t)
      (ht : Space t (k.closing :: rest)) : Items k S [i] flaw s rest
  | more {i : ι} {is : List ι} {flaw flaw' : Option Flaw} {s t u v rest : Text} (h : S i flaw s t)
      (ht : Space t (',' :: u)) (hu : Space u v) (hmore : Items k S is flaw' v rest)
      (hone : flaw = none ∨ flaw' = none) : Items k S (i :: is) (flaw.or flaw') s rest

/-- A container, perhaps empty. -/
inductive Bracketed {ι : Type} (k : Container) (S : Spelling ι) : Spelling (List ι)
  | empty {s rest : Text} (h : Space s (k.closing :: rest)) :
      Bracketed k S [] none (k.opening :: s) rest
  | filled {is : List ι} {flaw : Option Flaw} {s t rest : Text} (hs : Space s t)
      (h : Items k S is flaw t rest) : Bracketed k S is flaw (k.opening :: s) rest

/-- One thing without a flaw and a comma right behind it. -/
theorem Items.comma {ι : Type} {k : Container} {S : Spelling ι} {i : ι} {is : List ι}
    {flaw : Option Flaw} {s t rest : Text} (h : S i none s (',' :: t))
    (hmore : Items k S is flaw t rest) : Items k S (i :: is) flaw s rest :=
  .more h (.none _) (.none _) hmore (.inl rfl)

namespace Spelling

/-- A text as a string, with any escapes. -/
inductive text : Spelling Text
  | quoted {v s rest : Text} (h : Quoted v s rest) : text v none ('"' :: s) rest

/-- A truth value as a word. -/
inductive flag : Spelling Bool
  | yes (rest : Text) : flag true none ("true".toList ++ rest) rest
  | no (rest : Text) : flag false none ("false".toList ++ rest) rest

/-- A whole number in digits. -/
inductive whole : Spelling Binary64
  | digits {x : Binary64} {n : ℤ} (h : x.IsInt n) (rest : Text) :
      whole x none (Digits.ofInt n ++ rest) rest

/-- A text that there may be, or null. -/
inductive optionalText : Spelling (Option Text)
  | null (rest : Text) : optionalText none none ("null".toList ++ rest) rest
  | quoted {v s rest : Text} (h : Quoted v s rest) : optionalText (some v) none ('"' :: s) rest

/-- A list. -/
def list {α : Type} (S : Spelling α) : Spelling (List α) := Bracketed .list S

end Spelling

/-! ## Readers -/

section

variable {α : Type}

/-- What reading a spelling gives: the value, or that a member is missing. -/
def outcome (a : α) : Option Flaw → Text → Outcome α
  | none, rest => .ok (a, rest)
  | some flaw, _ => failAt (.missingField flaw.missing) flaw.behind

/-- A reader reads all spellings to their end, and finds their flaws. -/
structure Reads (r : Reader α) (S : Spelling α) : Prop where
  starts {a : α} {flaw : Option Flaw} {s rest : Text} (h : S a flaw s rest) :
    ∃ c t, s = c :: t ∧ IsStart c
  run_eq {a : α} {flaw : Option Flaw} {s t rest : Text} (hs : Space s t) (h : S a flaw t rest)
    (hrest : Stops rest) : r.run s = outcome a flaw rest

end

/-! ## Scalars -/

theorem reads_text : Reads .text .text where
  starts h := by
    cases h
    exact ⟨_, _, rfl, by decide⟩
  run_eq hs h _ := by
    cases h with
    | quoted h =>
      simp only [Reader.text, byFirst, hs.skipSpace_eq_cons]
      exact h.readString_eq

theorem reads_flag : Reads .flag .flag where
  starts h := by
    cases h
    · exact ⟨_, _, rfl, by decide⟩
    · exact ⟨_, _, rfl, by decide⟩
  run_eq {_ _ s _ rest} hs h _ := by
    cases h with
    | yes =>
      have hstart : skipSpace s = 't' :: ("rue".toList ++ rest) := hs.skipSpace_eq_cons
      simp only [Reader.flag, byFirst, hstart]
      exact congrArg (Outcome.map fun _ => true) (readWord_append "rue".toList rest)
    | no =>
      have hstart : skipSpace s = 'f' :: ("alse".toList ++ rest) := hs.skipSpace_eq_cons
      simp only [Reader.flag, byFirst, hstart]
      exact congrArg (Outcome.map fun _ => false) (readWord_append "alse".toList rest)

theorem reads_optionalText : Reads .optionalText .optionalText where
  starts h := by
    cases h
    · exact ⟨_, _, rfl, by decide⟩
    · exact ⟨_, _, rfl, by decide⟩
  run_eq {_ _ s _ rest} hs h _ := by
    cases h with
    | null =>
      have hstart : skipSpace s = 'n' :: ("ull".toList ++ rest) := hs.skipSpace_eq_cons
      simp only [Reader.optionalText, byFirst, hstart]
      exact congrArg (Outcome.map fun _ => none) (readWord_append "ull".toList rest)
    | quoted h =>
      simp only [Reader.optionalText, byFirst, hs.skipSpace_eq_cons]
      exact congrArg (Outcome.map some) h.readString_eq

/-- The number that the digits of a whole number are read as. -/
theorem value_wholeNumeral {x : Binary64} {n : ℤ} (h : x.IsInt n) {negative : Bool}
    (hsign : negative = decide (n < 0)) : (wholeNumeral negative n.natAbs).value = x := by
  have hlt := h.natAbs_lt
  have hnumeral : wholeNumeral negative n.natAbs = .integer n := by
    rw [wholeNumeral, hsign]
    split
    · next hn =>
      simp only [Bool.not_eq_true', decide_eq_false_iff_not] at hn
      rw [Int.natAbs_of_nonneg (not_lt.mp hn)]
    · next hn =>
      simp only [Bool.not_eq_true', decide_eq_false_iff_not, not_not] at hn
      rw [if_neg (by omega), Int.ofNat_natAbs_of_nonpos hn.le, neg_neg]
  rw [hnumeral]
  exact h.ofRatio_eq

theorem exists_cons_ofNat (n : ℕ) : ∃ c s, Digits.ofNat n = c :: s ∧ c.isDigit := by
  obtain ⟨c, s, h⟩ := List.exists_cons_of_ne_nil (show Digits.ofNat n ≠ [] from Nat.toDigits_ne_nil)
  exact ⟨c, s, h, Digits.isDigit_of_mem_ofNat (h ▸ List.mem_cons_self)⟩

theorem reads_whole : Reads .number .whole where
  starts h := by
    cases h with
    | @digits x n h =>
      cases n with
      | ofNat n =>
        obtain ⟨c, s, hcs, hc⟩ := exists_cons_ofNat n
        exact ⟨c, s ++ _, congrArg (· ++ _) hcs, isStart_of_isDigit hc⟩
      | negSucc n => exact ⟨'-', _, rfl, by decide⟩
  run_eq {x _ s _ rest} hs h hrest := by
    cases h with
    | @digits _ n h =>
      have hlt : n.natAbs < UInt64.size := h.natAbs_lt.trans (by decide)
      cases n with
      | ofNat n =>
        have hread : readNumber false (Digits.ofNat n ++ rest) = .ok (wholeNumeral false n, rest) :=
          readNumber_ofNat hrest false hlt
        have hvalue : (wholeNumeral false n).value = x := value_wholeNumeral h rfl
        obtain ⟨c, t, hct, hc⟩ := exists_cons_ofNat n
        have hstart : skipSpace s = c :: (t ++ rest) := by
          rw [Digits.ofInt, hct] at hs
          exact hs.skipSpace_eq_cons (isStart_of_isDigit hc).1
        rw [hct, List.cons_append] at hread
        have hsign : c ≠ '-' := ne_of_class hc (by decide)
        simp only [Reader.number, byFirst, hstart, if_neg hsign, if_pos hc, hread, Outcome.map,
          hvalue, outcome]
      | negSucc n =>
        have hread : readNumber true (Digits.ofNat (n + 1) ++ rest) =
            .ok (wholeNumeral true (n + 1), rest) := readNumber_ofNat hrest true hlt
        have hvalue : (wholeNumeral true (n + 1)).value = x :=
          value_wholeNumeral h (decide_eq_true (Int.negSucc_lt_zero n)).symm
        have hstart : skipSpace s = '-' :: (Digits.ofNat (n + 1) ++ rest) :=
          hs.skipSpace_eq_cons
        simp only [Reader.number, byFirst, hstart, if_true, hread, Outcome.map, hvalue, outcome]

/-! ## Lists -/

section

variable {α : Type} {r : Reader α} {S : Spelling α} {s t u rest : Text} {c : Char}

theorem moreElements_first (h : Space s (c :: t)) (hc : IsStart c) :
    moreElements true s = .ok (true, c :: t) := by
  rw [moreElements, h.skipSpace_eq_cons hc.1]
  exact (if_neg hc.2.1).trans (if_pos rfl)

theorem moreElements_comma (hs : Space s (',' :: t)) (ht : Space t (c :: u)) (hc : IsStart c) :
    moreElements false s = .ok (true, c :: u) := by
  simp only [moreElements, hs.skipSpace_eq_cons, ht.skipSpace_eq_cons hc.1]
  exact if_neg hc.2.1

theorem moreElements_closing (h : Space s (']' :: rest)) (isFirst : Bool) :
    moreElements isFirst s = .ok (false, rest) := by
  rw [moreElements, h.skipSpace_eq_cons]
  exact if_pos rfl

theorem readElements_closing (h : Space s (']' :: rest)) (isFirst : Bool) :
    readElements r isFirst s = .ok ([], rest) := by
  rw [readElements]
  split
  · next he => simp [moreElements_closing h] at he
  · next he =>
    rw [moreElements_closing h] at he
    cases he
    rfl
  · next he => simp [moreElements_closing h] at he

theorem readElements_cons {isFirst : Bool} {a : α} (hmore : moreElements isFirst s = .ok (true, t))
    (hread : r.run t = .ok (a, u)) :
    readElements r isFirst s = Outcome.map (a :: ·) (readElements r false u) := by
  rw [readElements]
  split
  · next he => simp [hmore] at he
  · next he => simp [hmore] at he
  · next he =>
    rw [hmore] at he
    cases he
    split
    · next he => simp [hread] at he
    · next he =>
      rw [hread] at he
      cases he
      cases readElements r false u <;> rfl

theorem readElements_error {isFirst : Bool} {e : Fault}
    (hmore : moreElements isFirst s = .ok (true, t)) (hread : r.run t = .error e) :
    readElements r isFirst s = .error e := by
  rw [readElements]
  split
  · next he => simp [hmore] at he
  · next he => simp [hmore] at he
  · next he =>
    rw [hmore] at he
    cases he
    split
    · next he =>
      rw [hread] at he
      cases he
      rfl
    · next he => simp [hread] at he

theorem Items.exists_cons (hr : Reads r S) {k : Container} {as : List α} {flaw : Option Flaw}
    (h : Items k S as flaw s rest) : ∃ c t, s = c :: t ∧ IsStart c := by
  cases h with
  | last h => exact hr.starts h
  | more h => exact hr.starts h

theorem Items.readElements_eq (hr : Reads r S) {as : List α} {flaw : Option Flaw}
    (h : Items .list S as flaw t rest) (hrest : Stops rest) {isFirst : Bool}
    (hmore : moreElements isFirst s = .ok (true, t)) :
    readElements r isFirst s = outcome as flaw rest := by
  induction h generalizing isFirst s with
  | @last a flaw t u rest h hu =>
    have hread := hr.run_eq (.none t) h hu.stops_closing
    cases flaw with
    | none => rw [readElements_cons hmore hread, readElements_closing hu, Outcome.map, outcome]
    | some flaw => exact readElements_error hmore hread
  | @more a as flaw flaw' t u v w rest h hu hv hmoreItems hone ih =>
    have hread := hr.run_eq (.none t) h hu.stops_comma
    cases flaw with
    | none =>
      obtain ⟨c, x, rfl, hc⟩ := hmoreItems.exists_cons hr
      rw [readElements_cons hmore hread, ih hrest (moreElements_comma hu hv hc), Option.none_or]
      cases flaw' <;> rfl
    | some flaw => exact readElements_error hmore hread

/-- Lists are read by a reader of their elements. -/
theorem reads_list (hr : Reads r S) : Reads r.list S.list where
  starts h := by
    cases h with
    | empty => exact ⟨_, _, rfl, isStart_opening .list⟩
    | filled => exact ⟨_, _, rfl, isStart_opening .list⟩
  run_eq {as flaw s _ rest} hs h hrest := by
    cases h with
    | @empty t _ h =>
      have hstart : skipSpace s = '[' :: t := hs.skipSpace_eq_cons
      simp only [Reader.list, byFirst, hstart, if_true]
      exact readElements_closing h true
    | @filled _ _ t u _ ht h =>
      have hstart : skipSpace s = '[' :: t := hs.skipSpace_eq_cons
      obtain ⟨c, v, rfl, hc⟩ := h.exists_cons hr
      simp only [Reader.list, byFirst, hstart, if_true]
      exact h.readElements_eq hr hrest (moreElements_first ht hc)

end

end MenuPages.Json
