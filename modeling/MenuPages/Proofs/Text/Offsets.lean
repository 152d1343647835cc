import Mathlib.Data.List.TakeWhile
import MenuPages.Proofs.Text.Bytes

/-!
# Cutting a text at offsets

A scanner that holds a text as its bytes cuts it at offsets, which must be inside the text and not
inside a character. `cutAt` is a cut that may fault. The readers here are made of such cuts: they
look for an offset, character by character (`offsetWhere?`) or byte by byte (`offsetOf?`), and cut
there. What a reader gives is a `Reading`: it tells a text that is not what it reads, so that
another reader may be tried, from a fault, at which everything ends.

**Readers that never fault** are shown to be functions of the characters (`readMany_eq`,
`readMany1_eq`, `readWord_eq`, `readUpTo_eq`). All of them come down to one law: a text may be cut
where one of its parts ends, and nowhere else (`cutAt_eq_ok_iff`).

**A word in any case** (`readWordAnyCase`) is compared by the small letters of characters, and then
as many bytes are cut off as the word has. The Kelvin sign U+212A has the small letter `k`, but
three bytes. So a word without a `k` is read without a fault (`readWordAnyCase_eq`), and a word that
ends in `k` is cut inside the sign where the sign stands in the place of the `k`
(`readWordAnyCase_k`).
-/

namespace MenuPages.Text

/-! ## Cuts -/

/-- Why a text cannot be cut at an offset. -/
inductive CutFault where
  /-- The offset lies inside a character. -/
  | insideCharacter
  /-- The offset lies behind the end of the text. -/
  | beyondEnd
  deriving DecidableEq, Repr

/-- The two parts of a text that is cut at an offset in bytes. -/
def cutAt : (offset : Nat) → Text → Except CutFault (Text × Text)
  | 0, s => .ok ([], s)
  | _ + 1, [] => .error .beyondEnd
  | offset + 1, c :: s =>
    if c.utf8Size ≤ offset + 1 then
      (cutAt (offset + 1 - c.utf8Size) s).map fun parts => (c :: parts.1, parts.2)
    else .error .insideCharacter

theorem cutAt_cons (c : Char) (offset : Nat) (s : Text) :
    cutAt (c.utf8Size + offset) (c :: s) =
      (cutAt offset s).map fun parts => (c :: parts.1, parts.2) := by
  obtain ⟨n, hn⟩ := Nat.exists_eq_add_of_lt c.utf8Size_pos
  rw [Nat.zero_add] at hn
  rw [hn, Nat.add_right_comm, cutAt, if_pos (by omega), hn]
  congr 2
  omega

/-- **A text is cut where one of its parts ends.** -/
theorem cutAt_append (a b : Text) : cutAt a.byteCount (a ++ b) = .ok (a, b) := by
  induction a with
  | nil => rw [byteCount_nil, cutAt, List.nil_append]
  | cons c a ih => rw [List.cons_append, byteCount_cons, cutAt_cons, ih, Except.map]

/-- And it is cut nowhere else. -/
theorem cutAt_eq_ok_iff {offset : Nat} {s a b : Text} :
    cutAt offset s = .ok (a, b) ↔ s = a ++ b ∧ byteCount a = offset := by
  constructor
  · intro h
    fun_induction cutAt offset s generalizing a with
    | case1 s =>
      cases h
      exact ⟨rfl, rfl⟩
    | case2 => cases h
    | case3 offset c s hle ih =>
      cases hparts : cutAt (offset + 1 - c.utf8Size) s with
      | error f =>
        rw [hparts] at h
        cases h
      | ok parts =>
        rw [hparts] at h
        cases h
        obtain ⟨rfl, hcount⟩ := ih hparts
        refine ⟨rfl, ?_⟩
        rw [byteCount_cons]
        omega
    | case4 => cases h
  · rintro ⟨rfl, rfl⟩
    exact cutAt_append a b

theorem cutAt_byteCount (s : Text) : cutAt s.byteCount s = .ok (s, []) := by
  have h := cutAt_append s []
  rwa [List.append_nil] at h

theorem ok_bind {α β : Type} (a : α) (f : α → Except CutFault β) : Except.ok a >>= f = f a := rfl

/-! ## Offsets of characters -/

/-- The offset of the first character of a class. -/
def offsetWhere? (p : Char → Bool) : Text → Option Nat
  | [] => none
  | c :: s => if p c then some 0 else (offsetWhere? p s).map (· + c.utf8Size)

/-- Before the offset there is no character of the class. -/
theorem offsetWhere?_cases (p : Char → Bool) (s : Text) :
    (offsetWhere? p s = none ∧ ∀ d ∈ s, p d = false) ∨
      ∃ a c b, s = a ++ c :: b ∧ (∀ d ∈ a, p d = false) ∧ p c = true ∧
        offsetWhere? p s = some (byteCount a) := by
  induction s with
  | nil => exact Or.inl ⟨rfl, nofun⟩
  | cons c s ih =>
    rw [offsetWhere?]
    cases hc : p c with
    | true => exact Or.inr ⟨[], c, s, rfl, nofun, hc, if_pos rfl⟩
    | false =>
      rw [if_neg Bool.false_ne_true]
      rcases ih with ⟨hnone, hall⟩ | ⟨a, d, b, rfl, ha, hd, hsome⟩
      · exact Or.inl ⟨by rw [hnone, Option.map_none], List.forall_mem_cons.2 ⟨hc, hall⟩⟩
      · refine Or.inr ⟨c :: a, d, b, rfl, List.forall_mem_cons.2 ⟨hc, ha⟩, hd, ?_⟩
        rw [hsome, Option.map_some, byteCount_cons, Nat.add_comm]

/-! ## Readings -/

/-- What a reader makes of a text: a result, nothing if the text is not what it reads, or a fault.
-/
abbrev Reading := OptionT (Except CutFault)

namespace Reading

variable {α β : Type}

/-- A reading without a fault. -/
def of (o : Option α) : Reading α := OptionT.mk (.ok o)

/-- A reading that is a fault. -/
def fault (f : CutFault) : Reading α := OptionT.mk (.error f)

@[simp] theorem pure_eq (a : α) : (pure a : Reading α) = of (some a) := rfl

@[simp] theorem failure_eq : (failure : Reading α) = of none := rfl

@[simp] theorem liftM_ok (a : α) : liftM (Except.ok a : Except CutFault α) = of (some a) := rfl

@[simp] theorem of_some_bind (a : α) (r : α → Reading β) : of (some a) >>= r = r a := rfl

@[simp] theorem of_none_bind (r : α → Reading β) : of none >>= r = of none := rfl

@[simp] theorem of_some_or (a : α) (r : Reading α) : (of (some a) <|> r) = of (some a) := rfl

end Reading

open Reading

/-! ## Readers of characters -/

/-- Reads one character of a class. What is behind it is the result. -/
def readOne (p : Char → Bool) : Text → Reading Text
  | [] => failure
  | c :: s => if p c then return (← cutAt c.utf8Size (c :: s)).2 else failure

theorem readOne_cons (p : Char → Bool) (c : Char) (s : Text) :
    readOne p (c :: s) = of (if p c then some s else none) := by
  have hcut : cutAt c.utf8Size (c :: s) = .ok ([c], s) := cutAt_append [c] s
  rw [readOne, hcut]
  split <;> rfl

/-- Where the characters of a class end that a text starts with. -/
def offsetBehind (p : Char → Bool) (s : Text) : Nat := (offsetWhere? (!p ·) s).getD s.byteCount

theorem offsetBehind_eq (p : Char → Bool) (s : Text) :
    offsetBehind p s = byteCount (s.takeWhile p) := by
  rw [offsetBehind]
  rcases offsetWhere?_cases (!p ·) s with ⟨hnone, hall⟩ | ⟨a, c, b, rfl, ha, hc, hsome⟩
  · rw [hnone, Option.getD_none, List.takeWhile_eq_self_iff.2 fun d hd => by simpa using hall d hd]
  · rw [hsome, Option.getD_some,
      takeWhile_append_cons (fun d hd => by simpa using ha d hd) (by simpa using hc)]

/-- Reads the characters of a class. -/
def readMany (p : Char → Bool) (s : Text) : Except CutFault (Text × Text) :=
  cutAt (offsetBehind p s) s

theorem readMany_eq (p : Char → Bool) (s : Text) :
    readMany p s = .ok (s.takeWhile p, s.dropWhile p) := by
  have hcut := cutAt_append (s.takeWhile p) (s.dropWhile p)
  rw [List.takeWhile_append_dropWhile] at hcut
  rw [readMany, offsetBehind_eq, hcut]

/-- Reads the characters of a class, at least one. -/
def readMany1 (p : Char → Bool) (s : Text) : Reading (Text × Text) :=
  if offsetBehind p s = 0 then failure else readMany p s

theorem byteCount_eq_zero_iff {s : Text} : s.byteCount = 0 ↔ s = [] := by
  cases s with
  | nil => simp
  | cons c s =>
    have := c.utf8Size_pos
    simp only [byteCount_cons, reduceCtorEq, iff_false]
    omega

theorem readMany1_eq (p : Char → Bool) (s : Text) :
    readMany1 p s =
      of (if (s.takeWhile p).isEmpty then none else some (s.takeWhile p, s.dropWhile p)) := by
  rw [readMany1, offsetBehind_eq]
  simp only [byteCount_eq_zero_iff, List.isEmpty_iff, readMany_eq, liftM_ok, failure_eq]
  split <;> rfl

/-! ## Readers of words -/

/-- Reads a word as it is written. -/
def readWord (w s : Text) : Reading Text :=
  if (encode w).isPrefixOf (encode s) then return (← cutAt w.byteCount s).2 else failure

theorem readWord_append {w : Text} (hw : Ascii w) (rest : Text) :
    readWord w (w ++ rest) = of (some rest) := by
  have hfront : (encode w).isPrefixOf (encode (w ++ rest)) := by
    rw [List.isPrefixOf_iff_prefix, encode_prefix_encode_iff hw]
    exact List.prefix_append w rest
  rw [readWord, if_pos hfront, cutAt_append]
  rfl

/-- A word without letters is read as it is read in any case. -/
theorem readWord_eq {w : Text} (hw : Ascii w) (hletters : WithoutLetters w)
    (s : Text) : readWord w s = of (afterWord? w s) := by
  cases hafter : afterWord? w s with
  | some rest =>
    rw [hletters.afterWord?_eq_some_iff.1 hafter, readWord_append hw]
  | none =>
    have hfront : ¬ (encode w).isPrefixOf (encode s) := by
      rw [List.isPrefixOf_iff_prefix, encode_prefix_encode_iff hw]
      rintro ⟨rest, hrest⟩
      rw [hletters.afterWord?_eq_some_iff.2 hrest.symm] at hafter
      cases hafter
    rw [readWord, if_neg hfront, failure_eq]

/-- Reads up to a word, which is left. -/
def readUpTo (w s : Text) : Reading (Text × Text) :=
  match offsetOf? (encode w) (encode s) with
  | some offset => cutAt offset s
  | none => failure

theorem readUpTo_eq {w : Text} (hw : Ascii w) (hne : w ≠ [])
    (hletters : WithoutLetters w) (s : Text) :
    readUpTo w s = of ((breakAt? w s).map fun parts => (parts.1, w ++ parts.2)) := by
  rw [readUpTo, offsetOf?_encode hw hne hletters]
  cases hbreak : breakAt? w s with
  | none => rfl
  | some parts =>
    obtain ⟨before, behind⟩ := parts
    obtain ⟨found, rfl, hafter⟩ := breakAt?_eq_some hbreak
    rw [hletters.afterWord?_eq_some_iff] at hafter
    simp only [Option.map_some, cutAt_append, liftM_ok, hafter]

/-! ## Words in any case -/

/-- A character as it is compared with an ASCII letter in any case. Of all characters beyond ASCII
only the Kelvin sign has a small letter that is one of ASCII. -/
def lowercase (c : Char) : Char := if c = '\u212a' then 'k' else c.toLower

/-- Reads a word in any case: character by character as far as both go, and then as many bytes as
the word has. -/
def readWordAnyCase (w s : Text) : Reading Text :=
  if (s.zip w).all (fun p => lowercase p.1 == lowercase p.2) ∧ w.byteCount ≤ s.byteCount then
    return (← cutAt w.byteCount s).2
  else failure

@[simp] theorem readWordAnyCase_nil (s : Text) : readWordAnyCase [] s = of (some s) := by
  rw [readWordAnyCase, List.zip_nil_right, if_pos ⟨rfl, Nat.zero_le _⟩, byteCount_nil, cutAt]
  rfl

theorem readWordAnyCase_cons_nil (d : Char) (w : Text) : readWordAnyCase (d :: w) [] = of none := by
  have hpos := d.utf8Size_pos
  rw [readWordAnyCase, if_neg, failure_eq]
  rw [byteCount_cons, byteCount_nil]
  omega

/-- Letter by letter, as long as the Kelvin sign does not come where a `k` is asked for. -/
theorem readWordAnyCase_cons_cons {d c : Char} (hd : d.isAlpha = true)
    (hk : c = '\u212a' → d.toLower ≠ 'k') (w s : Text) :
    readWordAnyCase (d :: w) (c :: s) =
      if sameLetter d c then readWordAnyCase w s else of none := by
  have hdcode := lt_of_isAlpha hd
  have hlower : lowercase d = d.toLower := if_neg (by rintro rfl; exact absurd hd (by decide))
  have hsame : (lowercase c == lowercase d) = sameLetter d c := by
    rw [hlower, lowercase, sameLetter, Bool.eq_iff_iff, beq_iff_eq, beq_iff_eq]
    split
    · next h =>
      subst h
      refine iff_of_false (hk rfl).symm fun h => ?_
      have := toNat_toLower_lt_iff.2 hdcode
      rw [h] at this
      exact absurd this (by decide)
    · exact eq_comm
  rw [readWordAnyCase, List.zip_cons_cons, List.all_cons, hsame]
  cases hletter : sameLetter d c with
  | false => rfl
  | true =>
    have hccode : c.toNat < 128 := by
      rw [← toNat_toLower_lt_iff, ← sameLetter_iff.1 hletter, toNat_toLower_lt_iff]
      exact hdcode
    have hsize : d.utf8Size = c.utf8Size := by rw [utf8Size_of_lt hdcode, utf8Size_of_lt hccode]
    rw [Bool.true_and, if_pos rfl, readWordAnyCase, byteCount_cons, byteCount_cons, hsize,
      cutAt_cons]
    simp only [Nat.add_le_add_iff_left]
    cases cutAt w.byteCount s <;> rfl

/-- The word is of letters, none of them a `k`. -/
def WithoutK (w : Text) : Prop := ∀ d ∈ w, d.isAlpha = true ∧ d.toLower ≠ 'k'

instance (w : Text) : Decidable (WithoutK w) :=
  List.decidableBAll (fun d : Char => d.isAlpha = true ∧ d.toLower ≠ 'k') w

theorem WithoutK.ascii {w : Text} (h : WithoutK w) : Ascii w := fun d hd => lt_of_isAlpha (h d hd).1

/-- Behind letters without a `k` the rest of a word is read. -/
theorem readWordAnyCase_append {front : Text} (hfront : WithoutK front) (w s : Text) :
    readWordAnyCase (front ++ w) s = of (afterWord? front s) >>= readWordAnyCase w := by
  induction front generalizing s with
  | nil => rfl
  | cons d front ih =>
    obtain ⟨⟨halpha, hk⟩, hrest⟩ := List.forall_mem_cons.1 hfront
    cases s with
    | nil => exact readWordAnyCase_cons_nil d _
    | cons c s =>
      rw [List.cons_append, readWordAnyCase_cons_cons halpha fun _ => hk, afterWord?, ih hrest]
      split <;> rfl

/-- **A word of letters without a `k` is read without a fault.** -/
theorem readWordAnyCase_eq {w : Text} (hw : WithoutK w) (s : Text) :
    readWordAnyCase w s = of (afterWord? w s) := by
  have h := readWordAnyCase_append hw [] s
  rw [List.append_nil] at h
  rw [h]
  cases afterWord? w s <;> simp

/-- **A word that ends in `k` is cut inside the Kelvin sign** if that stands in the place of the
`k`. -/
theorem readWordAnyCase_k (s : Text) :
    readWordAnyCase ['k'] s =
      if s.head? = some '\u212a' then fault .insideCharacter else of (afterWord? ['k'] s) := by
  cases s with
  | nil => exact readWordAnyCase_cons_nil 'k' []
  | cons c s =>
    simp only [List.head?_cons, Option.some_inj]
    split
    · next h =>
      subst h
      have hlong : byteCount ['k'] ≤ byteCount ('\u212a' :: s) := by
        show 1 ≤ 3 + byteCount s
        omega
      rw [readWordAnyCase, List.zip_cons_cons, List.zip_nil_right, if_pos ⟨by decide, hlong⟩]
      rfl
    · next h =>
      rw [readWordAnyCase_cons_cons (by decide) fun hc => absurd hc h, readWordAnyCase_nil,
        afterWord?, afterWord?]
      split <;> rfl

end MenuPages.Text
