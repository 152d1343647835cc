import MenuPages.Proofs.Text.Words
import MenuPages.Text.Utf8

/-!
# Searching the bytes of a text

A word of ASCII characters is found among the bytes of a text where it is found among its
characters. That is so because UTF-8 keeps the two apart: a character of ASCII is one byte, and no
byte of any other character is below 128. So a byte that is equal to one of the word is a character
(`encode_prefix_encode_iff`), and the offset at which the word is found is the number of bytes
before it (`offsetOf?_encode`).

The same holds if ASCII letters count as the same in any case (`offsetOf?_encode_small`): to make
the bytes small is to make the characters small (`encode_small`).
-/

namespace MenuPages.Text

/-! ## Bytes of characters -/

theorem encode_cons (c : Char) (s : Text) :
    encode (c :: s) = String.utf8EncodeChar c ++ encode s := List.flatMap_cons

theorem encode_append (s t : Text) : encode (s ++ t) = encode s ++ encode t :=
  List.flatMap_append

/-- A character of ASCII is one byte, which is its code. -/
theorem utf8EncodeChar_of_lt {c : Char} (h : c.toNat < 128) :
    String.utf8EncodeChar c = [UInt8.ofNat c.toNat] := by
  have hle : c.val.toNat ≤ 127 := Nat.le_of_lt_succ h
  rw [String.utf8EncodeChar, if_pos hle]
  rfl

theorem toNat_ofNat_of_lt {c : Char} (h : c.toNat < 128) :
    (UInt8.ofNat c.toNat).toNat = c.toNat := by
  rw [UInt8.toNat_ofNat', Nat.mod_eq_of_lt (by omega)]

/-- Every byte of a character beyond ASCII is beyond ASCII. -/
theorem le_toNat_of_mem_utf8EncodeChar {c : Char} (h : 128 ≤ c.toNat) :
    ∀ b ∈ String.utf8EncodeChar c, 128 ≤ b.toNat := by
  have hgt : ¬ c.val.toNat ≤ 127 := Nat.not_le_of_lt h
  intro b hb
  rw [String.utf8EncodeChar, if_neg hgt] at hb
  split at hb
  case isTrue =>
    simp only [List.mem_cons, List.not_mem_nil, or_false] at hb
    rcases hb with rfl | rfl <;> rw [UInt8.toNat_ofNat'] <;> omega
  case isFalse =>
    split at hb
    case isTrue =>
      simp only [List.mem_cons, List.not_mem_nil, or_false] at hb
      rcases hb with rfl | rfl | rfl <;> rw [UInt8.toNat_ofNat'] <;> omega
    case isFalse =>
      simp only [List.mem_cons, List.not_mem_nil, or_false] at hb
      rcases hb with rfl | rfl | rfl | rfl <;> rw [UInt8.toNat_ofNat'] <;> omega

/-- The text is of ASCII characters. -/
def Ascii (s : Text) : Prop := ∀ c ∈ s, c.toNat < 128

instance (s : Text) : Decidable (Ascii s) := List.decidableBAll (fun c : Char => c.toNat < 128) s

theorem utf8Size_of_lt {c : Char} (h : c.toNat < 128) : c.utf8Size = 1 := by
  rw [← String.length_utf8EncodeChar, utf8EncodeChar_of_lt h]
  rfl

theorem Ascii.of_cons {c : Char} {s : Text} (h : Ascii (c :: s)) : c.toNat < 128 ∧ Ascii s :=
  List.forall_mem_cons.1 h

theorem lt_of_isAlpha {c : Char} (h : c.isAlpha = true) : c.toNat < 128 := by
  rcases Bool.or_eq_true_iff.1 h with h | h
  · have := isUpper_iff.1 h
    omega
  · have := isLower_iff.1 h
    omega

/-! ## Small bytes -/

theorem toNat_toLower_lt_iff {c : Char} : c.toLower.toNat < 128 ↔ c.toNat < 128 := by
  rw [toNat_toLower]
  split <;> omega

/-- Only ASCII has capital letters here. -/
theorem toLower_of_le {c : Char} (h : 128 ≤ c.toNat) : c.toLower = c := by
  apply toLower_eq_self
  rw [Bool.eq_false_iff, Ne, isUpper_iff]
  omega

/-- The case of a letter does not matter for how many bytes it takes. -/
theorem utf8Size_toLower (c : Char) : c.toLower.utf8Size = c.utf8Size := by
  by_cases h : c.toNat < 128
  · rw [utf8Size_of_lt h, utf8Size_of_lt (toNat_toLower_lt_iff.2 h)]
  · rw [toLower_of_le (Nat.not_lt.1 h)]

theorem byteCount_small (s : Text) : byteCount (small s) = byteCount s := by
  induction s with
  | nil => rfl
  | cons c s ih => rw [small_cons, byteCount_cons, byteCount_cons, utf8Size_toLower, ih]

/-- A byte that is an ASCII letter, in small. -/
def smallByte (b : UInt8) : UInt8 := if 65 ≤ b.toNat ∧ b.toNat ≤ 90 then b + 32 else b

theorem map_smallByte_utf8EncodeChar (c : Char) :
    (String.utf8EncodeChar c).map smallByte = String.utf8EncodeChar c.toLower := by
  by_cases h : c.toNat < 128
  · rw [utf8EncodeChar_of_lt h, utf8EncodeChar_of_lt (toNat_toLower_lt_iff.2 h),
      List.map_singleton, smallByte, toNat_toLower, toNat_ofNat_of_lt h]
    split
    · rw [UInt8.ofNat_add]
      rfl
    · rfl
  · have hc : 128 ≤ c.toNat := Nat.not_lt.1 h
    have hsame : ∀ b ∈ String.utf8EncodeChar c, smallByte b = b := by
      intro b hb
      have hle := le_toNat_of_mem_utf8EncodeChar hc b hb
      rw [smallByte, if_neg (by omega)]
    rw [toLower_of_le hc, List.map_congr_left hsame, List.map_id']

theorem encode_small (s : Text) : encode (small s) = (encode s).map smallByte := by
  induction s with
  | nil => rfl
  | cons c s ih =>
    rw [small_cons, encode_cons, encode_cons, List.map_append, map_smallByte_utf8EncodeChar, ih]

/-! ## Words at the front -/

/-- Only the first byte of a character may be one of ASCII. -/
theorem exists_utf8EncodeChar (c : Char) : ∃ (b : UInt8) (bytes : List UInt8),
    String.utf8EncodeChar c = b :: bytes ∧ ∀ b' ∈ bytes, 128 ≤ b'.toNat := by
  by_cases h : c.toNat < 128
  · exact ⟨_, [], utf8EncodeChar_of_lt h, nofun⟩
  · obtain ⟨b, bytes, hbytes⟩ := List.exists_cons_of_ne_nil (@String.utf8EncodeChar_ne_nil c)
    refine ⟨b, bytes, hbytes, fun b' hb' => ?_⟩
    apply le_toNat_of_mem_utf8EncodeChar (Nat.not_lt.1 h)
    rw [hbytes]
    exact List.mem_cons_of_mem b hb'

/-- And if it is, it is the character. -/
theorem ne_of_utf8EncodeChar {c d : Char} {b : UInt8} {bytes : List UInt8} (hd : d.toNat < 128)
    (hne : d ≠ c) (h : String.utf8EncodeChar c = b :: bytes) : UInt8.ofNat d.toNat ≠ b := by
  rintro rfl
  by_cases hc : c.toNat < 128
  · rw [utf8EncodeChar_of_lt hc] at h
    have hbyte := congrArg UInt8.toNat (List.cons.inj h).1
    rw [toNat_ofNat_of_lt hd, toNat_ofNat_of_lt hc] at hbyte
    exact hne (Char.toNat_inj.1 hbyte.symm)
  · have hle := le_toNat_of_mem_utf8EncodeChar (Nat.not_lt.1 hc) (UInt8.ofNat d.toNat)
      (by rw [h]; exact List.mem_cons_self)
    rw [toNat_ofNat_of_lt hd] at hle
    omega

/-- The bytes of a text start with those of a word if and only if the text starts with the word. -/
theorem encode_prefix_encode_iff {word s : Text} (hword : Ascii word) :
    encode word <+: encode s ↔ word <+: s := by
  induction word generalizing s with
  | nil => simp [encode]
  | cons d word ih =>
    obtain ⟨hd, hrest⟩ := hword.of_cons
    cases s with
    | nil => simp [encode, utf8EncodeChar_of_lt hd]
    | cons c s =>
      rw [encode_cons, encode_cons, List.cons_prefix_cons, utf8EncodeChar_of_lt hd]
      by_cases hdc : d = c
      · rw [← hdc, utf8EncodeChar_of_lt hd, List.singleton_append, List.singleton_append,
          List.cons_prefix_cons, ih hrest]
        simp
      · obtain ⟨b, bytes, hbytes, -⟩ := exists_utf8EncodeChar c
        rw [hbytes, List.singleton_append, List.cons_append, List.cons_prefix_cons]
        simp [hdc, ne_of_utf8EncodeChar hd hdc hbytes]

/-- The text has no letters. -/
def WithoutLetters (s : Text) : Prop := ∀ c ∈ s, c.isAlpha = false

instance (s : Text) : Decidable (WithoutLetters s) :=
  List.decidableBAll (fun c : Char => c.isAlpha = false) s

/-- A word without letters is read off the front of a text that starts with it. -/
theorem WithoutLetters.afterWord?_eq_some_iff {word s rest : Text} (hword : WithoutLetters word) :
    afterWord? word s = some rest ↔ s = word ++ rest := by
  rw [Text.afterWord?_eq_some_iff]
  constructor
  · rintro ⟨w, rfl, hw⟩
    congr 1
    induction word generalizing w with
    | nil => exact List.map_eq_nil_iff.1 hw
    | cons d word ih =>
      cases w with
      | nil => cases hw
      | cons c w =>
        obtain ⟨hhead, htail⟩ := List.cons.inj hw
        rw [eq_of_sameLetter (hword d List.mem_cons_self) (sameLetter_iff.2 hhead.symm),
          ih (fun e he => hword e (List.mem_cons_of_mem d he)) w htail]
  · rintro rfl
    exact ⟨word, rfl, rfl⟩

/-! ## Words anywhere -/

/-- The offset of the first window of bytes that is the word, which is not empty. -/
def offsetOf? (word : List UInt8) : List UInt8 → Option Nat
  | [] => none
  | b :: bytes =>
    if word.isPrefixOf (b :: bytes) then some 0 else (offsetOf? word bytes).map (· + 1)

/-- A word is not found in bytes among which its first one is not. -/
theorem offsetOf?_append {b : UInt8} {word before : List UInt8} (h : ∀ b' ∈ before, b ≠ b')
    (bytes : List UInt8) :
    offsetOf? (b :: word) (before ++ bytes) =
      (offsetOf? (b :: word) bytes).map (· + before.length) := by
  induction before with
  | nil => simp
  | cons b' before ih =>
    obtain ⟨hne, hrest⟩ := List.forall_mem_cons.1 h
    rw [List.cons_append, offsetOf?, if_neg (by simp [hne]), ih hrest, Option.map_map]
    simp only [Function.comp_def, List.length_cons, Nat.add_assoc]

/-- The bytes of a word are found in front of those of a character if it starts there, and else they
are found behind all of them. -/
theorem offsetOf?_encode_cons {word : Text} (hword : Ascii word) (hne : word ≠ []) (c : Char)
    (s : Text) :
    offsetOf? (encode word) (encode (c :: s)) =
      if word.isPrefixOf (c :: s) then some 0
      else (offsetOf? (encode word) (encode s)).map (· + c.utf8Size) := by
  obtain ⟨d, word, rfl⟩ := List.exists_cons_of_ne_nil hne
  obtain ⟨b, bytes, hbytes, hbeyond⟩ := exists_utf8EncodeChar c
  have hd := hword.of_cons.1
  have hfront := encode_prefix_encode_iff hword (s := c :: s)
  rw [← List.isPrefixOf_iff_prefix, ← List.isPrefixOf_iff_prefix] at hfront
  have hcount : bytes.length + 1 = c.utf8Size := by
    rw [← String.length_utf8EncodeChar, hbytes, List.length_cons]
  have hnot : ∀ b' ∈ bytes, UInt8.ofNat d.toNat ≠ b' := by
    rintro _ hmem rfl
    have := hbeyond _ hmem
    rw [toNat_ofNat_of_lt hd] at this
    omega
  rw [encode_cons c, hbytes] at hfront ⊢
  rw [List.cons_append, offsetOf?, ← List.cons_append]
  simp only [hfront]
  split
  · rfl
  · rw [encode_cons d, utf8EncodeChar_of_lt hd, List.singleton_append, offsetOf?_append hnot,
      Option.map_map, ← hcount]
    rfl

/-- The offset at which a word is found is the number of bytes in front of it. The characters of the
text may be changed to compare them, as long as none gets more or fewer bytes. -/
theorem offsetOf?_encode_map {f : Char → Char} (hsize : ∀ c, (f c).utf8Size = c.utf8Size)
    {seen word : Text} (hseen : Ascii seen) (hne : seen ≠ [])
    (hsame : ∀ s : Text, seen <+: s.map f ↔ afterWord? word s ≠ none) (s : Text) :
    offsetOf? (encode seen) (encode (s.map f)) =
      (breakAt? word s).map fun parts => parts.1.byteCount := by
  induction s with
  | nil =>
    have hnone : afterWord? word [] = none := by
      by_contra hsome
      exact hne (List.prefix_nil.1 ((hsame []).2 hsome))
    rw [breakAt?, hnone]
    rfl
  | cons c s ih =>
    have hfront := hsame (c :: s)
    rw [List.map_cons, ← List.isPrefixOf_iff_prefix] at hfront
    rw [List.map_cons, offsetOf?_encode_cons hseen hne, hsize, ih, breakAt?]
    cases hafter : afterWord? word (c :: s) with
    | some rest =>
      rw [if_pos (hfront.2 (by simp [hafter]))]
      rfl
    | none =>
      rw [if_neg fun h => hfront.1 h hafter]
      simp only [Option.map_map, Function.comp_def, byteCount_cons, Nat.add_comm]

/-- A word is found among the bytes of a text with its letters in any case. -/
theorem offsetOf?_encode_small {word : Text} (hword : Ascii word) (hne : word ≠ []) (s : Text) :
    offsetOf? ((encode word).map smallByte) ((encode s).map smallByte) =
      (breakAt? word s).map fun parts => parts.1.byteCount := by
  have hsmall : Ascii (small word) := by
    intro c hc
    obtain ⟨d, hd, rfl⟩ := List.mem_map.1 hc
    exact toNat_toLower_lt_iff.2 (hword d hd)
  rw [← encode_small, ← encode_small]
  refine offsetOf?_encode_map utf8Size_toLower hsmall (by simpa [small] using hne) (fun t => ?_) s
  rw [Ne, afterWord?_eq_none_iff, not_not]
  rfl

/-- A word without letters is found among the bytes of a text. -/
theorem offsetOf?_encode {word : Text} (hword : Ascii word) (hne : word ≠ [])
    (hletters : WithoutLetters word) (s : Text) :
    offsetOf? (encode word) (encode s) =
      (breakAt? word s).map fun parts => parts.1.byteCount := by
  have hsame (t : Text) : word <+: t.map id ↔ afterWord? word t ≠ none := by
    rw [List.map_id, Option.ne_none_iff_exists']
    exact exists_congr fun rest =>
      eq_comm.trans hletters.afterWord?_eq_some_iff.symm
  have h := offsetOf?_encode_map (fun _ => rfl) hword hne hsame s
  rwa [List.map_id'] at h

end MenuPages.Text
