import MenuPages.Json.Fault

/-!
# JSON strings

Strings are read from behind their opening quote. `readString` gives the text that a string stands
for. `skipString` passes over a string whose text is not wanted; it does not ask whether surrogates
come in pairs, and it stops in front of a control character rather than behind it.
-/

namespace MenuPages.Json

/-! ## Escapes -/

/-- The characters that an escape of one letter stands for. -/
def letterEscape? : Char → Option Char
  | '"' => some '"'
  | '\\' => some '\\'
  | '/' => some '/'
  | 'b' => some '\x08'
  | 'f' => some '\x0c'
  | 'n' => some '\n'
  | 'r' => some '\r'
  | 't' => some '\t'
  | _ => none

def hexValue? (c : Char) : Option Nat :=
  if '0' ≤ c ∧ c ≤ '9' then some (c.toNat - 0x30)
  else if 'a' ≤ c ∧ c ≤ 'f' then some (c.toNat - 0x57)
  else if 'A' ≤ c ∧ c ≤ 'F' then some (c.toNat - 0x37)
  else none

/-- The number that four hexadecimal digits write. -/
def fourHex? : Text → Option (Nat × Text)
  | a :: b :: c :: d :: rest =>
    match hexValue? a, hexValue? b, hexValue? c, hexValue? d with
    | some a, some b, some c, some d => some (((a * 16 + b) * 16 + c) * 16 + d, rest)
    | _, _, _, _ => none
  | _ => none

/-- Reads four hexadecimal digits. They are taken as four bytes, if there are so many. -/
def readFourHex (s : Text) : Outcome Nat :=
  match fourHex? s with
  | some found => .ok found
  | none => if s.byteCount < 4 then failAt .endInString [] else failAfter .invalidEscape 4 s

/-- A unit that needs another one behind it. -/
def isLeadingSurrogate (n : Nat) : Bool := 0xD800 ≤ n && n ≤ 0xDBFF

/-- A unit that needs another one before it. -/
def isTrailingSurrogate (n : Nat) : Bool := 0xDC00 ≤ n && n ≤ 0xDFFF

/-- The character of a pair of surrogates. -/
def pairedCharacter (lead trail : Nat) : Char :=
  Char.ofNat ((lead - 0xD800) * 0x400 + (trail - 0xDC00) + 0x10000)

/-- Reads the second of a pair of surrogates. -/
def readTrailing (lead : Nat) : Text → Outcome Char
  | [] => failAt .endInString []
  | '\\' :: [] => failAt .endInString []
  | '\\' :: 'u' :: s =>
    match readFourHex s with
    | .error e => .error e
    | .ok (trail, rest) =>
      if isTrailingSurrogate trail then .ok (pairedCharacter lead trail, rest)
      else failAt .loneSurrogate rest
  | '\\' :: s => failAfter .unfinishedSurrogate 1 s
  | s => failAfter .unfinishedSurrogate 1 s

/-- Reads an escape from behind its backslash. -/
def readEscape : Text → Outcome Char
  | [] => failAt .endInString []
  | 'u' :: s =>
    match readFourHex s with
    | .error e => .error e
    | .ok (unit, rest) =>
      if isTrailingSurrogate unit then failAt .loneSurrogate rest
      else if isLeadingSurrogate unit then readTrailing unit rest
      else .ok (Char.ofNat unit, rest)
  | c :: s =>
    match letterEscape? c with
    | some d => .ok (d, s)
    | none => failAfter .invalidEscape 1 (c :: s)

/-- Passes over an escape from behind its backslash. -/
def skipEscape : Text → Outcome Unit
  | [] => failAt .endInString []
  | 'u' :: s =>
    match readFourHex s with
    | .error e => .error e
    | .ok (_, rest) => .ok ((), rest)
  | c :: s =>
    match letterEscape? c with
    | some _ => .ok ((), s)
    | none => failAfter .invalidEscape 1 (c :: s)

theorem length_of_readFourHex {s rest : Text} {n : Nat} (h : readFourHex s = .ok (n, rest)) :
    rest.length < s.length := by
  unfold readFourHex at h
  split at h
  · next found hf =>
    unfold fourHex? at hf
    split at hf
    · split at hf
      · simp only [Option.some.injEq] at hf
        simp only [← hf, Except.ok.injEq, Prod.mk.injEq] at h
        simp only [← h.2, List.length_cons]
        omega
      · simp at hf
    · simp at hf
  · split at h <;> simp [failAt, failAfter] at h

theorem length_of_readTrailing {lead : Nat} {s rest : Text} {c : Char}
    (h : readTrailing lead s = .ok (c, rest)) : rest.length < s.length := by
  unfold readTrailing at h
  split at h
  · simp [failAt] at h
  · simp [failAt] at h
  · split at h
    · simp at h
    · next hf =>
      have := length_of_readFourHex hf
      split at h
      · simp only [Except.ok.injEq, Prod.mk.injEq] at h
        rw [← h.2]
        simp only [List.length_cons]
        omega
      · simp [failAt] at h
  · simp [failAfter] at h
  · simp [failAfter] at h

/-- An escape takes at least one character. -/
theorem length_of_readEscape {s rest : Text} {c : Char} (h : readEscape s = .ok (c, rest)) :
    rest.length < s.length := by
  unfold readEscape at h
  split at h
  · simp [failAt] at h
  · split at h
    · simp at h
    · next hf =>
      have hlen := length_of_readFourHex hf
      split at h
      · simp [failAt] at h
      · split at h
        · have := length_of_readTrailing h
          simp only [List.length_cons]
          omega
        · simp only [Except.ok.injEq, Prod.mk.injEq] at h
          rw [← h.2, List.length_cons]
          omega
  · split at h
    · simp only [Except.ok.injEq, Prod.mk.injEq] at h
      rw [← h.2, List.length_cons]
      omega
    · simp [failAfter] at h

theorem length_of_skipEscape {s rest : Text} {u : Unit} (h : skipEscape s = .ok (u, rest)) :
    rest.length < s.length := by
  unfold skipEscape at h
  split at h
  · simp [failAt] at h
  · split at h
    · simp at h
    · next hf =>
      have hlen := length_of_readFourHex hf
      simp only [Except.ok.injEq, Prod.mk.injEq] at h
      rw [← h.2, List.length_cons]
      omega
  · split at h
    · simp only [Except.ok.injEq, Prod.mk.injEq] at h
      rw [← h.2, List.length_cons]
      omega
    · simp [failAfter] at h

/-! ## Strings -/

/-- A character that a string may not hold as it is. -/
def isStringControl (c : Char) : Bool := c.toNat < 0x20

/-- Reads a string from behind its opening quote. -/
def readString (s : Text) : Outcome Text :=
  match s with
  | [] => failAt .endInString []
  | c :: s =>
    if c = '"' then .ok ([], s)
    else if c = '\\' then
      match _h : readEscape s with
      | .error e => .error e
      | .ok (d, rest) =>
        match readString rest with
        | .error e => .error e
        | .ok (text, rest) => .ok (d :: text, rest)
    else if isStringControl c then failAt .controlCharacter s
    else
      match readString s with
      | .error e => .error e
      | .ok (text, rest) => .ok (c :: text, rest)
termination_by s.length
decreasing_by
  · have := length_of_readEscape _h
    simp only [List.length_cons]
    omega
  · simp

/-- Passes over a string from behind its opening quote. -/
def skipString (s : Text) : Outcome Unit :=
  match s with
  | [] => failAt .endInString []
  | c :: s =>
    if c = '"' then .ok ((), s)
    else if c = '\\' then
      match _h : skipEscape s with
      | .error e => .error e
      | .ok (_, rest) => skipString rest
    else if isStringControl c then failAt .controlCharacter (c :: s)
    else skipString s
termination_by s.length
decreasing_by
  · have := length_of_skipEscape _h
    simp only [List.length_cons]
    omega
  · simp

/-- A string takes at least its closing quote. -/
theorem length_of_readString {s rest text : Text} (h : readString s = .ok (text, rest)) :
    rest.length < s.length := by
  fun_induction readString s generalizing text with
  | case1 => simp [failAt] at h
  | case2 =>
    simp only [Except.ok.injEq, Prod.mk.injEq] at h
    simp [← h.2]
  | case3 => simp at h
  | case4 => simp at h
  | case5 s d after he text' rest' hr _ ih =>
    simp only [Except.ok.injEq, Prod.mk.injEq] at h
    obtain ⟨rfl, rfl⟩ := h
    have := ih hr
    have := length_of_readEscape he
    simp only [List.length_cons]
    omega
  | case6 => simp [failAt] at h
  | case7 => simp at h
  | case8 c s _ _ _ text' rest' hr ih =>
    simp only [Except.ok.injEq, Prod.mk.injEq] at h
    obtain ⟨rfl, rfl⟩ := h
    exact Nat.lt_succ_of_lt (ih hr)

theorem length_of_skipString {s rest : Text} {u : Unit} (h : skipString s = .ok (u, rest)) :
    rest.length < s.length := by
  fun_induction skipString s with
  | case1 => simp [failAt] at h
  | case2 =>
    simp only [Except.ok.injEq, Prod.mk.injEq] at h
    simp [← h.2]
  | case3 => simp at h
  | case4 s u after he _ ih =>
    have := ih h
    have := length_of_skipEscape he
    simp only [List.length_cons]
    omega
  | case5 => simp [failAt] at h
  | case6 c s _ _ _ ih => exact Nat.lt_succ_of_lt (ih h)

end MenuPages.Json
