import MenuPages.Json.Numeral
import MenuPages.Json.Quote

/-!
# Values that are not wanted

A value whose member nobody asked for is passed over, however deep it is. The containers that are
open are kept in a list, innermost first; so depth costs no recursion. Two things are less strict
than where values are wanted: see `skipString` and `skipNumber`.
-/

namespace MenuPages.Json

/-- Reads the letters of a word. -/
def readWord : (word s : Text) → Outcome Unit
  | [], s => .ok ((), s)
  | _ :: _, [] => failAt .endInValue []
  | w :: word, c :: s => if w = c then readWord word s else failAfter .expectedIdent 1 (c :: s)

theorem length_of_readWord {word s rest : Text} {u : Unit} (h : readWord word s = .ok (u, rest)) :
    rest.length ≤ s.length := by
  fun_induction readWord word s with
  | case1 =>
    simp only [Except.ok.injEq, Prod.mk.injEq] at h
    simp [h.2]
  | case2 => simp [failAt] at h
  | case3 _ _ _ ih => exact Nat.le_succ_of_le (ih h)
  | case4 => simp [failAfter] at h

/-- A kind of container. -/
inductive Container where
  | list
  | object
  deriving DecidableEq, Repr

namespace Container

/-- The bracket that closes it. -/
def closing : Container → Char
  | list => ']'
  | object => '}'

/-- The fault of a text that ends in it. -/
def atEnd : Container → Cause
  | list => .endInList
  | object => .endInObject

/-- The fault of something else between its parts than a comma. -/
def expected : Container → Cause
  | list => .expectedListCommaOrEnd
  | object => .expectedObjectCommaOrEnd

end Container

/-- Passes over a value that is no container. -/
def skipScalar : Text → Outcome Unit
  | [] => failPeek .endInValue []
  | c :: s =>
    if c = 'n' then readWord "ull".toList s
    else if c = 't' then readWord "rue".toList s
    else if c = 'f' then readWord "alse".toList s
    else if c = '"' then skipString s
    else if c = '-' then skipNumber s
    else if c.isDigit then skipNumber (c :: s)
    else failPeek .expectedValue (c :: s)

/-- Reads the colon behind a key. -/
def readColon (s : Text) : Outcome Unit :=
  match skipSpace s with
  | [] => failPeek .endInObject []
  | c :: rest => if c = ':' then .ok ((), rest) else failPeek .expectedColon (c :: rest)

/-- Passes over a key and its colon. -/
def skipKey (s : Text) : Outcome Unit :=
  match skipSpace s with
  | [] => failPeek .endInObject []
  | c :: s =>
    if c = '"' then
      match skipString s with
      | .error e => .error e
      | .ok (_, rest) => readColon rest
    else failPeek .keyNotString (c :: s)

/-- Passes over what a part of this container starts with. -/
def skipPartStart : Container → Text → Outcome Unit
  | .list, s => .ok ((), s)
  | .object, s => skipKey s

theorem length_of_skipScalar {s rest : Text} {u : Unit} (h : skipScalar s = .ok (u, rest)) :
    rest.length < s.length := by
  unfold skipScalar at h
  split at h
  · simp [failPeek, failAfter] at h
  · next c s =>
    split at h
    · exact Nat.lt_succ_of_le (length_of_readWord h)
    · split at h
      · exact Nat.lt_succ_of_le (length_of_readWord h)
      · split at h
        · exact Nat.lt_succ_of_le (length_of_readWord h)
        · split at h
          · exact Nat.lt_succ_of_lt (length_of_skipString h)
          · split at h
            · exact Nat.lt_succ_of_lt (length_of_skipNumber h)
            · split at h
              · exact length_of_skipNumber h
              · simp [failPeek, failAfter] at h

theorem length_of_readColon {s rest : Text} {u : Unit} (h : readColon s = .ok (u, rest)) :
    rest.length < s.length := by
  unfold readColon at h
  split at h
  · simp [failPeek, failAfter] at h
  · next c rest' hs =>
    have hle := length_skipSpace_le s
    rw [hs] at hle
    split at h
    · simp only [Except.ok.injEq, Prod.mk.injEq] at h
      rw [← h.2]
      exact hle
    · simp [failPeek, failAfter] at h

theorem length_of_skipKey {s rest : Text} {u : Unit} (h : skipKey s = .ok (u, rest)) :
    rest.length < s.length := by
  unfold skipKey at h
  split at h
  · simp [failPeek, failAfter] at h
  · next c s' hs =>
    have hle := length_skipSpace_le s
    rw [hs, List.length_cons] at hle
    split at h
    · split at h
      · simp at h
      · next hk =>
        have := length_of_skipString hk
        have := length_of_readColon h
        omega
    · simp [failPeek, failAfter] at h

theorem length_of_skipPartStart {k : Container} {s rest : Text} {u : Unit}
    (h : skipPartStart k s = .ok (u, rest)) : rest.length ≤ s.length := by
  cases k with
  | list =>
    simp only [skipPartStart, Except.ok.injEq, Prod.mk.injEq] at h
    simp [h.2]
  | object => exact Nat.le_of_lt (length_of_skipKey h)

mutual
/-- Passes over a value, and then over what is left of the containers that are open. -/
def skipValue (containers : List Container) (s : Text) : Outcome Unit :=
  match _h : skipSpace s with
  | [] => failPeek .endInValue []
  | c :: s' =>
    if c = '[' then skipOpened .list containers s'
    else if c = '{' then skipOpened .object containers s'
    else
      match _hs : skipScalar (c :: s') with
      | .error e => .error e
      | .ok (_, rest) => skipBehind containers rest
termination_by 2 * s.length
decreasing_by
  · have := length_skipSpace_le s
    rw [_h, List.length_cons] at this
    omega
  · have := length_skipSpace_le s
    rw [_h, List.length_cons] at this
    omega
  · have := length_skipSpace_le s
    have := length_of_skipScalar _hs
    rw [_h] at *
    omega
/-- Passes over a container from behind its opening bracket. -/
def skipOpened (k : Container) (containers : List Container) (s : Text) : Outcome Unit :=
  match _h : skipSpace s with
  | [] => failPeek k.atEnd []
  | c :: s' =>
    if c = k.closing then skipBehind containers s'
    else
      match _hp : skipPartStart k (c :: s') with
      | .error e => .error e
      | .ok (_, rest) => skipValue (k :: containers) rest
termination_by 2 * s.length + 1
decreasing_by
  · have := length_skipSpace_le s
    rw [_h, List.length_cons] at this
    omega
  · have := length_skipSpace_le s
    have := length_of_skipPartStart _hp
    rw [_h] at *
    omega
/-- Passes over what is left of the containers that are open, from behind a value. -/
def skipBehind (containers : List Container) (s : Text) : Outcome Unit :=
  match containers with
  | [] => .ok ((), s)
  | k :: outer =>
    match _h : skipSpace s with
    | [] => failPeek k.atEnd []
    | c :: s' =>
      if c = ',' then
        match _hp : skipPartStart k s' with
        | .error e => .error e
        | .ok (_, rest) => skipValue (k :: outer) rest
      else if c = k.closing then skipBehind outer s'
      else failPeek k.expected (c :: s')
termination_by 2 * s.length
decreasing_by
  · have := length_skipSpace_le s
    have := length_of_skipPartStart _hp
    rw [_h, List.length_cons] at *
    omega
  · have := length_skipSpace_le s
    rw [_h, List.length_cons] at this
    omega
end

/-! ## Progress -/

private def SkipShrinks (f : Text → Outcome Unit) (n : Nat) : Prop :=
  ∀ s rest u, s.length < n → f s = .ok (u, rest) → rest.length < s.length

private def SkipKeeps (f : Text → Outcome Unit) (n : Nat) : Prop :=
  ∀ s rest u, s.length < n → f s = .ok (u, rest) → rest.length ≤ s.length

private theorem skipBehind_keeps {n : Nat} (value : ∀ ks, SkipShrinks (skipValue ks) n)
    (behind : ∀ ks, SkipKeeps (skipBehind ks) n) (ks : List Container) :
    SkipKeeps (skipBehind ks) (n + 1) := by
  intro s rest u hn h
  rw [skipBehind.eq_def] at h
  split at h
  · simp only [Except.ok.injEq, Prod.mk.injEq] at h
    simp [h.2]
  · split at h
    · simp [failPeek, failAfter] at h
    · next c s' hs =>
      have hle := length_skipSpace_le s
      rw [hs, List.length_cons] at hle
      split at h
      · split at h
        · simp at h
        · next hp =>
          have hpart := length_of_skipPartStart hp
          have := value _ _ _ _ (by omega) h
          omega
      · split at h
        · have := behind _ _ _ _ (by omega) h
          omega
        · simp [failPeek, failAfter] at h

private theorem skipOpened_shrinks {n : Nat} (value : ∀ ks, SkipShrinks (skipValue ks) (n + 1))
    (behind : ∀ ks, SkipKeeps (skipBehind ks) (n + 1)) (k : Container) (ks : List Container) :
    SkipShrinks (skipOpened k ks) (n + 1) := by
  intro s rest u hn h
  rw [skipOpened] at h
  split at h
  · simp [failPeek, failAfter] at h
  · next c s' hs =>
    have hle := length_skipSpace_le s
    rw [hs, List.length_cons] at hle
    split at h
    · have := behind _ _ _ _ (by omega) h
      omega
    · split at h
      · simp at h
      · next hp =>
        have hpart := length_of_skipPartStart hp
        rw [List.length_cons] at hpart
        have := value _ _ _ _ (by omega) h
        omega

private theorem skipValue_shrinks {n : Nat}
    (opened : ∀ k ks, SkipShrinks (skipOpened k ks) n)
    (behind : ∀ ks, SkipKeeps (skipBehind ks) n) (ks : List Container) :
    SkipShrinks (skipValue ks) (n + 1) := by
  intro s rest u hn h
  rw [skipValue] at h
  split at h
  · simp [failPeek, failAfter] at h
  · next c s' hs =>
    have hle := length_skipSpace_le s
    rw [hs, List.length_cons] at hle
    split at h
    · have := opened _ _ _ _ _ (by omega) h
      omega
    · split at h
      · have := opened _ _ _ _ _ (by omega) h
        omega
      · split at h
        · simp at h
        · next hscalar =>
          have hlt := length_of_skipScalar hscalar
          rw [List.length_cons] at hlt
          have := behind _ _ _ _ (by omega) h
          omega

private theorem skip_shrinks (n : Nat) :
    (∀ ks, SkipShrinks (skipValue ks) n) ∧ (∀ k ks, SkipShrinks (skipOpened k ks) n) ∧
      ∀ ks, SkipKeeps (skipBehind ks) n := by
  induction n with
  | zero =>
    exact ⟨fun _ _ _ _ hn => absurd hn (Nat.not_lt_zero _),
      fun _ _ _ _ _ hn => absurd hn (Nat.not_lt_zero _),
      fun _ _ _ _ hn => absurd hn (Nat.not_lt_zero _)⟩
  | succ n ih =>
    have value := skipValue_shrinks ih.2.1 ih.2.2
    have behind := skipBehind_keeps ih.1 ih.2.2
    exact ⟨value, skipOpened_shrinks value behind, behind⟩

/-- Passing over a value takes at least one character. -/
theorem length_of_skipValue {ks : List Container} {s rest : Text} {u : Unit}
    (h : skipValue ks s = .ok (u, rest)) : rest.length < s.length :=
  (skip_shrinks (s.length + 1)).1 ks s rest u (Nat.lt_succ_self _) h

end MenuPages.Json
