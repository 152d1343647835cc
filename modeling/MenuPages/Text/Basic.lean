/-!
# Texts

A text is the list of its characters, so that what a scanner has left to read is a tail of the text
it started from. Two measures go with it: the bytes a text takes in UTF-8, in which offsets and
columns are counted, and its newlines, in which lines are counted.

**The searches.** `afterWord?` reads a word at the front of a text and `breakAt?` finds the first
place where a word stands. Both compare ASCII letters without case and everything else exactly.
`breakAt?_eq_some` says that what the search returns puts the text together again.
-/

namespace MenuPages

/-- A text is the list of its characters. -/
abbrev Text := List Char

namespace Text

/-! ## Measures -/

/-- The number of bytes that a text takes in UTF-8. -/
def byteCount : Text → Nat
  | [] => 0
  | c :: s => c.utf8Size + byteCount s

@[simp] theorem byteCount_nil : byteCount [] = 0 := rfl

@[simp] theorem byteCount_cons (c : Char) (s : Text) :
    byteCount (c :: s) = c.utf8Size + byteCount s := rfl

@[simp] theorem byteCount_append (s t : Text) :
    byteCount (s ++ t) = byteCount s + byteCount t := by
  induction s with
  | nil => simp
  | cons c s ih => simp [ih, Nat.add_assoc]

/-- The newlines among the characters that start within the first `bytes` bytes of a text. -/
def newlinesWithin : (bytes : Nat) → Text → Nat
  | 0, _ => 0
  | _, [] => 0
  | bytes + 1, c :: s =>
    (if c = '\n' then 1 else 0) + newlinesWithin (bytes + 1 - c.utf8Size) s

/-- The line on which the byte offset `pos` of a text lies, counted from 1. -/
def lineAt (source : Text) (pos : Nat) : Nat := newlinesWithin pos source + 1

/-! ## Words, compared without regard to the case of ASCII letters -/

/-- Two characters are the same letter if they differ at most in the case of an ASCII letter. -/
def sameLetter (a b : Char) : Bool := a.toLower == b.toLower

/-- What follows `word` in a text that starts with it, ASCII letters in any case. -/
def afterWord? : (word s : Text) → Option Text
  | [], s => some s
  | _ :: _, [] => none
  | w :: word, c :: s => if sameLetter w c then afterWord? word s else none

/-- The first place where `word` stands in a text, ASCII letters in any case: what is before it and
what is behind it. -/
def breakAt? (word : Text) : Text → Option (Text × Text)
  | [] => (afterWord? word []).map ([], ·)
  | c :: s =>
    match afterWord? word (c :: s) with
    | some rest => some ([], rest)
    | none => (breakAt? word s).map fun parts => (c :: parts.1, parts.2)

/-- A word that is read off the front leaves a text shorter by its length. -/
theorem length_of_afterWord? {word s rest : Text} (h : afterWord? word s = some rest) :
    s.length = word.length + rest.length := by
  induction word generalizing s with
  | nil => simp_all [afterWord?]
  | cons w word ih =>
    cases s with
    | nil => simp [afterWord?] at h
    | cons c s =>
      rw [afterWord?] at h
      split at h
      · have := ih h
        simp only [List.length_cons]
        omega
      · simp at h

/-- The search loses nothing: the two parts and the word between them make up the text. -/
theorem breakAt?_eq_some {word s before behind : Text} (h : breakAt? word s = some (before, behind)) :
    ∃ found, s = before ++ found ∧ afterWord? word found = some behind := by
  induction s generalizing before with
  | nil =>
    cases hw : afterWord? word [] with
    | none => simp [breakAt?, hw] at h
    | some rest =>
      simp only [breakAt?, hw, Option.map_some, Option.some.injEq, Prod.mk.injEq] at h
      exact ⟨[], by simp [← h.1], by rw [hw, h.2]⟩
  | cons c s ih =>
    rw [breakAt?] at h
    split at h
    · next rest hw =>
      simp only [Option.some.injEq, Prod.mk.injEq] at h
      exact ⟨c :: s, by simp [← h.1], by rw [hw, h.2]⟩
    · obtain ⟨⟨a, z⟩, hp, heq⟩ := Option.map_eq_some_iff.1 h
      simp only [Prod.mk.injEq] at heq
      obtain ⟨rfl, rfl⟩ := heq
      obtain ⟨found, rfl, hf⟩ := ih hp
      exact ⟨found, by simp, hf⟩

/-- What is behind the word is shorter than the text by at least the word. -/
theorem length_of_breakAt? {word s : Text} {parts : Text × Text} (h : breakAt? word s = some parts) :
    s.length = parts.1.length + word.length + parts.2.length := by
  obtain ⟨before, behind⟩ := parts
  obtain ⟨found, rfl, hf⟩ := breakAt?_eq_some h
  simp [length_of_afterWord? hf, Nat.add_assoc]

end Text

end MenuPages
