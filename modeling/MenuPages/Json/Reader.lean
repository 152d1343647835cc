import MenuPages.Json.Skip

/-!
# Readers of JSON values

A reader reads one value of a kind that is known beforehand, without going back: the first thing
that is wrong in the text is what is reported. A value of another kind is read too, if it is no
container, so that what is wrong inside it comes first.

Each reader comes with the proof that it takes at least one character (`Reader.progress`); that is
why lists and records of values can be read to their end.
-/

namespace MenuPages.Json

/-- A way to read a value of one kind. -/
structure Reader (α : Type) where
  run : Text → Outcome α
  progress : ∀ {s rest : Text} {a : α}, run s = .ok (a, rest) → rest.length < s.length

namespace Reader

variable {α β : Type}

/-- Reads a value and turns it into another. -/
def map (f : α → β) (r : Reader α) : Reader β where
  run s := Outcome.map f (r.run s)
  progress h := by
    obtain ⟨a, ha, _⟩ := Outcome.map_eq_ok h
    exact r.progress ha

end Reader

/-! ## Values of another kind -/

/-- Reads what kind of value a text starts with. A scalar is read to its end, a container only
looked at. -/
def readFound : Text → Outcome Found
  | [] => failPeek .endInValue []
  | c :: s =>
    if c = 'n' then (readWord "ull".toList s).map fun _ => .null
    else if c = 't' then (readWord "rue".toList s).map fun _ => .boolean true
    else if c = 'f' then (readWord "alse".toList s).map fun _ => .boolean false
    else if c = '"' then (readString s).map .string
    else if c = '-' then (readNumber true s).map Numeral.found
    else if c.isDigit then (readNumber false (c :: s)).map Numeral.found
    else if c = '[' then .ok (.sequence, c :: s)
    else if c = '{' then .ok (.map, c :: s)
    else failPeek .expectedValue (c :: s)

/-- Refuses the value that a text starts with. -/
def wrongType {α : Type} (expected s : Text) : Outcome α :=
  match readFound s with
  | .error e => .error e
  | .ok (found, rest) => failAt (.wrongType found expected) rest

theorem wrongType_ne_ok {α : Type} (expected s : Text) (found : α × Text) :
    wrongType expected s ≠ .ok found := by
  unfold wrongType failAt
  split <;> simp

/-! ## Values by their first character -/

/-- Reads the value that a text starts with behind white space, if `read` knows its first character;
else refuses it. -/
def byFirst {α : Type} (expected : Text) (read : Char → Text → Option (Outcome α))
    (shrinks : ∀ {c : Char} {s rest : Text} {a : α}, read c s = some (.ok (a, rest)) →
      rest.length ≤ s.length) : Reader α where
  run s :=
    match skipSpace s with
    | [] => wrongType expected []
    | c :: s =>
      match read c s with
      | some o => o
      | none => wrongType expected (c :: s)
  progress {s rest a} h := by
    split at h
    · exact absurd h (wrongType_ne_ok _ _ _)
    · next c s' hs =>
      have hle := length_skipSpace_le s
      rw [hs] at hle
      split at h
      · next hr => exact Nat.lt_of_lt_of_le (Nat.lt_succ_of_le (shrinks (h ▸ hr))) hle
      · exact absurd h (wrongType_ne_ok _ _ _)

namespace Reader

/-- Reads a text. -/
def text : Reader Text :=
  byFirst "a string".toList (fun c s => if c = '"' then some (readString s) else none) (by
    intro c s rest a h
    split at h
    · exact Nat.le_of_lt (length_of_readString (Option.some.inj h))
    · simp at h)

/-- Reads a truth value. -/
def flag : Reader Bool :=
  byFirst "a boolean".toList
    (fun c s =>
      if c = 't' then some ((readWord "rue".toList s).map fun _ => true)
      else if c = 'f' then some ((readWord "alse".toList s).map fun _ => false)
      else none)
    (by
      intro c s rest a h
      split at h
      · obtain ⟨_, hw, _⟩ := Outcome.map_eq_ok (Option.some.inj h)
        exact length_of_readWord hw
      · split at h
        · obtain ⟨_, hw, _⟩ := Outcome.map_eq_ok (Option.some.inj h)
          exact length_of_readWord hw
        · simp at h)

/-- Reads a number. -/
def number : Reader Binary64 :=
  byFirst "f64".toList
    (fun c s =>
      if c = '-' then some ((readNumber true s).map Numeral.value)
      else if c.isDigit then some ((readNumber false (c :: s)).map Numeral.value)
      else none)
    (by
      intro c s rest a h
      split at h
      · obtain ⟨_, hn, _⟩ := Outcome.map_eq_ok (Option.some.inj h)
        exact Nat.le_of_lt (length_of_readNumber hn)
      · split at h
        · obtain ⟨_, hn, _⟩ := Outcome.map_eq_ok (Option.some.inj h)
          exact Nat.le_of_lt_succ (length_of_readNumber hn)
        · simp at h)

/-- Reads a text, or null for none. -/
def optionalText : Reader (Option Text) :=
  byFirst "a string".toList
    (fun c s =>
      if c = 'n' then some ((readWord "ull".toList s).map fun _ => none)
      else if c = '"' then some ((readString s).map some)
      else none)
    (by
      intro c s rest a h
      split at h
      · obtain ⟨_, hw, _⟩ := Outcome.map_eq_ok (Option.some.inj h)
        exact length_of_readWord hw
      · split at h
        · obtain ⟨_, hr, _⟩ := Outcome.map_eq_ok (Option.some.inj h)
          exact Nat.le_of_lt (length_of_readString hr)
        · simp at h)

end Reader

/-! ## Lists -/

/-- Whether a list goes on: true in front of a further value, false behind the closing bracket. -/
def moreElements (isFirst : Bool) (s : Text) : Outcome Bool :=
  match skipSpace s with
  | [] => failPeek .endInList []
  | c :: rest =>
    if c = ']' then .ok (false, rest)
    else if isFirst then .ok (true, c :: rest)
    else if c = ',' then
      match skipSpace rest with
      | [] => failPeek .endInValue []
      | d :: behind =>
        if d = ']' then failPeek .trailingComma (d :: behind) else .ok (true, d :: behind)
    else failPeek .expectedListCommaOrEnd (c :: rest)

theorem length_of_moreElements {isFirst more : Bool} {s rest : Text}
    (h : moreElements isFirst s = .ok (more, rest)) : rest.length ≤ s.length := by
  unfold moreElements at h
  split at h
  · simp [failPeek, failAfter] at h
  · next c rest' hs =>
    have hle := length_skipSpace_le s
    rw [hs] at hle
    split at h
    · simp only [Except.ok.injEq, Prod.mk.injEq] at h
      rw [← h.2]
      exact Nat.le_of_succ_le hle
    · split at h
      · simp only [Except.ok.injEq, Prod.mk.injEq] at h
        rw [← h.2]
        exact hle
      · split at h
        · split at h
          · simp [failPeek, failAfter] at h
          · next d behind hd =>
            have hle' := length_skipSpace_le rest'
            rw [hd] at hle'
            split at h
            · simp [failPeek, failAfter] at h
            · simp only [Except.ok.injEq, Prod.mk.injEq] at h
              rw [← h.2]
              exact Nat.le_trans hle' (Nat.le_of_succ_le hle)
        · simp [failPeek, failAfter] at h

/-- Reads the values of a list from behind its opening bracket, or from behind a value. -/
def readElements {α : Type} (r : Reader α) (isFirst : Bool) (s : Text) : Outcome (List α) :=
  match _hm : moreElements isFirst s with
  | .error e => .error e
  | .ok (false, rest) => .ok ([], rest)
  | .ok (true, rest) =>
    match _hr : r.run rest with
    | .error e => .error e
    | .ok (a, rest) =>
      match readElements r false rest with
      | .error e => .error e
      | .ok (as, rest) => .ok (a :: as, rest)
termination_by s.length
decreasing_by
  have := length_of_moreElements _hm
  have := r.progress _hr
  omega

theorem length_of_readElements {α : Type} {r : Reader α} {isFirst : Bool} {s rest : Text}
    {as : List α} (h : readElements r isFirst s = .ok (as, rest)) : rest.length ≤ s.length := by
  fun_induction readElements r isFirst s generalizing as with
  | case1 => simp at h
  | case2 _ _ _ hm =>
    simp only [Except.ok.injEq, Prod.mk.injEq] at h
    rw [← h.2]
    exact length_of_moreElements hm
  | case3 => simp at h
  | case4 => simp at h
  | case5 _ _ _ hm _ _ hr _ _ hrec ih =>
    simp only [Except.ok.injEq, Prod.mk.injEq] at h
    obtain ⟨rfl, rfl⟩ := h
    have := ih hrec
    have := length_of_moreElements hm
    have := r.progress hr
    omega

/-- Reads a list. -/
def Reader.list {α : Type} (r : Reader α) : Reader (List α) :=
  byFirst "a sequence".toList
    (fun c s => if c = '[' then some (readElements r true s) else none)
    (by
      intro c s rest a h
      split at h
      · exact length_of_readElements (Option.some.inj h)
      · simp at h)

end MenuPages.Json
