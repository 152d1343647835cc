import MenuPages.Json.Reader

/-!
# Records

A record is read from an object, whose members may come in any order, or from a list that holds the
values in the order in which the members are declared. Members that are not required may be left
out; in a list, only at its end. An object may have further members, which are passed over, but none
of its own twice.

Reading starts from a blank record, and each member that is read changes it. So the blank record
holds what is left out stands for.

**Where what is missing is reported.** A record is finished before it is found to lack something:
the fault is behind its closing bracket. A member that comes twice is reported behind its key and
the white space that follows, and behind the closing bracket if that is what follows.
-/

namespace MenuPages.Json

/-- A member of a record. -/
structure Member (ρ : Type) where
  key : Text
  isRequired : Bool
  /-- Reads the value, and gives the change that it makes to the record. -/
  reader : Reader (ρ → ρ)

namespace Member

variable {ρ α : Type}

/-- A member that must be there. -/
def required (key : String) (r : Reader α) (set : α → ρ → ρ) : Member ρ :=
  ⟨key.toList, true, r.map set⟩

/-- A member that may be left out. -/
def optional (key : String) (r : Reader α) (set : α → ρ → ρ) : Member ρ :=
  ⟨key.toList, false, r.map set⟩

end Member

/-- A kind of record. -/
structure Record (ρ : Type) where
  name : Text
  /-- The record before any member is read. -/
  blank : ρ
  /-- The members, in the order in which they are declared. -/
  members : List (Member ρ)

namespace Record

variable {ρ : Type}

/-- What is expected where a record is. -/
def expected (k : Record ρ) : Text := "struct ".toList ++ k.name

/-- What is expected where a record is a list. -/
def expectedLength (k : Record ρ) : Text :=
  k.expected ++ " with ".toList ++ Digits.ofNat k.members.length ++ " elements".toList

/-! ## Records as lists -/

/-- Reads the end of a list that is to hold no further value. -/
def readListEnd (s : Text) : Outcome Unit :=
  match skipSpace s with
  | [] => failPeek .endInList []
  | c :: rest =>
    if c = ']' then .ok ((), rest)
    else if c = ',' then
      match skipSpace rest with
      | [] => failPeek .trailingCharacters []
      | d :: behind =>
        failPeek (if d = ']' then .trailingComma else .trailingCharacters) (d :: behind)
    else failPeek .trailingCharacters (c :: rest)

/-- Reads the values of `members` in order, of which the first is at place `i` of the record. -/
def readValues (k : Record ρ) (i : Nat) (record : ρ) : List (Member ρ) → Text → Outcome ρ
  | [], s => (readListEnd s).map fun _ => record
  | m :: members, s =>
    match moreElements (i == 0) s with
    | .error e => .error e
    | .ok (false, rest) =>
      match (m :: members).findIdx? Member.isRequired with
      | some missing => failAt (.invalidLength (i + missing) k.expectedLength) rest
      | none => .ok (record, rest)
    | .ok (true, rest) =>
      match m.reader.run rest with
      | .error e => .error e
      | .ok (change, rest) => readValues k (i + 1) (change record) members rest

theorem length_of_readListEnd {s rest : Text} {u : Unit} (h : readListEnd s = .ok (u, rest)) :
    rest.length ≤ s.length := by
  unfold readListEnd at h
  split at h
  · simp [failPeek, failAfter] at h
  · next c rest' hs =>
    have hle := length_skipSpace_le s
    rw [hs] at hle
    split at h
    · simp only [Except.ok.injEq, Prod.mk.injEq] at h
      rw [← h.2]
      exact Nat.le_of_succ_le hle
    · split at h
      · split at h <;> simp [failPeek, failAfter] at h
      · simp [failPeek, failAfter] at h

theorem length_of_readValues {k : Record ρ} {i : Nat} {record result : ρ}
    {members : List (Member ρ)} {s rest : Text}
    (h : k.readValues i record members s = .ok (result, rest)) : rest.length ≤ s.length := by
  fun_induction readValues k i record members s with
  | case1 =>
    obtain ⟨_, hend, _⟩ := Outcome.map_eq_ok h
    exact length_of_readListEnd hend
  | case2 => simp at h
  | case3 => simp [failAt] at h
  | case4 _ _ _ _ _ _ hm =>
    simp only [Except.ok.injEq, Prod.mk.injEq] at h
    rw [← h.2]
    exact length_of_moreElements hm
  | case5 => simp at h
  | case6 _ _ m _ _ _ hm _ _ hr ih =>
    have := ih h
    have := length_of_moreElements hm
    have := m.reader.progress hr
    omega

/-! ## Records as objects -/

/-- Whether an object goes on: true behind the opening quote of a further key, false behind the
closing bracket. -/
def moreMembers (isFirst : Bool) (s : Text) : Outcome Bool :=
  match skipSpace s with
  | [] => failPeek .endInObject []
  | c :: rest =>
    if c = '}' then .ok (false, rest)
    else if isFirst then
      if c = '"' then .ok (true, rest) else failPeek .keyNotString (c :: rest)
    else if c = ',' then
      match skipSpace rest with
      | [] => failPeek .endInValue []
      | d :: behind =>
        if d = '"' then .ok (true, behind)
        else failPeek (if d = '}' then .trailingComma else .keyNotString) (d :: behind)
    else failPeek .expectedObjectCommaOrEnd (c :: rest)

/-- What is behind white space and the closing bracket of an object, if it closes here. -/
def afterObjectEnd (s : Text) : Text :=
  match skipSpace s with
  | '}' :: rest => rest
  | rest => rest

/-- The member of a key. -/
def member? (k : Record ρ) (key : Text) : Option (Member ρ) := k.members.find? fun m => m.key == key

/-- Reads the colon and the value behind the key of a member, and gives the change that it makes to
the record. The value of a key that is no member's is passed over. -/
def readMemberValue (m : Option (Member ρ)) (s : Text) : Outcome (ρ → ρ) :=
  match readColon s with
  | .error e => .error e
  | .ok (_, rest) =>
    match m with
    | some m => m.reader.run rest
    | none => (skipValue [] rest).map fun _ => id

theorem length_of_moreMembers {isFirst more : Bool} {s rest : Text}
    (h : moreMembers isFirst s = .ok (more, rest)) : rest.length ≤ s.length := by
  unfold moreMembers at h
  split at h
  · simp [failPeek, failAfter] at h
  · next c rest' hs =>
    have hle := length_skipSpace_le s
    rw [hs] at hle
    split at h
    · simp only [Except.ok.injEq, Prod.mk.injEq] at h
      rw [← h.2]
      exact Nat.le_of_succ_le hle
    · split at h
      · split at h
        · simp only [Except.ok.injEq, Prod.mk.injEq] at h
          rw [← h.2]
          exact Nat.le_of_succ_le hle
        · simp [failPeek, failAfter] at h
      · split at h
        · split at h
          · simp [failPeek, failAfter] at h
          · next d behind hd =>
            have hle' := length_skipSpace_le rest'
            rw [hd, List.length_cons] at hle'
            split at h
            · simp only [Except.ok.injEq, Prod.mk.injEq] at h
              rw [← h.2]
              rw [List.length_cons] at hle
              omega
            · simp [failPeek, failAfter] at h
        · simp [failPeek, failAfter] at h

theorem length_of_readMemberValue {m : Option (Member ρ)} {s rest : Text} {change : ρ → ρ}
    (h : readMemberValue m s = .ok (change, rest)) : rest.length < s.length := by
  unfold readMemberValue at h
  split at h
  · simp at h
  · next hc =>
    have := length_of_readColon hc
    split at h
    · next m =>
      have := m.reader.progress h
      omega
    · obtain ⟨_, hs, _⟩ := Outcome.map_eq_ok h
      have := length_of_skipValue hs
      omega

/-- Reads the members of an object from behind its opening bracket, or from behind a member: the
record, and all keys. `given` holds the keys that were read before. -/
def readMembers (k : Record ρ) (isFirst : Bool) (given : List Text) (record : ρ) (s : Text) :
    Outcome (ρ × List Text) :=
  match _hm : moreMembers isFirst s with
  | .error e => .error e
  | .ok (false, rest) => .ok ((record, given), rest)
  | .ok (true, keyed) =>
    match _hk : readString keyed with
    | .error e => .error e
    | .ok (key, rest) =>
      if (k.member? key).isSome && given.contains key then
        failAt (.duplicateField key) (afterObjectEnd rest)
      else
        match _hv : readMemberValue (k.member? key) rest with
        | .error e => .error e
        | .ok (change, rest) => readMembers k false (key :: given) (change record) rest
termination_by s.length
decreasing_by
  have := length_of_moreMembers _hm
  have := length_of_readString _hk
  have := length_of_readMemberValue _hv
  omega

theorem length_of_readMembers {k : Record ρ} {isFirst : Bool} {given : List Text} {record : ρ}
    {s rest : Text} {found : ρ × List Text}
    (h : k.readMembers isFirst given record s = .ok (found, rest)) : rest.length ≤ s.length := by
  fun_induction readMembers k isFirst given record s with
  | case1 => simp at h
  | case2 _ _ _ _ _ hm =>
    simp only [Except.ok.injEq, Prod.mk.injEq] at h
    rw [← h.2]
    exact length_of_moreMembers hm
  | case3 => simp at h
  | case4 => simp [failAt] at h
  | case5 => simp at h
  | case6 _ _ _ _ _ hm _ _ hk _ _ _ hv ih =>
    have := ih h
    have := length_of_moreMembers hm
    have := length_of_readString hk
    have := length_of_readMemberValue hv
    omega

/-- Reads a record from behind the opening bracket of an object. -/
def readObject (k : Record ρ) (s : Text) : Outcome ρ :=
  match k.readMembers true [] k.blank s with
  | .error e => .error e
  | .ok ((record, given), rest) =>
    match k.members.find? fun m => m.isRequired && !given.contains m.key with
    | some m => failAt (.missingField m.key) rest
    | none => .ok (record, rest)

theorem length_of_readObject {k : Record ρ} {s rest : Text} {record : ρ}
    (h : k.readObject s = .ok (record, rest)) : rest.length ≤ s.length := by
  unfold readObject at h
  split at h
  · simp at h
  · next hm =>
    split at h
    · simp [failAt] at h
    · simp only [Except.ok.injEq, Prod.mk.injEq] at h
      rw [← h.2]
      exact length_of_readMembers hm

/-! ## Records -/

/-- Reads a record. -/
def reader (k : Record ρ) : Reader ρ :=
  byFirst k.expected
    (fun c s =>
      if c = '[' then some (k.readValues 0 k.blank k.members s)
      else if c = '{' then some (k.readObject s)
      else none)
    (by
      intro c s rest a h
      split at h
      · exact length_of_readValues (Option.some.inj h)
      · split at h
        · exact length_of_readObject (Option.some.inj h)
        · simp at h)

end Record

/-! ## Whole texts -/

/-- Reads a text that holds one value and nothing else. -/
def Reader.decode {α : Type} (r : Reader α) (source : Text) : Except Fault α :=
  match r.run source with
  | .error e => .error e
  | .ok (a, rest) =>
    match skipSpace rest with
    | [] => .ok a
    | c :: behind => failPeek .trailingCharacters (c :: behind)

end MenuPages.Json
