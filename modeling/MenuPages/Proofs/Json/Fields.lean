import MenuPages.Json.Record
import MenuPages.Proofs.Json.Spelling

/-!
# Records as objects

A record is spelled by an object that has a member for each field, in any order, and perhaps members
with other keys and any values (`ObjectOf`). A field that has the value that it stands for if it is
left out may be left out. An object that lacks fields that must be there is flawed, and its flaw is
the first of them in the order of the fields.

What a record is, is said by its fields (`RecordField`), without reading anything. A `Record`, which
says how it is read, fits these fields (`Record.Describes`) if its members have the same keys in the
same order, understand the spellings of the fields, and change the field they are for and no other.
It is then shown once that such a record is read from all of its spellings: while members are read,
each field has either its value or that of the blank record, according to the keys that were given
(`Holds`).
-/

namespace MenuPages.Json

/-- A field of a record. -/
structure RecordField (ρ : Type) where
  {α : Type}
  key : Text
  get : ρ → α
  /-- What it stands for to leave the field out, if that is allowed. -/
  default? : Option α
  spelling : Spelling α

variable {ρ : Type}

/-! ## Objects -/

/-- The value of a member: that of the field with this key, or any value if there is none. -/
def MemberValue (fields : List (RecordField ρ)) (a : ρ) (key : Text) (flaw : Option Flaw)
    (s rest : Text) : Prop :=
  match fields.find? (·.key == key) with
  | some f => f.spelling (f.get a) flaw s rest
  | none => flaw = none ∧ Value s rest

/-- A member with this key. -/
inductive MemberOf (fields : List (RecordField ρ)) (a : ρ) : Spelling Text
  | pair {key : Text} {flaw : Option Flaw} {s t u v rest : Text} (hkey : Quoted key s t)
      (ht : Space t (':' :: u)) (hu : Space u v) (h : MemberValue fields a key flaw v rest) :
      MemberOf fields a key flaw ('"' :: s) rest

/-- A key that stands for itself, and its value right behind the colon. -/
theorem MemberOf.plain {fields : List (RecordField ρ)} {a : ρ} (key : Text) {flaw : Option Flaw}
    {s rest : Text} (h : MemberValue fields a key flaw s rest)
    (hkey : key.all IsPlain = true := by decide) :
    MemberOf fields a key flaw ('"' :: (key ++ '"' :: ':' :: s)) rest :=
  .pair (quoted_self (by simpa using hkey) _) (.none _) (.none _) h

/-- The first field that must be there and is not. -/
def missing? (fields : List (RecordField ρ)) (keys : List Text) : Option (RecordField ρ) :=
  fields.find? fun f => f.default?.isNone && !keys.contains f.key

/-- An object that spells a record. No field is given twice. -/
inductive ObjectOf (fields : List (RecordField ρ)) : Spelling ρ
  | complete {a : ρ} {keys : List Text} {flaw : Option Flaw} {s rest : Text}
      (h : Bracketed .object (MemberOf fields a) keys flaw s rest)
      (honce : ∀ f ∈ fields, keys.count f.key ≤ 1)
      (homitted : ∀ f ∈ fields, f.key ∉ keys → f.default? = some (f.get a)) :
      ObjectOf fields a flaw s rest
  | lacking {a : ρ} {keys : List Text} {f : RecordField ρ} {s rest : Text}
      (h : Bracketed .object (MemberOf fields a) keys none s rest)
      (honce : ∀ f ∈ fields, keys.count f.key ≤ 1) (hmissing : missing? fields keys = some f) :
      ObjectOf fields a (some ⟨f.key, rest⟩) s rest

/-! ## Records that fit -/

/-- A member reads the field, and changes nothing but it. -/
structure Fits (fields : List (RecordField ρ)) (f : RecordField ρ) (m : Member ρ) : Prop where
  key_eq : m.key = f.key
  isRequired_eq : m.isRequired = f.default?.isNone
  run_eq {a : ρ} {flaw : Option Flaw} {s t rest : Text} (hs : Space s t)
    (h : f.spelling (f.get a) flaw t rest) (hrest : Stops rest) :
    ∃ change, m.reader.run s = outcome change flaw rest ∧ (∀ r, f.get (change r) = f.get a) ∧
      ∀ r, ∀ g ∈ fields, g.key ≠ f.key → g.get (change r) = g.get r

/-- A kind of record has these fields. -/
structure Record.Describes (k : Record ρ) (fields : List (RecordField ρ)) : Prop where
  fits : List.Forall₂ (Fits fields) fields k.members
  nodup_keys : (fields.map RecordField.key).Nodup
  /-- What may be left out stands for what is in the blank record. -/
  blank : ∀ f ∈ fields, f.default? = none ∨ f.default? = some (f.get k.blank)
  ext {r a : ρ} (h : ∀ f ∈ fields, f.get r = f.get a) : r = a

theorem outcome_map {α β : Type} (g : α → β) (a : α) (flaw : Option Flaw) (rest : Text) :
    Outcome.map g (outcome a flaw rest) = outcome (g a) flaw rest := by
  cases flaw <;> rfl

/-- A member fits the field that it sets, if its reader understands the field's spellings. -/
theorem Reads.fits {α : Type} {fields : List (RecordField ρ)} {r : Reader α} {S : Spelling α}
    (hr : Reads r S) {key : Text} {get : ρ → α} {default? : Option α} {set : α → ρ → ρ}
    (hget : ∀ x record, get (set x record) = x)
    (hframe : ∀ x record, ∀ g ∈ fields, g.key ≠ key → g.get (set x record) = g.get record) :
    Fits fields ⟨key, get, default?, S⟩ ⟨key, default?.isNone, r.map set⟩ where
  key_eq := rfl
  isRequired_eq := rfl
  run_eq {a flaw s t rest} hs h hrest := by
    refine ⟨set (get a), ?_, hget (get a), hframe (get a)⟩
    rw [← outcome_map, ← hr.run_eq hs h hrest]
    rfl

/-- While members are read, a field has its value if its key was given, and else that of the blank
record. -/
def Holds (fields : List (RecordField ρ)) (a blank : ρ) (given : List Text) (record : ρ) : Prop :=
  ∀ f ∈ fields, f.get record = if f.key ∈ given then f.get a else f.get blank

theorem forall₂_find? {α β : Type*} {R : α → β → Prop} {p : α → Bool} {q : β → Bool} {l : List α}
    {l' : List β} (h : List.Forall₂ R l l') (hpq : ∀ {x y}, R x y → p x = q y) :
    Option.Rel R (l.find? p) (l'.find? q) := by
  induction h with
  | nil => exact .none
  | @cons x y _ _ hxy _ ih =>
    rw [List.find?_cons, List.find?_cons, hpq hxy]
    cases q y with
    | true => exact .some hxy
    | false => exact ih

section

variable {k : Record ρ} {fields : List (RecordField ρ)} {a record : ρ} {key : Text}
  {given : List Text} {flaw : Option Flaw} {s t u v rest : Text}

/-! ## One member -/

theorem readColon_eq (h : Space s (':' :: t)) : readColon s = .ok ((), t) := by
  rw [readColon, h.skipSpace_eq_cons]
  exact if_pos rfl

theorem holds_blank (k : Record ρ) (fields : List (RecordField ρ)) (a : ρ) :
    Holds fields a k.blank [] k.blank :=
  fun _ _ => (if_neg (List.not_mem_nil)).symm

/-- A key of no field changes nothing. -/
theorem Holds.other (h : Holds fields a k.blank given record)
    (hother : ∀ f ∈ fields, f.key ≠ key) : Holds fields a k.blank (key :: given) record := by
  intro f hf
  rw [h f hf]
  simp only [List.mem_cons, hother f hf, false_or]

/-- The key of a field changes this field and no other. -/
theorem Holds.change (hk : k.Describes fields) (h : Holds fields a k.blank given record)
    {f : RecordField ρ} (hf : f ∈ fields) (change : ρ → ρ) (hget : f.get (change record) = f.get a)
    (hframe : ∀ g ∈ fields, g.key ≠ f.key → g.get (change record) = g.get record) :
    Holds fields a k.blank (f.key :: given) (change record) := by
  intro g hg
  by_cases hkey : g.key = f.key
  · obtain rfl := List.inj_on_of_nodup_map hk.nodup_keys hg hf hkey
    rw [hget, if_pos List.mem_cons_self]
  · rw [hframe g hg hkey, h g hg]
    simp only [List.mem_cons, hkey, false_or]

theorem MemberValue.read (hk : k.Describes fields) (h : MemberValue fields a key flaw t rest)
    (hs : Space s t) (hrest : Stops rest) (hu : Space u (':' :: s)) :
    ∃ change, Record.readMemberValue (k.member? key) u = outcome change flaw rest ∧
      ∀ {given record}, Holds fields a k.blank given record →
        Holds fields a k.blank (key :: given) (change record) := by
  have hmember : Option.Rel (Fits fields) (fields.find? (·.key == key)) (k.member? key) :=
    forall₂_find? hk.fits fun {f m} hfit => by rw [hfit.key_eq]
  rw [MemberValue] at h
  generalize hfind : fields.find? (·.key == key) = found at h hmember
  generalize k.member? key = m at hmember
  cases hmember with
  | none =>
    obtain ⟨rfl, hvalue⟩ := h
    refine ⟨id, ?_, fun hholds => hholds.other fun f hf hkey => ?_⟩
    · rw [Record.readMemberValue, readColon_eq hu]
      simp only [hs.skipValue_eq, hvalue.skipValue_eq hrest, skipBehind]
      rfl
    · simpa [hkey] using List.find?_eq_none.mp hfind f hf
  | @some f m hfit =>
    obtain ⟨change, hread, hget, hframe⟩ := hfit.run_eq hs h hrest
    obtain rfl : f.key = key := by simpa using List.find?_some hfind
    refine ⟨change, ?_, fun {given record} hholds => ?_⟩
    · rw [Record.readMemberValue, readColon_eq hu]
      exact hread
    · exact hholds.change hk (List.mem_of_find?_eq_some hfind) change (hget record) (hframe record)

/-! ## All members -/

theorem moreMembers_first (h : Space s ('"' :: t)) : Record.moreMembers true s = .ok (true, t) := by
  rw [Record.moreMembers, h.skipSpace_eq_cons]
  rfl

theorem moreMembers_comma (hs : Space s (',' :: t)) (ht : Space t ('"' :: u)) :
    Record.moreMembers false s = .ok (true, u) := by
  simp only [Record.moreMembers, hs.skipSpace_eq_cons, ht.skipSpace_eq_cons]
  rfl

theorem moreMembers_closing (h : Space s ('}' :: rest)) (isFirst : Bool) :
    Record.moreMembers isFirst s = .ok (false, rest) := by
  rw [Record.moreMembers, h.skipSpace_eq_cons]
  rfl

theorem readMembers_closing (h : Space s ('}' :: rest)) (isFirst : Bool) :
    k.readMembers isFirst given record s = .ok ((record, given), rest) := by
  rw [Record.readMembers]
  split
  · next he => simp [moreMembers_closing h] at he
  · next he =>
    rw [moreMembers_closing h] at he
    cases he
    rfl
  · next he => simp [moreMembers_closing h] at he

/-- One member, and then what the others give. -/
theorem readMembers_member (record : ρ) {isFirst : Bool} {change : ρ → ρ}
    (hmore : Record.moreMembers isFirst s = .ok (true, t)) (hkey : readString t = .ok (key, u))
    (hnew : ((k.member? key).isSome && given.contains key) = false)
    (hvalue : Record.readMemberValue (k.member? key) u = outcome change flaw v) :
    k.readMembers isFirst given record s =
      match flaw with
      | none => k.readMembers false (key :: given) (change record) v
      | some flaw => failAt (.missingField flaw.missing) flaw.behind := by
  rw [Record.readMembers]
  split
  · next he => simp [hmore] at he
  · next he => simp [hmore] at he
  next he =>
  rw [hmore] at he
  cases he
  split
  · next he => simp [hkey] at he
  next he =>
  rw [hkey] at he
  cases he
  rw [hnew, if_neg Bool.false_ne_true]
  split
  · next he =>
    rw [hvalue] at he
    cases flaw with
    | none => cases he
    | some flaw =>
      cases he
      rfl
  · next he =>
    rw [hvalue] at he
    cases flaw with
    | none =>
      cases he
      rfl
    | some flaw => cases he

/-- The keys that members may still have: no field comes twice. -/
theorem isNew_of_count (hk : k.Describes fields) {keys : List Text}
    (honce : ∀ f ∈ fields, given.count f.key + (key :: keys).count f.key ≤ 1) :
    ((k.member? key).isSome && given.contains key) = false := by
  have hmember : Option.Rel (Fits fields) (fields.find? (·.key == key)) (k.member? key) :=
    forall₂_find? hk.fits fun {f m} hfit => by rw [hfit.key_eq]
  generalize hfind : fields.find? (·.key == key) = found at hmember
  generalize k.member? key = m at hmember
  cases hmember with
  | none => rfl
  | @some f _ _ =>
    obtain rfl : f.key = key := by simpa using List.find?_some hfind
    have hcount := honce f (List.mem_of_find?_eq_some hfind)
    rw [List.count_cons_self] at hcount
    have hnot : f.key ∉ given := List.count_eq_zero.mp (by omega)
    simpa using hnot

theorem Items.readMembers_eq (hk : k.Describes fields) {keys : List Text}
    (h : Items .object (MemberOf fields a) keys flaw t rest) (hrest : Stops rest) {isFirst : Bool}
    (hmore : ∀ u, t = '"' :: u → Record.moreMembers isFirst s = .ok (true, u))
    (honce : ∀ f ∈ fields, given.count f.key + keys.count f.key ≤ 1)
    (hholds : Holds fields a k.blank given record) :
    ∃ record', k.readMembers isFirst given record s =
        outcome (record', keys.reverse ++ given) flaw rest ∧
      (flaw = none → Holds fields a k.blank (keys.reverse ++ given) record') := by
  induction h generalizing isFirst given record s with
  | @last key flaw t u rest h hu =>
    cases h with
    | pair hkey ht hv h =>
      obtain ⟨change, hread, hchange⟩ := h.read hk hv hu.stops_closing ht
      refine ⟨change record, ?_, fun _ => hchange hholds⟩
      rw [readMembers_member _ (hmore _ rfl) hkey.readString_eq (isNew_of_count hk honce) hread]
      cases flaw with
      | none => exact readMembers_closing hu false
      | some flaw => rfl
  | @more key keys flaw flaw' t u v w rest h hu hv hmoreItems hone ih =>
    cases h with
    | pair hkey ht hx h =>
      obtain ⟨change, hread, hchange⟩ := h.read hk hx hu.stops_comma ht
      have hstep :=
        readMembers_member record (hmore _ rfl) hkey.readString_eq (isNew_of_count hk honce) hread
      cases flaw with
      | none =>
        have honce' : ∀ f ∈ fields, (key :: given).count f.key + keys.count f.key ≤ 1 := by
          intro f hf
          have hcount := honce f hf
          rw [List.count_cons] at hcount ⊢
          omega
        have hnext : ∀ x, w = '"' :: x → Record.moreMembers false u = .ok (true, x) := by
          rintro x rfl
          exact moreMembers_comma hu hv
        obtain ⟨record', hrest', hholds'⟩ := ih hrest hnext honce' (hchange hholds)
        rw [List.reverse_cons, List.append_assoc, Option.none_or]
        exact ⟨record', hstep.trans hrest', hholds'⟩
      | some flaw => exact ⟨record, hstep, nofun⟩

/-! ## Objects -/

/-- The members between the brackets of an object. -/
theorem Bracketed.readMembers_eq (hk : k.Describes fields) {keys : List Text}
    (h : Bracketed .object (MemberOf fields a) keys flaw ('{' :: s) rest) (hrest : Stops rest)
    (honce : ∀ f ∈ fields, keys.count f.key ≤ 1) :
    ∃ record, k.readMembers true [] k.blank s = outcome (record, keys.reverse) flaw rest ∧
      (flaw = none → Holds fields a k.blank keys.reverse record) := by
  cases h with
  | empty h => exact ⟨k.blank, readMembers_closing h true, fun _ => holds_blank k fields a⟩
  | @filled _ _ _ t _ hs h =>
    have hfirst : ∀ u, t = '"' :: u → Record.moreMembers true s = .ok (true, u) := by
      rintro u rfl
      exact moreMembers_first hs
    have hread := h.readMembers_eq hk hrest hfirst (by simpa using honce) (holds_blank k fields a)
    rwa [List.append_nil] at hread

/-- What is missing of the fields is what is missing of the members. -/
theorem missing_eq (hk : k.Describes fields) (keys : List Text) :
    (k.members.find? fun m => m.isRequired && !keys.reverse.contains m.key).map Member.key =
      (missing? fields keys).map RecordField.key := by
  have hrel : Option.Rel (Fits fields) (missing? fields keys)
      (k.members.find? fun m => m.isRequired && !keys.reverse.contains m.key) :=
    forall₂_find? hk.fits fun {f m} hfit => by
      rw [hfit.key_eq, hfit.isRequired_eq, List.contains_reverse]
  generalize missing? fields keys = f at hrel
  generalize (k.members.find? fun m => m.isRequired && !keys.reverse.contains m.key) = m at hrel
  cases hrel with
  | none => rfl
  | some hfit => exact congrArg some hfit.key_eq

/-- If what is left out is what this stands for, what was read is the record. -/
theorem Holds.eq_of_omitted (hk : k.Describes fields) {keys : List Text}
    (h : Holds fields a k.blank keys.reverse record)
    (homitted : ∀ f ∈ fields, f.key ∉ keys → f.default? = some (f.get a)) : record = a := by
  apply hk.ext
  intro f hf
  rw [h f hf]
  split
  · rfl
  · next hkey =>
    rw [List.mem_reverse] at hkey
    have hdefault := homitted f hf hkey
    rcases hk.blank f hf with hnone | hblank
    · simp [hnone] at hdefault
    · exact Option.some.inj (hblank.symm.trans hdefault)

theorem missing_eq_none {keys : List Text}
    (homitted : ∀ f ∈ fields, f.key ∉ keys → f.default? = some (f.get a)) :
    missing? fields keys = none := by
  rw [missing?, List.find?_eq_none]
  intro f hf
  by_cases hkey : f.key ∈ keys
  · simp [hkey]
  · simp [homitted f hf hkey]

theorem ObjectOf.readObject_eq (hk : k.Describes fields)
    (h : ObjectOf fields a flaw ('{' :: s) rest) (hrest : Stops rest) :
    k.readObject s = outcome a flaw rest := by
  cases h with
  | @complete _ keys _ _ _ h honce homitted =>
    obtain ⟨record, hread, hholds⟩ := h.readMembers_eq hk hrest honce
    rw [Record.readObject, hread]
    cases flaw with
    | some flaw => rfl
    | none =>
      have hmissing := missing_eq hk keys
      rw [missing_eq_none homitted, Option.map_none, Option.map_eq_none_iff] at hmissing
      simp only [outcome, hmissing, (hholds rfl).eq_of_omitted hk homitted]
  | @lacking _ keys f _ _ h honce hmissing =>
    obtain ⟨record, hread, -⟩ := h.readMembers_eq hk hrest honce
    rw [Record.readObject, hread]
    have hkey := missing_eq hk keys
    rw [hmissing, Option.map_some, Option.map_eq_some_iff] at hkey
    obtain ⟨m, hm, hkey⟩ := hkey
    simp only [outcome, hm, hkey]

theorem Bracketed.exists_opening {ι : Type} {c : Container} {S : Spelling ι} {is : List ι}
    (h : Bracketed c S is flaw s rest) : ∃ t, s = c.opening :: t := by
  cases h with
  | empty => exact ⟨_, rfl⟩
  | filled => exact ⟨_, rfl⟩

theorem ObjectOf.exists_opening (h : ObjectOf fields a flaw s rest) : ∃ t, s = '{' :: t := by
  cases h with
  | complete h => exact h.exists_opening
  | lacking h => exact h.exists_opening

/-- A record is read from all objects that spell it, and of one that lacks fields the first missing
one is reported, behind the object. -/
theorem reads_object (hk : k.Describes fields) : Reads k.reader (ObjectOf fields) where
  starts h := by
    obtain ⟨t, rfl⟩ := h.exists_opening
    exact ⟨'{', t, rfl, by decide⟩
  run_eq {a flaw s t rest} hs h hrest := by
    obtain ⟨t, rfl⟩ := h.exists_opening
    have hlist : '{' ≠ '[' := by decide
    simp only [Record.reader, byFirst, hs.skipSpace_eq_cons, if_neg hlist, if_true]
    exact h.readObject_eq hk hrest

end

/-! ## Whole texts -/

section

variable {α : Type} {r : Reader α} {S : Spelling α}

/-- A text that spells one value and nothing else, between white space. -/
inductive Document (S : Spelling α) (a : α) (flaw : Option Flaw) : Text → Prop
  | between {s t u : Text} (hs : Space s t) (h : S a flaw t u) (hu : Space u []) :
      Document S a flaw s

theorem Document.decode_eq (hr : Reads r S) {a : α} {flaw : Option Flaw} {s : Text}
    (h : Document S a flaw s) :
    r.decode s =
      match flaw with
      | none => .ok a
      | some flaw => failAt (.missingField flaw.missing) flaw.behind := by
  cases h with
  | between hs h hu =>
    rw [Reader.decode, hr.run_eq hs h (hu.stops stops_nil)]
    cases flaw with
    | some flaw => rfl
    | none => simp only [outcome, hu.skipSpace_eq]; rfl

end

end MenuPages.Json
