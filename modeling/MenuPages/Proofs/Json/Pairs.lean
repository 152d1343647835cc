import MenuPages.Proofs.Json.Fields

/-!
# Objects by their keys and values

Any object text, with no regard to what a record asks for: its members are pairs of a key and the
text that the value starts (`Pair`), and what an object says under a key are the values of the pairs
with that key (`valuesOf`).

An object spells a record if it has one value at most under the key of each field, and this one
spells the field (`Document.objectOf`). The converse is shown for records all of whose fields are
texts (`Record.OfTexts`): if an object is read at all, there is one value at most under each of the
keys, and it is a string (`Document.saysOnce`). For that the reader is followed through any object.
It stays in step because a string that is read ends where it ends when it is passed over
(`skipString_of_readString`).
-/

namespace MenuPages.Json

open Text

/-! ## Strings that are read -/

section

variable {s t rest v : Text} {c : Char}

theorem skipString_eq_of_skipEscape (h : skipEscape s = .ok ((), t)) :
    skipString ('\\' :: s) = skipString t := by
  rw [skipString, if_neg (by decide), if_pos rfl]
  split
  · next hescape => simp [h] at hescape
  · next hescape =>
    rw [h] at hescape
    cases hescape
    rfl

theorem skipEscape_of_readFourHex {n : Nat} (h : readFourHex s = .ok (n, t)) :
    skipEscape ('u' :: s) = .ok ((), t) := by
  rw [skipEscape, h]

/-- The second of a pair of surrogates is an escape of its own. -/
theorem skipString_of_readTrailing {lead : Nat} (h : readTrailing lead s = .ok (c, rest)) :
    skipString s = skipString rest := by
  unfold readTrailing at h
  split at h
  · simp [failAt] at h
  · simp [failAt] at h
  · split at h
    · simp at h
    · next hfour =>
      split at h
      · simp only [Except.ok.injEq, Prod.mk.injEq] at h
        rw [← h.2]
        exact skipString_eq_of_skipEscape (skipEscape_of_readFourHex hfour)
      · simp [failAt] at h
  · simp [failAfter] at h
  · simp [failAfter] at h

theorem skipString_of_readEscape (h : readEscape s = .ok (c, rest)) :
    skipString ('\\' :: s) = skipString rest := by
  unfold readEscape at h
  split at h
  · simp [failAt] at h
  · split at h
    · simp at h
    · next hfour =>
      rw [skipString_eq_of_skipEscape (skipEscape_of_readFourHex hfour)]
      split at h
      · simp [failAt] at h
      · split at h
        · exact skipString_of_readTrailing h
        · simp only [Except.ok.injEq, Prod.mk.injEq] at h
          rw [h.2]
  · next e s' hne =>
    split at h
    · next d hletter =>
      simp only [Except.ok.injEq, Prod.mk.injEq] at h
      obtain ⟨rfl, rfl⟩ := h
      refine skipString_eq_of_skipEscape ?_
      rw [skipEscape.eq_def]
      split
      · next heq => cases heq
      · next heq =>
        cases heq
        exact (hne rfl).elim
      · next heq =>
        cases heq
        rw [hletter]
    · simp [failAfter] at h

/-- A string that is read is passed over up to the same place. -/
theorem skipString_of_readString (h : readString s = .ok (v, rest)) :
    skipString s = .ok ((), rest) := by
  fun_induction readString s generalizing v with
  | case1 => simp [failAt] at h
  | case2 s =>
    simp only [Except.ok.injEq, Prod.mk.injEq] at h
    rw [skipString, if_pos rfl, h.2]
  | case3 => simp at h
  | case4 => simp at h
  | case5 s d after he text' rest' hr _ ih =>
    simp only [Except.ok.injEq, Prod.mk.injEq] at h
    obtain ⟨-, rfl⟩ := h
    rw [skipString_of_readEscape he]
    exact ih hr
  | case6 => simp [failAt] at h
  | case7 => simp at h
  | case8 c s hquote hslash hcontrol text' rest' hr ih =>
    simp only [Except.ok.injEq, Prod.mk.injEq] at h
    obtain ⟨-, rfl⟩ := h
    rw [skipString, if_neg hquote, if_neg hslash, if_neg hcontrol]
    exact ih hr

/-- A string that is read as a value ends where the value does. -/
theorem Value.eq_of_readString (h : Value ('"' :: s) rest) (hrest : Stops rest)
    (hread : readString s = .ok (v, t)) : t = rest := by
  have hscalar : skipScalar ('"' :: s) = .ok ((), t) := skipString_of_readString hread
  have hskip := skipValue_scalar (by decide) (ne_opening (by decide)) hscalar []
  rw [h.skipValue_eq hrest, skipBehind, skipBehind] at hskip
  cases hskip
  rfl

theorem Value.spelling_text (h : Value s rest) (hrest : Stops rest)
    (htext : Spelling.text v none s t) : Spelling.text v none s rest := by
  cases htext with
  | quoted hquoted =>
    obtain rfl := h.eq_of_readString hrest hquoted.readString_eq
    exact .quoted hquoted

/-- A value that is read as a text is a string, and what is read ends where the value does. -/
theorem Value.of_text (h : Value t rest) (hrest : Stops rest) (hs : Space s t) {u : Text}
    (hread : Reader.text.run s = .ok (v, u)) : t.head? = some '"' ∧ u = rest := by
  obtain ⟨c, t, rfl, hc⟩ := h.exists_cons
  simp only [Reader.text, byFirst, hs.skipSpace_eq_cons hc.1] at hread
  by_cases hquote : c = '"'
  · subst hquote
    rw [if_pos rfl] at hread
    exact ⟨rfl, h.eq_of_readString hrest hread⟩
  · rw [if_neg hquote] at hread
    exact absurd hread (wrongType_ne_ok _ _ _)

end

/-- A string that stands for a text is a string. -/
theorem Quoted.anyString {v s rest : Text} (h : Quoted v s rest) : AnyString s rest := by
  induction h with
  | close rest => exact .close rest
  | plain hc _ ih => exact .plain hc ih
  | letter he _ ih => exact .letter he ih
  | unit hc _ ih => exact .unit hc ih
  | pair _ hlead htrail _ ih => exact .unit hlead (.unit htrail ih)

/-- A string that is written without escapes. -/
theorem Quoted.unescaped (v : Text) {rest : Text} (hv : v.all IsPlain = true := by decide) :
    Quoted v (v ++ '"' :: rest) rest :=
  quoted_self (by simpa using hv) rest

/-- Such a string is a value. -/
theorem Value.unescaped (v : Text) {rest : Text} (hv : v.all IsPlain = true := by decide) :
    Value ('"' :: (v ++ '"' :: rest)) rest :=
  .string (Quoted.unescaped v hv).anyString

/-! ## Pairs -/

/-- A member of an object: its key, if the key stands for a text, and the text that the value
starts. -/
structure Pair where
  key : Option Text
  value : Text
  deriving DecidableEq

/-- A key, from behind its opening quote. Nothing need be said of what it stands for, and if it has
half a pair of surrogates nothing can be. -/
inductive KeyAt : Option Text → Text → Text → Prop
  | named {key s rest : Text} (h : Quoted key s rest) : KeyAt (some key) s rest
  | unnamed {s rest : Text} (h : AnyString s rest) : KeyAt none s rest

/-- A key and any value. -/
inductive PairAt : Spelling Pair
  | pair {key : Option Text} {s t u v rest : Text} (hkey : KeyAt key s t)
      (ht : Space t (':' :: u)) (hu : Space u v) (h : Value v rest) :
      PairAt ⟨key, v⟩ none ('"' :: s) rest

/-- A key that is written without escapes, and its value right behind the colon. -/
theorem PairAt.unescaped (key : Text) {v rest : Text} (h : Value v rest)
    (hkey : key.all IsPlain = true := by decide) :
    PairAt ⟨some key, v⟩ none ('"' :: (key ++ '"' :: ':' :: v)) rest :=
  .pair (.named (.unescaped key hkey)) (.none _) (.none _) h

/-- What an object says under a key. -/
def valuesOf (key : Text) (ps : List Pair) : List Text :=
  (ps.filter fun p => p.key = some key).map Pair.value

theorem valuesOf_cons (key : Text) (p : Pair) (ps : List Pair) :
    valuesOf key (p :: ps) =
      if p.key = some key then p.value :: valuesOf key ps else valuesOf key ps := by
  rw [valuesOf, List.filter_cons]
  by_cases h : p.key = some key <;> simp [h, valuesOf]

theorem length_valuesOf_cons (key : Text) (p : Pair) (ps : List Pair) :
    (valuesOf key (p :: ps)).length =
      (valuesOf key ps).length + if p.key = some key then 1 else 0 := by
  rw [valuesOf_cons]
  split <;> rfl

/-! ## From pairs to fields -/

section

variable {ρ : Type} {k : Record ρ} {fields : List (RecordField ρ)} {a : ρ} {ps : List Pair}
  {flaw : Option Flaw} {s t rest : Text}

/-- All pairs have keys, and those of fields have values that spell the fields. -/
structure Fill (fields : List (RecordField ρ)) (a : ρ) (ps : List Pair) : Prop where
  named : ∀ p ∈ ps, p.key ≠ none
  spells : ∀ f ∈ fields, ∀ v ∈ valuesOf f.key ps, ∀ rest, Stops rest → Value v rest →
    f.spelling (f.get a) none v rest

theorem Fill.of_cons {p : Pair} (h : Fill fields a (p :: ps)) : Fill fields a ps where
  named := (List.forall_mem_cons.1 h.named).2
  spells f hf v hv := by
    refine h.spells f hf v ?_
    rw [valuesOf_cons]
    split
    · exact List.mem_cons_of_mem _ hv
    · exact hv

theorem Fill.memberOf {p : Pair} (h : Fill fields a (p :: ps)) (hp : PairAt p flaw s rest)
    (hrest : Stops rest) :
    flaw = none ∧ ∃ key, p.key = some key ∧ MemberOf fields a key none s rest := by
  cases hp with
  | @pair key s t u v rest hkey ht hu hvalue =>
    cases hkey with
    | unnamed => exact absurd rfl ((List.forall_mem_cons.1 h.named).1)
    | @named key _ _ hkey =>
      refine ⟨rfl, key, rfl, .pair hkey ht hu ?_⟩
      rw [MemberValue]
      cases hfind : fields.find? (·.key == key) with
      | none => exact ⟨rfl, hvalue⟩
      | some f =>
        obtain rfl : f.key = key := by simpa using List.find?_some hfind
        refine h.spells f (List.mem_of_find?_eq_some hfind) v ?_ rest hrest hvalue
        rw [valuesOf_cons, if_pos rfl]
        exact List.mem_cons_self

/-- Pairs that fill the fields are their members. -/
theorem Items.exists_memberOf (h : Items .object PairAt ps flaw t rest)
    (hfill : Fill fields a ps) :
    flaw = none ∧ ∃ keys : List Text, Items .object (MemberOf fields a) keys none t rest ∧
      ∀ key, keys.count key = (valuesOf key ps).length := by
  induction h with
  | @last p flaw s t rest h ht =>
    obtain ⟨hflaw, key, hkey, hmember⟩ := hfill.memberOf h ht.stops_closing
    refine ⟨hflaw, [key], .last hmember ht, fun other => ?_⟩
    rw [length_valuesOf_cons, hkey, List.count_singleton]
    simp [valuesOf]
  | @more p ps flaw flaw' s t u v rest h ht hu hmore hone ih =>
    obtain ⟨rfl, key, hkey, hmember⟩ := hfill.memberOf h ht.stops_comma
    obtain ⟨rfl, keys, hkeys, hcount⟩ := ih hfill.of_cons
    refine ⟨rfl, key :: keys, .more hmember ht hu hkeys hone, fun other => ?_⟩
    rw [length_valuesOf_cons, hkey, List.count_cons, hcount]
    simp

theorem Bracketed.exists_memberOf (h : Bracketed .object PairAt ps flaw s rest)
    (hfill : Fill fields a ps) :
    ∃ keys : List Text, Bracketed .object (MemberOf fields a) keys none s rest ∧
      ∀ key, keys.count key = (valuesOf key ps).length := by
  cases h with
  | empty h => exact ⟨[], .empty h, fun _ => rfl⟩
  | filled hs h =>
    obtain ⟨-, keys, hkeys, hcount⟩ := h.exists_memberOf hfill
    exact ⟨keys, .filled hs hkeys, hcount⟩

/-- **An object spells a record** if it has one value at most for each field, which spells the
field, and leaves out no field but those that may be left out. -/
theorem Document.objectOf (h : Document (Bracketed .object PairAt) ps none s)
    (hfill : Fill fields a ps) (honce : ∀ f ∈ fields, (valuesOf f.key ps).length ≤ 1)
    (homitted : ∀ f ∈ fields, valuesOf f.key ps = [] → f.default? = some (f.get a)) :
    Document (ObjectOf fields) a none s := by
  obtain ⟨hs, h, hu⟩ := h
  obtain ⟨keys, hkeys, hcount⟩ := h.exists_memberOf hfill
  refine .between hs (.complete hkeys (fun f hf => ?_) fun f hf hkey => ?_) hu
  · rw [hcount]
    exact honce f hf
  · refine homitted f hf (List.length_eq_zero_iff.1 ?_)
    rw [← hcount, List.count_eq_zero.2 hkey]

end

/-! ## From fields to pairs -/

section

variable {ρ : Type} {k : Record ρ} {record : ρ} {found : ρ × List Text} {given : List Text}
  {isFirst : Bool} {key s t u rest : Text} {p : Pair} {flaw : Option Flaw}

/-- All members of the record are texts. -/
def Record.OfTexts (k : Record ρ) : Prop := ∀ m ∈ k.members, ∃ set, m.reader = Reader.text.map set

/-- What a member that is read says of the object: its value ends where the value of the pair does,
and is a string if the key is one of the record's. -/
theorem PairAt.of_read (hk : k.OfTexts) (h : PairAt p flaw ('"' :: s) rest) (hrest : Stops rest)
    (hkey : readString s = .ok (key, t)) {change : ρ → ρ}
    (hvalue : Record.readMemberValue (k.member? key) t = .ok (change, u)) :
    u = rest ∧ (∀ name, p.key = some name → name = key) ∧
      ((k.member? key).isSome → p.value.head? = some '"') := by
  cases h with
  | @pair name _ t' u' v _ hname ht hu h =>
    have hsame : t' = t ∧ ∀ n, name = some n → n = key := by
      cases hname with
      | named hname =>
        rw [hname.readString_eq] at hkey
        cases hkey
        exact ⟨rfl, fun n hn => (Option.some.inj hn).symm⟩
      | unnamed hname =>
        have hskip := skipString_of_readString hkey
        rw [hname.skipString_eq] at hskip
        cases hskip
        exact ⟨rfl, fun n hn => absurd hn.symm (Option.some_ne_none n)⟩
    obtain ⟨rfl, hname⟩ := hsame
    rw [Record.readMemberValue, readColon_eq ht] at hvalue
    cases hmember : k.member? key with
    | none =>
      simp only [hmember, hu.skipValue_eq, h.skipValue_eq hrest, skipBehind, Outcome.map] at hvalue
      cases hvalue
      exact ⟨rfl, hname, fun hsome => absurd hsome Bool.false_ne_true⟩
    | some m =>
      obtain ⟨set, hset⟩ := hk m (List.mem_of_find?_eq_some hmember)
      simp only [hmember, hset] at hvalue
      obtain ⟨_, htext, -⟩ := Outcome.map_eq_ok hvalue
      obtain ⟨hhead, hrest⟩ := h.of_text hrest hu htext
      exact ⟨hrest, hname, fun _ => hhead⟩

/-- What reading the members does with the first of them. -/
theorem exists_of_readMembers (hmore : Record.moreMembers isFirst s = .ok (true, t))
    (hread : k.readMembers isFirst given record s = .ok (found, rest)) :
    ∃ key u change v, readString t = .ok (key, u) ∧
      ((k.member? key).isSome → key ∉ given) ∧
      Record.readMemberValue (k.member? key) u = .ok (change, v) ∧
      k.readMembers false (key :: given) (change record) v = .ok (found, rest) := by
  rw [Record.readMembers] at hread
  split at hread
  · cases hread
  · next he => simp [hmore] at he
  next he =>
  rw [hmore] at he
  cases he
  split at hread
  · cases hread
  next key u hkey =>
  split at hread
  · simp [failAt] at hread
  next hnew =>
  split at hread
  · cases hread
  next change v hvalue =>
  refine ⟨key, u, change, v, hkey, fun hsome hmem => hnew ?_, hvalue, hread⟩
  simp [hsome, hmem]

/-- There is one value at most under a key, a string, and none if the key was given before. -/
structure SaysOnce (key : Text) (given : List Text) (ps : List Pair) : Prop where
  new : key ∈ given → valuesOf key ps = []
  once : (valuesOf key ps).length ≤ 1
  quoted : ∀ v ∈ valuesOf key ps, v.head? = some '"'

theorem saysOnce_nil (key : Text) (given : List Text) : SaysOnce key given [] :=
  ⟨fun _ => rfl, Nat.zero_le 1, nofun⟩

/-- A key that was read is given from then on. -/
theorem SaysOnce.cons {ps : List Pair} {name : Text} (h : SaysOnce key (name :: given) ps)
    (hname : ∀ n, p.key = some n → n = name)
    (hp : p.key = some key → key ∉ given ∧ p.value.head? = some '"') :
    SaysOnce key given (p :: ps) := by
  by_cases hpkey : p.key = some key
  · obtain ⟨hnew, hstring⟩ := hp hpkey
    have hvalues : valuesOf key (p :: ps) = [p.value] := by
      rw [valuesOf_cons, if_pos hpkey, h.new (hname key hpkey ▸ List.mem_cons_self)]
    refine ⟨fun hmem => absurd hmem hnew, by rw [hvalues]; exact Nat.le_refl 1, ?_⟩
    rw [hvalues, List.forall_mem_singleton]
    exact hstring
  · have hvalues : valuesOf key (p :: ps) = valuesOf key ps := by
      rw [valuesOf_cons, if_neg hpkey]
    exact ⟨fun hmem => hvalues ▸ h.new (List.mem_cons_of_mem name hmem), hvalues ▸ h.once,
      hvalues ▸ h.quoted⟩

/-- One pair, and then what the others say. -/
theorem PairAt.saysOnce_cons (hk : k.OfTexts) (h : PairAt p flaw t rest) (hrest : Stops rest)
    (hmore : ∀ u, t = '"' :: u → Record.moreMembers isFirst s = .ok (true, u))
    (hread : k.readMembers isFirst given record s = .ok (found, u))
    (hkey : (k.member? key).isSome) :
    ∃ name next, k.readMembers false (name :: given) next rest = .ok (found, u) ∧
      ∀ ps, SaysOnce key (name :: given) ps → SaysOnce key given (p :: ps) := by
  obtain ⟨t, rfl⟩ : ∃ t', t = '"' :: t' := by
    cases h
    exact ⟨_, rfl⟩
  obtain ⟨name, x, change, y, hname, hnew, hvalue, hnext⟩ :=
    exists_of_readMembers (hmore t rfl) hread
  obtain ⟨rfl, hsame, hstring⟩ := h.of_read hk hrest hname hvalue
  refine ⟨name, change record, hnext, fun ps hps => hps.cons hsame fun hp => ?_⟩
  obtain rfl := hsame key hp
  exact ⟨hnew hkey, hstring hkey⟩

/-- **If the members of an object are read**, there is one value at most under each key of the
record, and it is a string. -/
theorem Items.saysOnce (hk : k.OfTexts) {ps : List Pair} (h : Items .object PairAt ps flaw t rest)
    (hmore : ∀ u, t = '"' :: u → Record.moreMembers isFirst s = .ok (true, u))
    (hread : k.readMembers isFirst given record s = .ok (found, u))
    (hkey : (k.member? key).isSome) : SaysOnce key given ps := by
  induction h generalizing isFirst given record s with
  | last h ht =>
    obtain ⟨name, next, -, hcons⟩ := h.saysOnce_cons hk ht.stops_closing hmore hread hkey
    exact hcons [] (saysOnce_nil key _)
  | @more p ps flaw flaw' t v w x rest h ht hu hmoreItems hone ih =>
    obtain ⟨name, next, hnext, hcons⟩ := h.saysOnce_cons hk ht.stops_comma hmore hread hkey
    refine hcons ps (ih (fun y hy => ?_) hnext)
    rw [hy] at hu
    exact moreMembers_comma ht hu

/-- The same of a whole text. -/
theorem Document.saysOnce (hk : k.OfTexts) {ps : List Pair}
    (h : Document (Bracketed .object PairAt) ps none s) {a : ρ}
    (hread : k.reader.decode s = .ok a) (hkey : (k.member? key).isSome) : SaysOnce key [] ps := by
  obtain ⟨hs, h, -⟩ := h
  obtain ⟨t, rfl⟩ : ∃ t, _ = '{' :: t := h.exists_opening
  have hlist : '{' ≠ '[' := by decide
  have hrun : k.reader.run s = k.readObject t := by
    simp only [Record.reader, byFirst, hs.skipSpace_eq_cons, if_neg hlist, if_true]
  rw [Reader.decode, hrun, Record.readObject] at hread
  cases hmembers : k.readMembers true [] k.blank t with
  | error e =>
    rw [hmembers] at hread
    cases hread
  | ok found =>
    cases h with
    | empty => exact saysOnce_nil key []
    | filled ht h =>
      refine h.saysOnce hk (fun u hu => ?_) hmembers hkey
      rw [hu] at ht
      exact moreMembers_first ht

end

end MenuPages.Json
