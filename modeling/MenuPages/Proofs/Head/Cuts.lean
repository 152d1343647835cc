import Mathlib.Data.List.Find
import MenuPages.Proofs.Head.Scanning
import MenuPages.Proofs.Markup.Escaping
import MenuPages.Proofs.Text.Offsets

/-!
# Reading head elements by cuts

The scan of `Head.elements` takes a text apart character by character and asks one question apart:
whether a tag name would be cut inside a character (`cutsCharacter`). Here the same is read by cuts
at offsets in bytes, any of which may fault: gaps, references, attributes, tags, and raw text, whose
end tag is searched for among the bytes without regard to case.

**The law** (`readElement_eq`): where the scan stands, what is read by cuts is what the scan finds,
and the only fault is the one that is asked for apart. Each reader has an equation with what it
reads of the characters, which is shown right behind it, since the loops (`readGap`,
`decodeReferences`, `readAttributes`) end only because their readers leave less than they are given.
The fault comes in with `readStartTag_link` alone: of the names that the scan knows, only `link` has
a `k`.
-/

namespace MenuPages.Head

open Text Text.Reading

/-! ## Gaps -/

/-- Reads a comment. A comment that is never closed runs to the end. -/
def readComment (s : Text) : Reading Text := do
  let inside ← readWord "<!--".toList s
  (do
    let (_, s) ← readUpTo "-->".toList inside
    readWord "-->".toList s) <|>
  (do
    let (_, s) ← cutAt inside.byteCount inside
    return s)

theorem readComment_eq (s : Text) : readComment s = of (afterComment? s) := by
  rw [readComment, readWord_eq (by decide) (by decide), afterComment?]
  cases afterWord? "<!--".toList s with
  | none => rfl
  | some inside =>
    rw [of_some_bind, readUpTo_eq (by decide) (by decide) (by decide), cutAt_byteCount,
      Option.map_some]
    cases breakAt? "-->".toList inside with
    | none => rfl
    | some parts =>
      have hend : readWord "-->".toList ("-->".toList ++ parts.2) = of (some parts.2) :=
        readWord_append (by decide) parts.2
      simp only [Option.map_some, of_some_bind, hend, of_some_or]

/-- Reads a comment or plain space. -/
def readGapPiece (s : Text) : Reading Text :=
  readComment s <|> (do
    let (_, s) ← readMany1 isPlainSpace s
    return s)

theorem readGapPiece_eq (s : Text) :
    readGapPiece s = of ((afterComment? s).or
      (if (s.takeWhile isPlainSpace).isEmpty then none else some (s.dropWhile isPlainSpace))) := by
  rw [readGapPiece, readComment_eq, readMany1_eq]
  cases afterComment? s with
  | some rest => rfl
  | none => split <;> rfl

theorem length_of_readGapPiece {s rest : Text} (h : (readGapPiece s).run = .ok (some rest)) :
    rest.length < s.length := by
  rw [readGapPiece_eq] at h
  rcases Option.or_eq_some_iff.1 (Except.ok.inj h) with hcomment | ⟨-, hspace⟩
  · exact length_of_afterComment? hcomment
  · split at hspace
    · cases hspace
    · next hne =>
      obtain rfl := Option.some.inj hspace
      have hlen := congrArg List.length (@List.takeWhile_append_dropWhile _ isPlainSpace s)
      rw [List.length_append] at hlen
      rw [List.isEmpty_iff, ← List.length_eq_zero_iff] at hne
      omega

/-- Reads comments and plain space, in any number. -/
def readGap (s : Text) : Except CutFault Text :=
  match _h : (readGapPiece s).run with
  | .ok (some rest) => readGap rest
  | .ok none => .ok s
  | .error f => .error f
termination_by s.length
decreasing_by exact length_of_readGapPiece _h

theorem readGap_eq (s : Text) : readGap s = .ok (skipGap s) := by
  fun_induction readGap s with
  | case1 s rest h ih =>
    rw [ih]
    rw [readGapPiece_eq] at h
    rcases Option.or_eq_some_iff.1 (Except.ok.inj h) with hcomment | ⟨-, hspace⟩
    · rw [skipGap_of_afterComment? hcomment]
    · split at hspace
      · cases hspace
      · obtain rfl := Option.some.inj hspace
        rw [← skipGap_append (fun c hc => List.mem_takeWhile_imp hc),
          List.takeWhile_append_dropWhile]
  | case2 s h =>
    rw [readGapPiece_eq] at h
    obtain ⟨hcomment, hspace⟩ := Option.or_eq_none_iff.1 (Except.ok.inj h)
    cases s with
    | nil => rw [skipGap_nil]
    | cons c s =>
      rw [skipGap_cons hcomment, if_neg]
      intro hc
      rw [List.takeWhile_cons_of_pos hc] at hspace
      cases hspace
  | case3 s f h =>
    rw [readGapPiece_eq] at h
    cases h

/-! ## Values -/

/-- Reads up to the next `&`, and the reference there or the `&` alone. The result is what they
stand for and what is behind them. -/
def readReference (s : Text) : Reading (Text × Text) :=
  match offsetWhere? (· == '&') s with
  | none => failure
  | some offset => do
    let (before, s) ← cutAt offset s
    match Markup.references.find? fun r => (encode r.1).isPrefixOf (encode s) with
    | some (entity, c) =>
      let (_, rest) ← cutAt entity.byteCount s
      return (before ++ [c], rest)
    | none =>
      let (_, rest) ← cutAt 1 s
      return (before ++ ['&'], rest)

/-- The bytes of a text start with those of the same reference as its characters. -/
theorem find?_isPrefixOf_encode (s : Text) :
    (Markup.references.find? fun r => (encode r.1).isPrefixOf (encode s)) =
      Markup.references.find? fun r => r.1.isPrefixOf s := by
  refine List.find?_congr fun r hr => ?_
  have hascii : ∀ r ∈ Markup.references, Ascii r.1 := by decide
  rw [Bool.eq_iff_iff, List.isPrefixOf_iff_prefix, List.isPrefixOf_iff_prefix,
    encode_prefix_encode_iff (hascii r hr)]

/-- Without an `&` the text says what it says, and else some of it is read and the rest is left. -/
theorem exists_readReference (s : Text) : ∃ o, readReference s = of o ∧
    (o = none → Markup.decode s = s) ∧
    ∀ written rest, o = some (written, rest) →
      rest.length < s.length ∧ Markup.decode s = written ++ Markup.decode rest := by
  rcases offsetWhere?_cases (· == '&') s with ⟨hnone, hall⟩ | ⟨a, c, b, rfl, ha, hc, hsome⟩
  · have hnot : '&' ∉ s := fun h => absurd (hall '&' h) (by decide)
    refine ⟨none, by rw [readReference, hnone, failure_eq], fun _ => Markup.decode_eq_self hnot, ?_⟩
    intro _ _ h
    cases h
  · obtain rfl := beq_iff_eq.1 hc
    have hnot : '&' ∉ a := fun h => absurd (ha '&' h) (by decide)
    rw [readReference, hsome, Markup.decode_append_of_notMem hnot]
    simp only [cutAt_append, liftM_ok, of_some_bind, find?_isPrefixOf_encode]
    cases hfind : Markup.references.find? fun r => r.1.isPrefixOf ('&' :: b) with
    | some r =>
      have hfront : r.1.isPrefixOf ('&' :: b) = true := by
        simpa using List.find?_some hfind
      obtain ⟨rest, hrest⟩ := List.isPrefixOf_iff_prefix.1 hfront
      have hne : ∀ r ∈ Markup.references, r.1 ≠ [] := by decide
      have hentity := hne r (List.mem_of_find?_eq_some hfind)
      have hread : Markup.reference? (r.1 ++ rest) = some (r.2, r.1.length) := by
        rw [hrest, Markup.reference?, hfind, Option.map_some]
      simp only [← hrest, cutAt_append, liftM_ok, of_some_bind, pure_eq]
      refine ⟨_, rfl, fun h => absurd h (Option.some_ne_none _), ?_⟩
      intro _ _ h
      cases h
      constructor
      · have := List.length_pos_of_ne_nil hentity
        rw [List.length_append, List.length_append]
        omega
      · rw [Markup.decode_append_of_reference? hentity hread, List.append_assoc,
          List.singleton_append]
    | none =>
      have hread : Markup.reference? ('&' :: b) = none := by
        rw [Markup.reference?, hfind, Option.map_none]
      have hcut : cutAt 1 ('&' :: b) = .ok (['&'], b) := cutAt_append ['&'] b
      simp only [hcut, liftM_ok, of_some_bind, pure_eq]
      refine ⟨_, rfl, fun h => absurd h (Option.some_ne_none _), ?_⟩
      intro _ _ h
      cases h
      constructor
      · rw [List.length_append, List.length_cons]
        omega
      · rw [Markup.decode_cons_of_none hread, List.append_assoc, List.singleton_append]

/-- Decodes the references of a text, one after the other. -/
def decodeReferences (s : Text) : Except CutFault Text :=
  match _h : (readReference s).run with
  | .ok (some (written, rest)) => (decodeReferences rest).map (written ++ ·)
  | .ok none => .ok s
  | .error f => .error f
termination_by s.length
decreasing_by
  obtain ⟨o, ho, -, hsome⟩ := exists_readReference s
  rw [ho] at _h
  exact (hsome _ _ (Except.ok.inj _h)).1

theorem decodeReferences_eq (s : Text) : decodeReferences s = .ok (Markup.decode s) := by
  fun_induction decodeReferences s with
  | case1 s written rest h ih =>
    obtain ⟨o, ho, -, hsome⟩ := exists_readReference s
    rw [ho] at h
    rw [ih, (hsome _ _ (Except.ok.inj h)).2]
    rfl
  | case2 s h =>
    obtain ⟨o, ho, hnone, -⟩ := exists_readReference s
    rw [ho] at h
    rw [hnone (Except.ok.inj h)]
  | case3 s f h =>
    obtain ⟨o, ho, -⟩ := exists_readReference s
    rw [ho] at h
    cases h

/-- Decodes a value. -/
def decodeValue (s : Text) : Except CutFault Text := if '&' ∈ s then decodeReferences s else .ok s

theorem decodeValue_eq (s : Text) : decodeValue s = .ok (Markup.decode s) := by
  rw [decodeValue]
  split
  · exact decodeReferences_eq s
  · next h => rw [Markup.decode_eq_self h]

/-! ## Attributes -/

/-- Reads a value between two quote characters. -/
def readQuotedValue (quote : Char) (s : Text) : Reading (Text × Text) := do
  let s ← readOne (· == quote) s
  let (value, s) ← readMany (· != quote) s
  let s ← readOne (· == quote) s
  return (value, s)

theorem readQuotedValue_eq (quote : Char) (s : Text) :
    readQuotedValue quote s = of (quotedValue? quote s) := by
  cases s with
  | nil => rfl
  | cons c s =>
    rw [readQuotedValue, readOne_cons, quotedValue?]
    simp only [beq_iff_eq]
    split
    · have hquote := List.head?_dropWhile_not (· != quote) s
      simp only [of_some_bind, readMany_eq, liftM_ok]
      cases hrest : s.dropWhile (· != quote) with
      | nil => rfl
      | cons d rest =>
        rw [hrest] at hquote
        have hd : (d == quote) = true := by simpa using hquote
        rw [readOne_cons, if_pos hd]
        rfl
    · rfl

/-- Reads a value. A quote that is never closed is part of a value without quotes. -/
def readAttributeValue (s : Text) : Reading (Text × Text) :=
  readQuotedValue '"' s <|> readQuotedValue '\'' s <|> readMany1 isBareValueChar s

theorem readAttributeValue_eq (s : Text) : readAttributeValue s = of (attributeValue? s) := by
  rw [readAttributeValue, readQuotedValue_eq, readQuotedValue_eq, readMany1_eq, attributeValue?]
  cases quotedValue? '"' s with
  | some found => rfl
  | none => cases quotedValue? '\'' s <;> rfl

/-- Reads an equals sign with plain space around it, and a value. -/
def readAssignedValue (s : Text) : Reading (Text × Text) := do
  let (_, s) ← readMany isPlainSpace s
  let s ← readOne (· == '=') s
  let (_, s) ← readMany isPlainSpace s
  readAttributeValue s

theorem readAssignedValue_eq (s : Text) : readAssignedValue s = of (assignedValue? s) := by
  rw [readAssignedValue, readMany_eq, assignedValue?]
  simp only [liftM_ok, of_some_bind]
  split
  · next rest h =>
    rw [h, readOne_cons, if_pos (by decide), of_some_bind, readMany_eq, liftM_ok, of_some_bind]
    exact readAttributeValue_eq _
  · next h =>
    cases hbehind : s.dropWhile isPlainSpace with
    | nil => rfl
    | cons c rest =>
      have hc : ¬ (c == '=') = true := by
        rintro hc
        exact h rest (by rw [hbehind, beq_iff_eq.1 hc])
      rw [readOne_cons, if_neg hc]
      rfl

/-- Reads an attribute. -/
def readAttribute (s : Text) : Reading (Attribute × Text) := do
  let (name, s) ← readMany1 isAttributeNameChar s
  let (value, s) ← readAssignedValue s <|> pure ([], s)
  let value ← decodeValue value
  return (⟨name.map Char.toLower, value⟩, s)

theorem readAttribute_eq (s : Text) : readAttribute s = of (attribute? s) := by
  rw [readAttribute, readMany1_eq, attribute?]
  split
  · rfl
  · simp only [of_some_bind, readAssignedValue_eq, decodeValue_eq, liftM_ok]
    cases assignedValue? (s.dropWhile isAttributeNameChar) <;> rfl

/-- Attributes and one more, unless there is one of its name. -/
def keepFirst (before : List Attribute) (a : Attribute) : List Attribute :=
  if before.any (·.name == a.name) then before else before ++ [a]

/-- To keep an attribute and then those of other names is to keep all whose names are new. -/
theorem keepFirst_append_filter (before : List Attribute) (a : Attribute) (more : List Attribute) :
    keepFirst before a ++ more.filter (fun b => !(keepFirst before a).any (·.name == b.name)) =
      before ++ (a :: more.filter fun b => b.name != a.name).filter
        fun b => !before.any (·.name == b.name) := by
  rw [List.filter_cons, List.filter_filter]
  by_cases hknown : before.any (·.name == a.name)
  · rw [keepFirst, if_pos hknown, if_neg (by simp [hknown])]
    congr 1
    refine List.filter_congr fun b _ => ?_
    by_cases hb : b.name = a.name
    · simp [hb, hknown]
    · simp [hb]
  · rw [keepFirst, if_neg hknown, if_pos (by simpa using hknown), List.append_assoc,
      List.singleton_append]
    congr 2
    refine List.filter_congr fun b _ => ?_
    rw [List.any_append, List.any_cons, List.any_nil, Bool.or_false, Bool.not_or, Bool.beq_comm]
    rfl

/-- Reads attributes up to where no further one can start. The first of several of one name counts,
also if it is one of those before. -/
def readAttributes (before : List Attribute) (s : Text) :
    Except CutFault (List Attribute × Text) :=
  match _hgap : readMany isAttributeGap s with
  | .error f => .error f
  | .ok (_, s) =>
    match _h : (readAttribute s).run with
    | .ok (some (a, rest)) => readAttributes (keepFirst before a) rest
    | .ok none => .ok (before, s)
    | .error f => .error f
termination_by s.length
decreasing_by
  rw [readMany_eq] at _hgap
  rw [readAttribute_eq] at _h
  obtain ⟨-, rfl⟩ := Prod.mk.inj (Except.ok.inj _hgap)
  have := length_of_attribute? (Except.ok.inj _h)
  exact Nat.lt_of_lt_of_le this (length_dropWhile_le ..)

theorem readAttributes_eq (before : List Attribute) (s : Text) :
    readAttributes before s =
      .ok (before ++ (attributes s).1.filter fun a => !before.any (·.name == a.name),
        (attributes s).2) := by
  fun_induction readAttributes before s with
  | case1 before s f h =>
    rw [readMany_eq] at h
    cases h
  | case2 before s _ s' hgap a rest h ih =>
    rw [readMany_eq] at hgap
    obtain ⟨-, rfl⟩ := Prod.mk.inj (Except.ok.inj hgap)
    rw [readAttribute_eq] at h
    rw [ih, attributes_eq s, Except.ok.inj h, keepFirst_append_filter]
  | case3 before s _ s' hgap h =>
    rw [readMany_eq] at hgap
    obtain ⟨-, rfl⟩ := Prod.mk.inj (Except.ok.inj hgap)
    rw [readAttribute_eq] at h
    rw [attributes_eq, Except.ok.inj h, List.filter_nil, List.append_nil]
  | case4 before s _ s' hgap f h =>
    rw [readAttribute_eq] at h
    cases h

/-! ## Tags -/

/-- Reads a tag behind its name. -/
def readTagEnd (s : Text) : Reading (List Attribute × Text) := do
  let _ ← readOne endsTagName s
  let (as, s) ← readAttributes [] s
  let s ← readOne (· == '>') s
  return (as, s)

/-- Reads an opening tag of this name, in any case. -/
def readStartTag (name s : Text) : Reading (List Attribute × Text) := do
  let s ← readOne (· == '<') s
  let s ← readWordAnyCase name s
  readTagEnd s

/-- The attributes of a tag and what is behind it, if a text goes on with the rest of a tag. -/
def tagEnd? (s : Text) : Option (List Attribute × Text) :=
  match s with
  | [] => none
  | c :: rest =>
    if endsTagName c then
      match (attributes (c :: rest)).2 with
      | '>' :: behind => some ((attributes (c :: rest)).1, behind)
      | _ => none
    else none

theorem startTag?_lt_cons (name s : Text) :
    startTag? name ('<' :: s) = (afterWord? name s).bind tagEnd? := by
  have hlt : afterWord? ('<' :: name) ('<' :: s) = afterWord? name s := if_pos (by decide)
  rw [startTag?, hlt]
  cases afterWord? name s with
  | none => rfl
  | some rest => cases rest <;> rfl

theorem readTagEnd_eq (s : Text) : readTagEnd s = of (tagEnd? s) := by
  cases s with
  | nil => rfl
  | cons c s =>
    rw [readTagEnd, readOne_cons, tagEnd?]
    split
    · have hread : readAttributes [] (c :: s) = .ok (attributes (c :: s)) := by
        simp only [readAttributes_eq, List.nil_append, List.any_nil, Bool.not_false,
          List.filter_true]
      simp only [hread, liftM_ok, of_some_bind]
      cases (attributes (c :: s)).2 with
      | nil => rfl
      | cons d behind =>
        rw [readOne_cons]
        by_cases hd : d = '>'
        · rw [hd, if_pos (by decide), of_some_bind]
          rfl
        · rw [if_neg (by simpa using hd), of_none_bind]
          split
          · next h => exact absurd (List.cons.inj h).1 hd
          · rfl
    · rfl

theorem readStartTag_lt_cons (name s : Text) :
    readStartTag name ('<' :: s) = readWordAnyCase name s >>= fun s => of (tagEnd? s) := by
  rw [readStartTag, readOne_cons, if_pos (by decide), of_some_bind]
  exact bind_congr fun s => readTagEnd_eq s

theorem readStartTag_of_ne {c : Char} (h : c ≠ '<') (name s : Text) :
    readStartTag name (c :: s) = of none := by
  rw [readStartTag, readOne_cons, if_neg (by simpa using h), of_none_bind]

theorem readStartTag_eq {name : Text} (hname : WithoutK name) (s : Text) :
    readStartTag name s = of (startTag? name s) := by
  cases s with
  | nil => rfl
  | cons c s =>
    by_cases hc : c = '<'
    · rw [hc, readStartTag_lt_cons, startTag?_lt_cons, readWordAnyCase_eq hname]
      cases afterWord? name s <;> rfl
    · rw [readStartTag_of_ne hc, startTag?_of_ne hc]

/-- **The tag that is cut at a wrong offset** is a `link` with the Kelvin sign in its name. -/
theorem readStartTag_link (s : Text) :
    readStartTag HeadTag.link.name s =
      if cutsCharacter s then fault .insideCharacter else of (startTag? HeadTag.link.name s) := by
  cases s with
  | nil => rfl
  | cons c s =>
    by_cases hc : c = '<'
    · have hword : HeadTag.link.name = "lin".toList ++ ['k'] := rfl
      have hcuts : cutsCharacter ('<' :: s) =
          ((afterWord? "lin".toList s).bind List.head? == some '\u212a') := by
        have hlt : afterWord? "<lin".toList ('<' :: s) = afterWord? "lin".toList s :=
          if_pos (by decide)
        rw [cutsCharacter, hlt]
        cases afterWord? "lin".toList s with
        | none => rfl
        | some rest => cases rest <;> rfl
      rw [hc, readStartTag_lt_cons, startTag?_lt_cons, hcuts, hword,
        readWordAnyCase_append (by decide), afterWord?_append_word]
      cases afterWord? "lin".toList s with
      | none => rfl
      | some rest =>
        rw [of_some_bind, readWordAnyCase_k, Option.bind_some, Option.bind_some]
        simp only [beq_iff_eq]
        split
        · rfl
        · cases afterWord? ['k'] rest <;> rfl
    · rw [readStartTag_of_ne hc, startTag?_of_ne hc, cutsCharacter_of_ne hc]
      rfl

/-! ## Raw text -/

/-- Reads an end tag behind its name. If it is never closed, it runs to the end. -/
def readPastTag (s : Text) : Except CutFault Text :=
  match offsetWhere? (· == '>') s with
  | some offset => (cutAt (offset + 1) s).map Prod.snd
  | none => .ok []

theorem readPastTag_eq (s : Text) : readPastTag s = .ok ((s.dropWhile (· != '>')).drop 1) := by
  rcases offsetWhere?_cases (· == '>') s with ⟨hnone, hall⟩ | ⟨a, c, b, rfl, ha, hc, hsome⟩
  · have hdrop : s.dropWhile (· != '>') = [] :=
      List.dropWhile_eq_nil_iff.2 fun d hd => by simpa using hall d hd
    rw [readPastTag, hnone, hdrop, List.drop_nil]
  · obtain rfl := beq_iff_eq.1 hc
    have hdrop : (a ++ '>' :: b).dropWhile (· != '>') = '>' :: b :=
      dropWhile_append_cons (fun d hd => by simpa using ha d hd) (by decide) b
    have hcut : cutAt (byteCount a + 1) (a ++ '>' :: b) = .ok (a ++ ['>'], b) := by
      have h := cutAt_append (a ++ ['>']) b
      rwa [byteCount_append, List.append_assoc] at h
    rw [readPastTag, hsome, hdrop]
    simp only [hcut]
    rfl

/-- Reads the text of an element up to its end tag, which is looked for among the bytes. -/
def readRawText (name s : Text) : Except CutFault (Text × Text) :=
  let ending := '<' :: '/' :: name
  match offsetOf? ((encode ending).map smallByte) ((encode s).map smallByte) with
  | some offset => do
    let (_, behind) ← cutAt (offset + byteCount ending) s
    let rest ← readPastTag behind
    let (text, _) ← cutAt offset s
    return (text, rest)
  | none => .ok (s, [])

theorem readRawText_eq {name : Text} (hname : Ascii name) (s : Text) :
    readRawText name s = .ok (rawText name s) := by
  have hending : Ascii ('<' :: '/' :: name) :=
    List.forall_mem_cons.2 ⟨by decide, List.forall_mem_cons.2 ⟨by decide, hname⟩⟩
  rw [readRawText, rawText]
  simp only [offsetOf?_encode_small hending (List.cons_ne_nil _ _)]
  cases hbreak : breakAt? ('<' :: '/' :: name) s with
  | none => rfl
  | some parts =>
    obtain ⟨before, behind⟩ := parts
    obtain ⟨found, rfl, hafter⟩ := breakAt?_eq_some hbreak
    obtain ⟨w, rfl, hw⟩ := afterWord?_eq_some_iff.1 hafter
    -- the end tag is found in another case than it is looked for, but with as many bytes
    have hcount : byteCount ('<' :: '/' :: name) = byteCount w := by
      rw [← byteCount_small, ← hw, byteCount_small]
    have hcut : cutAt (byteCount before + byteCount w) (before ++ (w ++ behind)) =
        .ok (before ++ w, behind) := by
      rw [← byteCount_append, ← List.append_assoc, cutAt_append]
    simp only [Option.map_some, hcount, hcut, cutAt_append, ok_bind, readPastTag_eq]
    rfl

/-! ## Elements -/

/-- Reads a `style` element. -/
def readStyle (s : Text) : Reading (Option HeadElement × Text) := do
  let (as, s) ← readStartTag HeadTag.style.name s
  let (text, s) ← readRawText HeadTag.style.name s
  return (some ⟨.style, as, text⟩, s)

/-- Reads a `link` element. -/
def readLink (s : Text) : Reading (Option HeadElement × Text) := do
  let (as, s) ← readStartTag HeadTag.link.name s
  return (some ⟨.link, as, []⟩, s)

/-- Reads an element whose content is text, and passes over it. -/
def readTextElement (s name : Text) : Reading (Option HeadElement × Text) := do
  let (_, s) ← readStartTag name s
  let (_, s) ← readRawText name s
  return (none, s)

/-- Reads an element that the scan knows: the first one of these that is read. -/
def readElement (s : Text) : Reading (Option HeadElement × Text) :=
  readStyle s <|> readLink s <|>
    textElements.foldr (fun name others => readTextElement s name <|> others) failure

/-- The text elements are tried one after the other. -/
theorem foldr_readTextElement {names : List Text} (hnames : ∀ name ∈ names, WithoutK name)
    (s : Text) :
    names.foldr (fun name others => readTextElement s name <|> others) failure =
      of (names.findSome? fun name =>
        (startTag? name s).map fun found => (none, (rawText name found.2).2)) := by
  induction names with
  | nil => rfl
  | cons name names ih =>
    obtain ⟨hname, hrest⟩ := List.forall_mem_cons.1 hnames
    rw [List.foldr_cons, ih hrest, readTextElement, readStartTag_eq hname, List.findSome?_cons]
    cases startTag? name s with
    | none => rfl
    | some found =>
      simp only [of_some_bind, readRawText_eq hname.ascii, liftM_ok]
      rfl

/-- A tag that is cut at a wrong offset is no `style` tag. -/
theorem startTag?_style_of_cutsCharacter {s : Text} (h : cutsCharacter s = true) :
    startTag? HeadTag.style.name s = none := by
  obtain ⟨w, rest, rfl, hw⟩ := cutsCharacter_iff.1 h
  have hnone : afterWord? ('<' :: HeadTag.style.name) (w ++ '\u212a' :: rest) = none := by
    rw [afterWord?_eq_none_iff, small_append, hw]
    intro hfront
    exact absurd (List.cons_prefix_cons.1 (List.cons_prefix_cons.1 hfront).2).1 (by decide)
  rw [startTag?, hnone]

/-- **What the scan stands in front of is read without a fault**, except for the one tag. -/
theorem readElement_eq (s : Text) :
    readElement s =
      if cutsCharacter s then fault .insideCharacter else of (element? s) := by
  have hname : WithoutK HeadTag.style.name := by decide
  rw [readElement, readStyle, readStartTag_eq hname, readLink, readStartTag_link, element?,
    foldr_readTextElement (by decide)]
  cases hcuts : cutsCharacter s with
  | true =>
    rw [startTag?_style_of_cutsCharacter hcuts]
    rfl
  | false =>
    cases startTag? HeadTag.style.name s with
    | some found =>
      simp only [of_some_bind, readRawText_eq hname.ascii, liftM_ok]
      rfl
    | none => cases startTag? HeadTag.link.name s <;> rfl

end MenuPages.Head
