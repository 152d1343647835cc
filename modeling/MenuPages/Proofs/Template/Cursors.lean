import MenuPages.Proofs.Template.Tokenization
import MenuPages.Proofs.Text.Offsets

/-!
# The tokens of a text, found with two cursors

`Token.scan` tries a tag at every character. The same tokens are found by a loop with two cursors
into the bytes of the text (`Cursors`): where the text behind the last tag starts, and where the
search goes on. A turn of it (`Cursors.turn`) looks for the next two opening braces and reads a tag
there. If there is none, the search goes on one byte behind, so that the braces may overlap; what
was passed over stays with the text. Every slice that is taken on the way is a cut that may fault.

**The law** (`tokenize_exact`): the loop never faults and gives the tokens of the scan, which are
the only ones that a text falls into (`Token.Tokenizes`), and every tag that stands anywhere in the
text is one of them.

What carries the loop is what it has ruled out: at no character between the cursors a tag starts
(`NoneStarts`). So the text between them belongs to one token, however often the search went on
(`Cursors.Stands`).
-/

namespace MenuPages.Template

open Text Text.Reading

/-! ## One tag -/

/-- Two opening braces. -/
def openingBraces : Text := ['{', '{']

/-- Two closing braces. -/
def closingBraces : Text := ['}', '}']

/-- Reads the character that tells the kind of a tag, if it is there. -/
def readKind (s : Text) : Text.Reading (TagKind × Text) :=
  (do
    let s ← readOne (· == '#') s
    return (.opening, s)) <|>
  (do
    let s ← readOne (· == '/') s
    return (.closing, s)) <|>
  pure (.value, s)

theorem readKind_eq (s : Text) : readKind s = of (some (TagKind.read s)) := by
  cases s with
  | nil => rfl
  | cons c s =>
    rw [readKind, readOne_cons, readOne_cons]
    by_cases hopening : c = '#'
    · rw [hopening]
      rfl
    · by_cases hclosing : c = '/'
      · rw [hclosing]
        rfl
      · have hread : TagKind.read (c :: s) = (.value, c :: s) := by
          unfold TagKind.read
          split
          · next heq => exact absurd (List.cons.inj heq).1 hopening
          · next heq => exact absurd (List.cons.inj heq).1 hclosing
          · rfl
        simp only [beq_iff_eq, hopening, hclosing, if_false, hread]
        rfl

/-- Reads a tag. -/
def readTag (s : Text) : Text.Reading (Tag × Text) := do
  let s ← readWord openingBraces s
  let (kind, s) ← readKind s
  let (name, s) ← readMany1 isNameChar s
  let s ← readWord closingBraces s
  return (⟨kind, name⟩, s)

theorem readTag_eq (s : Text) : readTag s = of (Tag.read? s) := by
  have hbraces : WithoutLetters openingBraces := by decide
  rw [readTag, readWord_eq (by decide) hbraces]
  cases hopen : afterWord? openingBraces s with
  | none =>
    have hread : Tag.read? s = none := by
      unfold Tag.read?
      split
      · next rest =>
        have hsome : afterWord? openingBraces ('{' :: '{' :: rest) = some rest :=
          hbraces.afterWord?_eq_some_iff.2 rfl
        rw [hsome] at hopen
        cases hopen
      · rfl
    rw [hread, of_none_bind]
  | some inside =>
    obtain rfl := hbraces.afterWord?_eq_some_iff.1 hopen
    rw [of_some_bind, readKind_eq, of_some_bind]
    dsimp only
    rw [readMany1_eq]
    simp only [openingBraces, List.cons_append, List.nil_append, Tag.read?]
    split
    · rfl
    · rw [of_some_bind, readWord_eq (by decide) (by decide)]
      split
      · next rest hrest =>
        rw [hrest]
        rfl
      · next hrest =>
        have hclose : afterWord? closingBraces
            ((TagKind.read inside).2.dropWhile isNameChar) = none := by
          rw [Option.eq_none_iff_forall_ne_some]
          intro rest hsome
          have hletters : WithoutLetters closingBraces := by decide
          exact hrest rest (hletters.afterWord?_eq_some_iff.1 hsome)
        rw [hclose, of_none_bind]

/-! ## What is ruled out -/

/-- At no character of `passed` a tag starts, in front of `ahead`. -/
def NoneStarts : (passed ahead : Text) → Prop
  | [], _ => True
  | c :: passed, ahead => Tag.read? (c :: (passed ++ ahead)) = none ∧ NoneStarts passed ahead

theorem noneStarts_append {a b ahead : Text} :
    NoneStarts (a ++ b) ahead ↔ NoneStarts a (b ++ ahead) ∧ NoneStarts b ahead := by
  induction a with
  | nil => simp [NoneStarts]
  | cons c a ih => simp [NoneStarts, ih, and_assoc]

/-- A text as a token, if there is something in it. -/
def Token.ofText (s : Text) : List Token := if s = [] then [] else [.text s]

/-- What is passed over stands in front of the tokens of what is ahead. -/
theorem Token.scanFrom_passed (pos : Nat) {passed ahead : Text} (h : NoneStarts passed ahead) :
    scanFrom pos (passed ++ ahead) =
      passed.foldr extend (scanFrom (pos + passed.byteCount) ahead) := by
  induction passed generalizing pos with
  | nil => rfl
  | cons c passed ih =>
    obtain ⟨hc, hrest⟩ := h
    rw [List.cons_append, scanFrom_cons_of_none pos hc, ih _ hrest, byteCount_cons,
      ← Nat.add_assoc]
    rfl

/-- In front of a tag or of nothing it is one token. -/
theorem Token.foldr_extend (passed : Text) {tokens : List Token}
    (h : ∀ s, tokens.head? ≠ some (.text s)) :
    passed.foldr extend tokens = ofText passed ++ tokens := by
  induction passed with
  | nil => rfl
  | cons c passed ih =>
    rw [List.foldr_cons, ih, ofText, ofText, if_neg (List.cons_ne_nil c passed)]
    split
    · next hnil =>
      subst hnil
      cases tokens with
      | nil => rfl
      | cons token tokens =>
        cases token with
        | text s => exact absurd rfl (h s)
        | tag t pos => rfl
    · rfl

theorem Token.foldr_extend_nil (passed : Text) : passed.foldr extend [] = ofText passed := by
  have h : ∀ s, ([] : List Token).head? ≠ some (.text s) := nofun
  rw [foldr_extend passed h, List.append_nil]

/-- Two opening braces are found in front of the first character at which they stand, and at the
characters before it no tag starts. -/
theorem offsetOf?_openingBraces_cases (s : Text) :
    (offsetOf? (encode openingBraces) (encode s) = none ∧ NoneStarts s []) ∨
      ∃ passed behind, s = passed ++ (openingBraces ++ behind) ∧
        offsetOf? (encode openingBraces) (encode s) = some passed.byteCount ∧
        NoneStarts passed (openingBraces ++ behind) := by
  induction s with
  | nil => exact Or.inl ⟨rfl, trivial⟩
  | cons c s ih =>
    have hascii : Ascii openingBraces := by decide
    rw [offsetOf?_encode_cons hascii (List.cons_ne_nil _ _)]
    by_cases hfront : openingBraces.isPrefixOf (c :: s)
    · obtain ⟨behind, hbehind⟩ := List.isPrefixOf_iff_prefix.1 hfront
      exact Or.inr ⟨[], behind, hbehind.symm, if_pos hfront, trivial⟩
    · have hnone : Tag.read? (c :: s) = none := by
        unfold Tag.read?
        split
        · next heq =>
          rw [heq] at hfront
          exact absurd rfl hfront
        · rfl
      rw [if_neg hfront]
      rcases ih with ⟨hoff, hs⟩ | ⟨passed, behind, rfl, hoff, hpassed⟩
      · exact Or.inl ⟨by rw [hoff, Option.map_none], by rwa [List.append_nil], hs⟩
      · refine Or.inr ⟨c :: passed, behind, rfl, ?_, hnone, hpassed⟩
        rw [hoff, Option.map_some, byteCount_cons, Nat.add_comm]

/-! ## The cursors -/

/-- The text between two offsets as a token, if the second is behind the first. -/
def textBetween (source : Text) (start stop : Nat) : Except CutFault (List Token) := do
  if start < stop then
    let (front, _) ← cutAt stop source
    let (_, s) ← cutAt start front
    return [.text s]
  else return []

theorem textBetween_append (a s b : Text) :
    textBetween (a ++ (s ++ b)) a.byteCount (a ++ s).byteCount = .ok (Token.ofText s) := by
  have hstop : cutAt (a ++ s).byteCount (a ++ (s ++ b)) = .ok (a ++ s, b) := by
    rw [← List.append_assoc]
    exact cutAt_append (a ++ s) b
  rw [textBetween, Token.ofText, hstop, byteCount_append]
  by_cases hs : s = []
  · rw [if_pos hs, if_neg (by simp [hs])]
    rfl
  · have hpos : 0 < s.byteCount := Nat.pos_of_ne_zero (mt byteCount_eq_zero_iff.1 hs)
    rw [if_neg hs, if_pos (by omega), ok_bind]
    show (cutAt a.byteCount (a ++ s) >>= _) = _
    rw [cutAt_append]
    rfl

/-- The tokens that were found, where the text behind them starts, and where the search goes on. -/
structure Cursors where
  tokens : List Token
  textStart : Nat
  pos : Nat

/-- One turn of the loop: the next two opening braces, and the tag there if there is one. There is
no turn if there are no braces ahead. -/
def Cursors.turn (source : Text) (k : Cursors) : Except CutFault (Option Cursors) := do
  let (_, ahead) ← cutAt k.pos source
  match offsetOf? (encode openingBraces) (encode ahead) with
  | none => return none
  | some found =>
    let start := k.pos + found
    let (_, s) ← cutAt start source
    match ← (readTag s).run with
    | some (t, rest) =>
      let (raw, _) ← cutAt (s.byteCount - rest.byteCount) s
      let text ← textBetween source k.textStart start
      let stop := start + raw.byteCount
      return some ⟨k.tokens ++ text ++ [.tag t start], stop, stop⟩
    | none => return some { k with pos := start + 1 }

namespace Cursors

variable {source a : Text} {k : Cursors}

/-- Without braces ahead there is no turn. -/
theorem turn_of_none {ahead : Text} (hsource : source = a ++ ahead) (hpos : k.pos = a.byteCount)
    (hnone : offsetOf? (encode openingBraces) (encode ahead) = none) :
    k.turn source = .ok none := by
  rw [turn, hpos, hsource, cutAt_append, ok_bind]
  simp only [hnone]
  rfl

/-- What a turn makes of the next two opening braces. -/
theorem turn_of_some {passed behind : Text}
    (hsource : source = a ++ (passed ++ (openingBraces ++ behind))) (hpos : k.pos = a.byteCount)
    (hsome : offsetOf? (encode openingBraces) (encode (passed ++ (openingBraces ++ behind))) =
      some passed.byteCount) :
    k.turn source =
      match Tag.read? (openingBraces ++ behind) with
      | some (t, _) => (textBetween source k.textStart (a ++ passed).byteCount).map fun text =>
          some ⟨k.tokens ++ text ++ [.tag t (a ++ passed).byteCount],
            (a ++ passed ++ t.text).byteCount, (a ++ passed ++ t.text).byteCount⟩
      | none => .ok (some { k with pos := (a ++ passed).byteCount + 1 }) := by
  have hcut :
      cutAt (a ++ passed).byteCount source = .ok (a ++ passed, openingBraces ++ behind) := by
    rw [hsource, ← List.append_assoc]
    exact cutAt_append _ _
  have hahead : cutAt k.pos source = .ok (a, passed ++ (openingBraces ++ behind)) := by
    rw [hpos, hsource]
    exact cutAt_append _ _
  rw [turn, hahead, ok_bind]
  simp only [hsome, hpos, ← byteCount_append, hcut, ok_bind, readTag_eq]
  cases hread : Tag.read? (openingBraces ++ behind) with
  | none => rfl
  | some found =>
    obtain ⟨t, rest⟩ := found
    have hraw : cutAt ((openingBraces ++ behind).byteCount - rest.byteCount)
        (openingBraces ++ behind) = .ok (t.text, rest) := by
      rw [Tag.eq_of_read? hread, byteCount_append, Nat.add_sub_cancel]
      exact cutAt_append _ _
    show (cutAt ((openingBraces ++ behind).byteCount - rest.byteCount) _ >>= _) = _
    rw [hraw, ok_bind]
    cases textBetween source k.textStart (a ++ passed).byteCount <;> rfl

/-- A turn goes on behind where it started, in the text. -/
theorem pos_of_turn {k' : Cursors} (h : k.turn source = .ok (some k')) :
    k.pos < source.byteCount ∧ k.pos < k'.pos := by
  cases hcut : cutAt k.pos source with
  | error f =>
    rw [turn, hcut] at h
    cases h
  | ok parts =>
    obtain ⟨a, ahead⟩ := parts
    obtain ⟨hsource, hpos⟩ := cutAt_eq_ok_iff.1 hcut
    rcases offsetOf?_openingBraces_cases ahead with ⟨hnone, -⟩ | ⟨passed, behind, rfl, hsome, -⟩
    · rw [turn_of_none hsource hpos.symm hnone] at h
      cases h
    · have hbraces : 0 < openingBraces.byteCount := by decide
      have hlt : (a ++ passed).byteCount < source.byteCount := by
        simp only [hsource, byteCount_append]
        omega
      have hle : k.pos ≤ (a ++ passed).byteCount := by
        rw [byteCount_append]
        omega
      refine ⟨by omega, ?_⟩
      rw [turn_of_some hsource hpos.symm hsome] at h
      split at h
      · next t rest hread =>
        cases htext : textBetween source k.textStart (a ++ passed).byteCount with
        | error f =>
          rw [htext] at h
          cases h
        | ok text =>
          rw [htext] at h
          cases h
          have htag : 0 < t.text.byteCount :=
            Nat.pos_of_ne_zero (mt byteCount_eq_zero_iff.1 t.text_ne_nil)
          simp only [byteCount_append] at hle ⊢
          omega
      · cases h
        exact Nat.lt_succ_of_le hle

/-- The loop, from cursors on: turn by turn, and then the text that is left. -/
def run (source : Text) (k : Cursors) : Except CutFault (List Token) :=
  match _h : k.turn source with
  | .error f => .error f
  | .ok none => (textBetween source k.textStart source.byteCount).map (k.tokens ++ ·)
  | .ok (some k') => run source k'
termination_by source.byteCount - k.pos
decreasing_by
  have := pos_of_turn _h
  omega

/-- Where the cursors stand in a text: behind a tag, `passed` is the text up to where the search
goes on, and at no character of it a tag starts. The tokens that were found are those in front. -/
structure Stands (source : Text) (k : Cursors) (front passed ahead : Text) : Prop where
  source_eq : source = front ++ (passed ++ ahead)
  textStart_eq : k.textStart = front.byteCount
  pos_eq : k.pos = (front ++ passed).byteCount
  noneStarts : NoneStarts passed ahead
  tokens_eq : k.tokens ++ Token.scanFrom k.textStart (passed ++ ahead) = Token.scan source

theorem stands_start (source : Text) : Stands source ⟨[], 0, 0⟩ [] [] source :=
  ⟨rfl, rfl, rfl, trivial, rfl⟩

/-- **What a turn keeps.** If there is a turn, the cursors stand further on, and if there is none,
what is left is one text. -/
theorem Stands.turn {front passed ahead : Text} (h : Stands source k front passed ahead) :
    (k.turn source = .ok none ∧ k.tokens ++ Token.ofText (passed ++ ahead) = Token.scan source) ∨
      ∃ k' front' passed' ahead', k.turn source = .ok (some k') ∧
        Stands source k' front' passed' ahead' := by
  obtain ⟨hsource, hstart, hpos, hruled, htokens⟩ := h
  have hfront : source = (front ++ passed) ++ ahead := by rw [hsource, List.append_assoc]
  rcases offsetOf?_openingBraces_cases ahead with
    ⟨hnone, hahead⟩ | ⟨more, behind, rfl, hsome, hmore⟩
  · refine Or.inl ⟨turn_of_none hfront hpos hnone, ?_⟩
    have hall : NoneStarts (passed ++ ahead) [] :=
      noneStarts_append.2 ⟨by rwa [List.append_nil], hahead⟩
    have hscan := Token.scanFrom_passed k.textStart hall
    rw [List.append_nil, Token.scanFrom, Token.foldr_extend_nil] at hscan
    rw [← hscan]
    exact htokens
  · right
    have hpassed : NoneStarts (passed ++ more) (openingBraces ++ behind) :=
      noneStarts_append.2 ⟨hruled, hmore⟩
    have hturn := turn_of_some hfront hpos hsome
    rw [← List.append_assoc passed] at hsource htokens
    cases hread : Tag.read? (openingBraces ++ behind) with
    | none =>
      -- the search goes on between the two braces, the first of which is ruled out as well
      have hsplit : passed ++ more ++ (openingBraces ++ behind) =
          (passed ++ more ++ ['{']) ++ '{' :: behind := by simp [openingBraces]
      rw [hread] at hturn
      rw [hsplit] at hsource htokens
      have hnext : (front ++ (passed ++ more ++ ['{'])).byteCount =
          (front ++ passed ++ more).byteCount + 1 := by
        rw [← List.append_assoc, ← List.append_assoc, byteCount_append]
        rfl
      exact ⟨_, front, passed ++ more ++ ['{'], '{' :: behind, hturn, hsource, hstart, hnext.symm,
        noneStarts_append.2 ⟨hpassed, hread, trivial⟩, htokens⟩
    | some found =>
      obtain ⟨t, rest⟩ := found
      have htag := Tag.eq_of_read? hread
      have htext : textBetween source k.textStart (front ++ passed ++ more).byteCount =
          .ok (Token.ofText (passed ++ more)) := by
        rw [hsource, hstart, List.append_assoc front]
        exact textBetween_append front (passed ++ more) (openingBraces ++ behind)
      rw [hread, htext] at hturn
      refine ⟨_, front ++ passed ++ more ++ t.text, [], rest, hturn, ?_, rfl, ?_, trivial, ?_⟩
      · rw [hsource, htag]
        simp
      · rw [List.append_nil]
      · have hscan := Token.scanFrom_passed k.textStart hpassed
        rw [htag, Token.scanFrom_text_append _ (Tag.wellFormed_of_read? hread),
          Token.foldr_extend _ (by simp), ← htag, hstart] at hscan
        rw [← htokens, hstart, hscan]
        simp [Nat.add_assoc]

/-- **The loop never faults**, and what it finds are the tokens of the scan. -/
theorem Stands.run_eq {front passed ahead : Text} (h : Stands source k front passed ahead) :
    k.run source = .ok (Token.scan source) := by
  fun_induction run source k generalizing front passed ahead with
  | case1 k f hturn =>
    rcases h.turn with ⟨hnone, -⟩ | ⟨_, _, _, _, hsome, -⟩
    · cases hturn.symm.trans hnone
    · cases hturn.symm.trans hsome
  | case2 k hturn =>
    rcases h.turn with ⟨-, htokens⟩ | ⟨_, _, _, _, hsome, -⟩
    · have htext : textBetween source k.textStart source.byteCount =
          .ok (Token.ofText (passed ++ ahead)) := by
        have hbetween := textBetween_append front (passed ++ ahead) []
        rwa [List.append_nil, ← h.source_eq, ← h.textStart_eq] at hbetween
      rw [htext, ← htokens]
      rfl
    · cases hturn.symm.trans hsome
  | case3 k k' hturn ih =>
    rcases h.turn with ⟨hnone, -⟩ | ⟨next, _, _, _, hsome, hnext⟩
    · cases hturn.symm.trans hnone
    · cases hturn.symm.trans hsome
      exact ih hnext

end Cursors

/-- The tokens of a text, found with two cursors from its front on. -/
def Token.tokenize (source : Text) : Except CutFault (List Token) := Cursors.run source ⟨[], 0, 0⟩

/-! ## The tokens that a text falls into -/

/-- Put together, the tokens are the text. A tag is as it can be written and stands where it says; a
text is not empty, has no tag in it, and no further text behind it. -/
structure Token.Tokenizes (source : Text) (tokens : List Token) : Prop where
  raw_eq : tokens.flatMap raw = source
  tag : ∀ before t pos behind, tokens = before ++ .tag t pos :: behind →
    t.WellFormed ∧ pos = Text.byteCount (before.flatMap raw)
  text : ∀ s, .text s ∈ tokens → s ≠ [] ∧ TagFree s
  apart : ∀ before s u behind, tokens ≠ before ++ .text s :: .text u :: behind

namespace Token

/-- What is said of all tokens, one behind the other. -/
theorem Lexed.of_forall {pos : Nat} {tokens : List Token}
    (htag : ∀ before t offset behind, tokens = before ++ .tag t offset :: behind →
      t.WellFormed ∧ offset = pos + Text.byteCount (before.flatMap raw))
    (htext : ∀ s, .text s ∈ tokens → s ≠ [] ∧ TagFree s)
    (hapart : ∀ before s u behind, tokens ≠ before ++ .text s :: .text u :: behind) :
    Lexed pos tokens := by
  induction tokens generalizing pos with
  | nil => exact .nil pos
  | cons token tokens ih =>
    have hrest : Lexed (pos + token.raw.byteCount) tokens := by
      refine ih (fun before t offset behind h => ?_)
        (fun s hs => htext s (List.mem_cons_of_mem _ hs))
        (fun before s u behind h => hapart (token :: before) s u behind (by rw [h]; rfl))
      have hbehind := htag (token :: before) t offset behind (by rw [h]; rfl)
      rwa [List.flatMap_cons, byteCount_append, ← Nat.add_assoc] at hbehind
    cases token with
    | tag t offset =>
      obtain ⟨ht, rfl⟩ := htag [] t offset tokens rfl
      exact .tag ht hrest
    | text s =>
      obtain ⟨hne, hfree⟩ := htext s List.mem_cons_self
      refine .text hne hfree (fun u hu => ?_) hrest
      obtain ⟨behind, rfl⟩ := List.head?_eq_some_iff.1 hu
      exact hapart [] s u behind rfl

theorem Lexed.tag_of_append {pos offset : Nat} {before behind : List Token} {t : Tag}
    (h : Lexed pos (before ++ .tag t offset :: behind)) :
    t.WellFormed ∧ offset = pos + Text.byteCount (before.flatMap raw) := by
  cases h.of_append.2 with
  | tag ht _ => exact ⟨ht, rfl⟩

theorem Lexed.text_of_append {pos : Nat} {before behind : List Token} {s : Text}
    (h : Lexed pos (before ++ .text s :: behind)) :
    s ≠ [] ∧ TagFree s ∧ ∀ u, behind.head? ≠ some (.text u) := by
  cases h.of_append.2 with
  | text hne hfree hnext _ => exact ⟨hne, hfree, hnext⟩

/-- The tokens that a text falls into are those of the scan. -/
theorem tokenizes_iff {source : Text} {tokens : List Token} :
    Tokenizes source tokens ↔ tokens = scan source := by
  constructor
  · rintro ⟨rfl, htag, htext, hapart⟩
    have hlexed : Lexed 0 tokens := .of_forall (by simpa using htag) htext hapart
    exact hlexed.eq_scanFrom
  · rintro rfl
    have hlexed := lexed_scanFrom 0 source
    refine ⟨flatMap_raw_scanFrom 0 source, fun before t pos behind h => ?_, fun s hs => ?_,
      fun before s u behind h => ?_⟩
    · rw [← scan, h] at hlexed
      simpa using hlexed.tag_of_append
    · obtain ⟨before, behind, h⟩ := List.append_of_mem hs
      rw [← scan, h] at hlexed
      obtain ⟨hne, hfree, -⟩ := hlexed.text_of_append
      exact ⟨hne, hfree⟩
    · rw [← scan, h] at hlexed
      exact hlexed.text_of_append.2.2 u rfl

/-- **The loop with two cursors finds the tokens that a text falls into**: it never faults, it gives
such tokens and there are no others, and a tag that stands anywhere in the text is one of them,
whatever stands before and behind it. -/
theorem tokenize_exact (source : Text) :
    tokenize source = .ok (scan source) ∧
      (∀ tokens, Tokenizes source tokens ↔ tokens = scan source) ∧
      ∀ before (t : Tag) behind, t.WellFormed → source = before ++ (t.text ++ behind) →
        ∃ front rest, scan source = front ++ .tag t before.byteCount :: rest ∧
          front.flatMap raw = before ∧ rest.flatMap raw = behind := by
  refine ⟨(Cursors.stands_start source).run_eq, fun _ => tokenizes_iff, ?_⟩
  rintro before t behind ht rfl
  refine ⟨scanFrom 0 before, scanFrom (before.byteCount + t.text.byteCount) behind, ?_,
    flatMap_raw_scanFrom 0 before, flatMap_raw_scanFrom _ behind⟩
  rw [scan, scanFrom_append_tag 0 before ht, Nat.zero_add]

/-- Behind a further brace and a character of two bytes, and in front of half a tag. -/
theorem tokenize_exact_braces :
    ∃ front rest, tokenize ['é', '{', '{', '{', 'a', '}', '}', '{', '{', 'b'] =
        .ok (front ++ .tag ⟨.value, ['a']⟩ 3 :: rest) ∧
      front.flatMap raw = ['é', '{'] ∧ rest.flatMap raw = ['{', '{', 'b'] := by
  obtain ⟨hrun, -, htags⟩ := tokenize_exact ['é', '{', '{', '{', 'a', '}', '}', '{', '{', 'b']
  have hwf : Tag.WellFormed ⟨.value, ['a']⟩ := Tag.wellFormed_of_all (List.cons_ne_nil _ _) rfl
  obtain ⟨front, rest, hscan, hfront, hrest⟩ :=
    htags ['é', '{'] ⟨.value, ['a']⟩ ['{', '{', 'b'] hwf rfl
  exact ⟨front, rest, hrun.trans (congrArg Except.ok hscan), hfront, hrest⟩

end Token

end MenuPages.Template
