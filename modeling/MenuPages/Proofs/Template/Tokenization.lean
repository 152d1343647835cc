import MenuPages.Proofs.Text.Words
import MenuPages.Template.Token

/-!
# How a template falls into tokens

A text falls into tokens in one way only. `Token.Lexed` says what tokens may follow each other: a
tag stands where its offset says, and a text between tags is not empty, has no tag in it and does
not stand next to another such text. `Token.lexed_scanFrom` and `Token.Lexed.eq_scanFrom` say that
the scan gives such tokens, and that there are no others for the same text.

**Why there are no others.** Two tags of a text never overlap (`Tag.text_prefix_of_append_eq`):
behind its first two characters no tag has an opening brace. So a tag in a text is a token of it,
whatever stands before the tag (`Token.scanFrom_append_tag`).
-/

namespace MenuPages.Template

/-! ## Tags -/

/-- An ASCII letter, a digit or an underscore. -/
def NameChar (c : Char) : Prop :=
  'A'.toNat ≤ c.toNat ∧ c.toNat ≤ 'Z'.toNat ∨ 'a'.toNat ≤ c.toNat ∧ c.toNat ≤ 'z'.toNat ∨
    '0'.toNat ≤ c.toNat ∧ c.toNat ≤ '9'.toNat ∨ c = '_'

/-- The characters that are read as part of a name are these. -/
theorem isNameChar_iff {c : Char} : isNameChar c = true ↔ NameChar c := by
  have hclasses : isNameChar c = (c.isUpper || c.isLower || c.isDigit || c == '_') := rfl
  rw [hclasses, Bool.or_eq_true, Bool.or_eq_true, Bool.or_eq_true, Text.isUpper_iff,
    Text.isLower_iff, Text.isDigit_iff, beq_iff_eq, or_assoc, or_assoc]
  rfl

/-- A tag that can be written: its name is not empty and has characters of a name only. -/
structure Tag.WellFormed (t : Tag) : Prop where
  name_ne_nil : t.name ≠ []
  nameChar : ∀ c ∈ t.name, NameChar c

theorem Tag.WellFormed.isNameChar {t : Tag} (h : t.WellFormed) :
    ∀ c ∈ t.name, isNameChar c = true :=
  fun c hc => isNameChar_iff.2 (h.nameChar c hc)

theorem Tag.wellFormed_of_all {t : Tag} (hne : t.name ≠ [])
    (hall : t.name.all Template.isNameChar = true) : t.WellFormed :=
  ⟨hne, fun c hc => isNameChar_iff.1 (List.all_eq_true.1 hall c hc)⟩

/-- A text in which no tag stands. -/
def TagFree (s : Text) : Prop := ∀ t : Tag, t.WellFormed → ¬ t.text <:+: s

/-- The two opening braces apart, a tag has no opening brace. -/
theorem Tag.brace_notMem_inner {t : Tag} (h : t.WellFormed) :
    '{' ∉ t.kind.sigil ++ t.name ++ ['}', '}'] := by
  have hname : '{' ∉ t.name := by
    intro hmem
    have := h.isNameChar _ hmem
    revert this
    decide
  have hsigil : '{' ∉ t.kind.sigil := by cases t.kind <;> decide
  simp [hname, hsigil]

theorem TagKind.read_sigil_append (k : TagKind) {c : Char} (hc : isNameChar c = true) (s : Text) :
    TagKind.read (k.sigil ++ c :: s) = (k, c :: s) := by
  cases k with
  | opening => rfl
  | closing => rfl
  | value =>
    have hash : c ≠ '#' := by rintro rfl; exact absurd hc (by decide)
    have slash : c ≠ '/' := by rintro rfl; exact absurd hc (by decide)
    simp only [TagKind.sigil, List.nil_append]
    unfold TagKind.read
    split
    · next heq => exact absurd (List.cons.inj heq).1 hash
    · next heq => exact absurd (List.cons.inj heq).1 slash
    · rfl

/-- A tag that can be written is read back, whatever follows it. -/
theorem Tag.read?_text_append {t : Tag} (h : t.WellFormed) (rest : Text) :
    Tag.read? (t.text ++ rest) = some (t, rest) := by
  obtain ⟨kind, name⟩ := t
  have hchars := h.isNameChar
  have hne := h.name_ne_nil
  have hread : TagKind.read (kind.sigil ++ (name ++ '}' :: '}' :: rest)) =
      (kind, name ++ '}' :: '}' :: rest) := by
    cases name with
    | nil => exact absurd rfl hne
    | cons c name => exact TagKind.read_sigil_append kind (hchars c List.mem_cons_self) _
  have htake : (name ++ '}' :: '}' :: rest).takeWhile isNameChar = name := by
    rw [List.takeWhile_append_of_pos hchars, List.takeWhile_cons_of_neg (by decide),
      List.append_nil]
  have hdrop : (name ++ '}' :: '}' :: rest).dropWhile isNameChar = '}' :: '}' :: rest := by
    rw [List.dropWhile_append_of_pos hchars, List.dropWhile_cons_of_neg (by decide)]
  have hempty : name.isEmpty = false := by
    simpa using hne
  simp [Tag.text, Tag.read?, hread, htake, hdrop, hempty]

/-- What is read as a tag can be written. -/
theorem Tag.wellFormed_of_read? {s rest : Text} {t : Tag} (h : Tag.read? s = some (t, rest)) :
    t.WellFormed := by
  unfold Tag.read? at h
  split at h
  · dsimp only at h
    split at h
    · cases h
    · next hname =>
      split at h
      · cases h
        exact wellFormed_of_all (by simpa using hname) List.all_takeWhile
      · cases h
  · cases h

theorem Tag.text_ne_nil (t : Tag) : t.text ≠ [] := List.cons_ne_nil _ _

/-- What has no `c` in it ends before a `c` does. -/
theorem prefix_of_append_eq_append_cons {α : Type} {x r a z : List α} {c : α}
    (h : x ++ r = a ++ c :: z) (hc : c ∉ x) : x <+: a := by
  rcases List.append_eq_append_iff.1 h with ⟨w, rfl, _⟩ | ⟨w, rfl, hw⟩
  · exact List.prefix_append _ _
  · cases w with
    | nil => simp
    | cons d w =>
      cases (List.cons.inj hw).1
      simp at hc

/-- **Tags do not overlap.** A tag that stands before another one ends before it. -/
theorem Tag.text_prefix_of_append_eq {t u : Tag} (ht : t.WellFormed) {a r z : Text} (ha : a ≠ [])
    (h : t.text ++ r = a ++ (u.text ++ z)) : t.text <+: a := by
  have hbrace := Tag.brace_notMem_inner ht
  cases a with
  | nil => exact absurd rfl ha
  | cons c a =>
    simp only [Tag.text, List.cons_append, List.cons.injEq] at h ⊢
    obtain ⟨rfl, h⟩ := h
    cases a with
    | nil =>
      have hinner := prefix_of_append_eq_append_cons (a := []) (List.cons.inj h).2 hbrace
      simp at hinner
    | cons d a =>
      rw [List.cons_append, List.cons.injEq] at h
      obtain ⟨rfl, h⟩ := h
      have hinner := prefix_of_append_eq_append_cons h hbrace
      exact List.cons_prefix_cons.2 ⟨rfl, List.cons_prefix_cons.2 ⟨rfl, hinner⟩⟩

/-- A tag behind a text does not change whether a tag is read at the front of the text. -/
theorem Tag.read?_append_text_eq_none {u : Tag} {a : Text} (ha : a ≠ []) (z : Text)
    (h : Tag.read? a = none) : Tag.read? (a ++ (u.text ++ z)) = none := by
  cases hr : Tag.read? (a ++ (u.text ++ z)) with
  | none => rfl
  | some found =>
    obtain ⟨t, r⟩ := found
    have ht := Tag.wellFormed_of_read? hr
    obtain ⟨b, rfl⟩ := Tag.text_prefix_of_append_eq ht ha (Tag.eq_of_read? hr).symm
    rw [Tag.read?_text_append ht] at h
    cases h

/-! ## The scan -/

namespace Token

theorem scanFrom_text_append (pos : Nat) {t : Tag} (ht : t.WellFormed) (rest : Text) :
    scanFrom pos (t.text ++ rest) = .tag t pos :: scanFrom (pos + t.text.byteCount) rest := by
  have hr := Tag.read?_text_append ht rest
  cases hs : t.text ++ rest with
  | nil => simp [Tag.text_ne_nil] at hs
  | cons c s =>
    rw [hs] at hr
    rw [scanFrom]
    split
    · next heq =>
      rw [hr] at heq
      cases heq
      rfl
    · next heq =>
      rw [hr] at heq
      cases heq

theorem scanFrom_cons_of_none (pos : Nat) {c : Char} {s : Text} (h : Tag.read? (c :: s) = none) :
    scanFrom pos (c :: s) = extend c (scanFrom (pos + c.utf8Size) s) := by
  rw [scanFrom]
  split
  · next heq =>
    rw [h] at heq
    cases heq
  · rfl

theorem extend_append_tag (c : Char) (before : List Token) (t : Tag) (pos : Nat)
    (after : List Token) :
    extend c (before ++ .tag t pos :: after) = extend c before ++ .tag t pos :: after := by
  cases before with
  | nil => rfl
  | cons token before => cases token <;> rfl

/-- **A tag in a text is a token of it**, and what is before the tag and what is behind it fall into
tokens as they would by themselves. -/
theorem scanFrom_append_tag (pos : Nat) (s : Text) {t : Tag} (ht : t.WellFormed) (rest : Text) :
    scanFrom pos (s ++ (t.text ++ rest)) = scanFrom pos s ++
      .tag t (pos + s.byteCount) :: scanFrom (pos + s.byteCount + t.text.byteCount) rest := by
  fun_induction scanFrom pos s with
  | case1 pos => exact scanFrom_text_append pos ht rest
  | case2 pos c s u behind hr ih =>
    rw [Tag.eq_of_read? hr, List.append_assoc,
      scanFrom_text_append pos (Tag.wellFormed_of_read? hr), ih]
    simp [Nat.add_assoc]
  | case3 pos c s hr ih =>
    have hnone := Tag.read?_append_text_eq_none (u := t) (List.cons_ne_nil c s) rest hr
    rw [List.cons_append] at hnone ⊢
    rw [scanFrom_cons_of_none pos hnone, ih, extend_append_tag]
    simp [Nat.add_assoc]

/-- A text without tags is one token. -/
theorem scanFrom_of_tagFree (pos : Nat) {s : Text} (hne : s ≠ []) (hs : TagFree s) :
    scanFrom pos s = [.text s] := by
  fun_induction scanFrom pos s with
  | case1 pos => exact absurd rfl hne
  | case2 pos c s u behind hr ih =>
    rw [Tag.eq_of_read? hr] at hs
    exact absurd (List.prefix_append _ _).isInfix (hs u (Tag.wellFormed_of_read? hr))
  | case3 pos c s hr ih =>
    cases s with
    | nil => simp [scanFrom, extend]
    | cons d s =>
      have hbehind : TagFree (d :: s) := fun t ht hin => hs t ht (List.infix_cons hin)
      rw [ih (List.cons_ne_nil d s) hbehind]
      rfl

/-- The tokens of a text put together are the text. -/
theorem flatMap_raw_scanFrom (pos : Nat) (s : Text) : (scanFrom pos s).flatMap raw = s := by
  fun_induction scanFrom pos s with
  | case1 pos => rfl
  | case2 pos c s u behind hr ih =>
    rw [List.flatMap_cons, ih]
    exact (Tag.eq_of_read? hr).symm
  | case3 pos c s hr ih =>
    have hextend : ∀ tokens : List Token,
        (extend c tokens).flatMap raw = c :: tokens.flatMap raw := by
      intro tokens
      cases tokens with
      | nil => rfl
      | cons token tokens => cases token <;> rfl
    rw [hextend, ih]

/-! ## The tokens of a text are determined -/

/-- Tokens that may follow each other from the byte offset `pos` on. -/
inductive Lexed : (pos : Nat) → List Token → Prop
  | nil (pos : Nat) : Lexed pos []
  /-- A text has no tag in it and no further text behind it. -/
  | text {pos : Nat} {s : Text} {tokens : List Token} (hne : s ≠ []) (hfree : TagFree s)
      (hnext : ∀ t, tokens.head? ≠ some (.text t)) (h : Lexed (pos + s.byteCount) tokens) :
      Lexed pos (.text s :: tokens)
  /-- A tag stands where it says. -/
  | tag {pos : Nat} {t : Tag} {tokens : List Token} (ht : t.WellFormed)
      (h : Lexed (pos + t.text.byteCount) tokens) : Lexed pos (.tag t pos :: tokens)

/-- A character that starts no tag may stand in front of tokens, in the text they start with. -/
theorem Lexed.extend {pos : Nat} {c : Char} {tokens : List Token}
    (h : Lexed (pos + c.utf8Size) tokens) (hr : Tag.read? (c :: tokens.flatMap raw) = none) :
    Lexed pos (Token.extend c tokens) := by
  have hfront : ∀ s rest, tokens.flatMap raw = s ++ rest → ∀ t : Tag, t.WellFormed →
      ¬ t.text <+: c :: s := by
    intro s rest hs t ht ⟨b, hb⟩
    rw [hs, ← List.cons_append, ← hb, List.append_assoc, Tag.read?_text_append ht] at hr
    cases hr
  have hsingle : TagFree [c] := by
    intro t _ hin
    have := hin.length_le
    simp [Tag.text] at this
  cases h with
  | nil => exact .text (List.cons_ne_nil _ _) hsingle (by simp) (.nil _)
  | tag ht h => exact .text (List.cons_ne_nil _ _) hsingle (by simp) (by simpa using .tag ht h)
  | @text _ s tokens hne hfree hnext h =>
    refine .text (List.cons_ne_nil _ _) ?_ hnext ?_
    · intro t ht hin
      rcases List.infix_cons_iff.1 hin with hpre | hin
      · exact hfront s _ rfl t ht hpre
      · exact hfree t ht hin
    · rw [Text.byteCount_cons, ← Nat.add_assoc]
      exact h

/-- The scan gives tokens that may follow each other. -/
theorem lexed_scanFrom (pos : Nat) (s : Text) : Lexed pos (scanFrom pos s) := by
  fun_induction scanFrom pos s with
  | case1 pos => exact .nil pos
  | case2 pos c s u behind hr ih => exact .tag (Tag.wellFormed_of_read? hr) ih
  | case3 pos c s hr ih => exact ih.extend (by rw [flatMap_raw_scanFrom]; exact hr)

/-- Tokens that may follow each other are those of the text they make up. -/
theorem Lexed.eq_scanFrom {pos : Nat} {tokens : List Token} (h : Lexed pos tokens) :
    tokens = scanFrom pos (tokens.flatMap raw) := by
  induction h with
  | nil pos => simp [scanFrom]
  | @tag pos t tokens ht h ih =>
    rw [List.flatMap_cons]
    exact (congrArg _ ih).trans (scanFrom_text_append pos ht _).symm
  | @text pos s tokens hne hfree hnext h ih =>
    have hs := scanFrom_of_tagFree pos hne hfree
    cases h with
    | nil => simpa [raw] using hs.symm
    | text => exact absurd rfl (hnext _)
    | @tag _ t tokens ht h =>
      simp only [List.flatMap_cons, raw] at ih ⊢
      rw [scanFrom_append_tag pos s ht, hs, List.singleton_append]
      rw [scanFrom_text_append _ ht] at ih
      rw [← ih]

/-- Tokens that may follow each other can be cut between any two of them. -/
theorem Lexed.of_append {pos : Nat} {before after : List Token} (h : Lexed pos (before ++ after)) :
    Lexed pos before ∧ Lexed (pos + Text.byteCount (before.flatMap raw)) after := by
  induction before generalizing pos with
  | nil => exact ⟨.nil pos, h⟩
  | cons token before ih =>
    cases h with
    | text hne hfree hnext h =>
      obtain ⟨hb, ha⟩ := ih h
      refine ⟨.text hne hfree (fun t heq => hnext t ?_) hb, ?_⟩
      · exact (List.head?_append ..).trans (by rw [heq]; rfl)
      · simpa [raw, Nat.add_assoc] using ha
    | tag ht h =>
      obtain ⟨hb, ha⟩ := ih h
      exact ⟨.tag ht hb, by simpa [raw, Nat.add_assoc] using ha⟩

/-- A tag stands in the text that tokens make up only if it is one of them. -/
theorem Lexed.exists_mem_of_text {pos : Nat} {tokens : List Token} (h : Lexed pos tokens) {t : Tag}
    (ht : t.WellFormed) (hin : t.text <:+: tokens.flatMap raw) :
    ∃ offset, Token.tag t offset ∈ tokens := by
  obtain ⟨a, z, hs⟩ := hin
  rw [h.eq_scanFrom, ← hs, List.append_assoc, scanFrom_append_tag pos a ht]
  exact ⟨_, List.mem_append_right _ List.mem_cons_self⟩

/-- A token stands in the text that tokens make up. -/
theorem raw_infix_flatMap {token : Token} {tokens : List Token} (h : token ∈ tokens) :
    token.raw <:+: tokens.flatMap raw := by
  obtain ⟨before, after, rfl⟩ := List.append_of_mem h
  exact ⟨before.flatMap raw, after.flatMap raw, by simp⟩

end Token

end MenuPages.Template
