import MenuPages.Proofs.Template.Tokenization
import MenuPages.Template.Node

/-!
# The one tree of a template

A text comes to one list of nodes and no other. `Node.rawAll` writes nodes as they stand in a
template; `Node.Canonical` says which nodes may stand in a scope, with no word on how they are
found: what a text between tags may hold, where a section may stand and what its body may hold, and
which opening tags may be left as text.

**The law** (`parse_nodes_eq_iff`): the nodes that a text is read as are the canonical nodes that
are written as that text. One half follows the reading of its tokens (`canonical_ofTokens`), with
the tokens of a body and of what is behind it as slices of the whole (`Token.Lexed.of_append`). The
other half follows the nodes (`Canonical.nodes_ofTokens`): tokens of a text are found piece by
piece (`Token.scanFrom_append_tag`), so the first closing tag of a section is the one behind its
body.
-/

namespace MenuPages.Template

/-! ## Sections by scope -/

/-- The sections that may be opened in a scope. -/
def Scope.sections : Scope → List Section
  | .bare => []
  | .page => [.categories]
  | .category => [.items]
  | .item => [.itemLabels, .itemAllergens]
  | .label => [.itemAllergens]
  | .allergen => [.itemLabels]

/-- The scope inside a section. -/
def Section.scope : Section → Scope
  | .categories => .category
  | .items => .item
  | .itemLabels => .label
  | .itemAllergens => .allergen

theorem Scope.inside?_eq_some_iff {scope inner : Scope} {sec : Section} :
    scope.inside? sec = some inner ↔ sec ∈ scope.sections ∧ inner = sec.scope := by
  cases scope <;> cases sec <;> simp [Scope.inside?, Scope.sections, Section.scope, eq_comm]

/-- A name opens the section that goes by it, where that section may be opened. -/
theorem Scope.opens?_eq_some_iff {scope inner : Scope} {name : Text} {sec : Section} :
    scope.opens? name = some (sec, inner) ↔
      name = sec.name ∧ sec ∈ scope.sections ∧ inner = sec.scope := by
  rw [← Scope.inside?_eq_some_iff]
  unfold Scope.opens?
  constructor
  · intro h
    obtain ⟨s, hs, h⟩ := Option.bind_eq_some_iff.1 h
    obtain ⟨i, hi, h⟩ := Option.map_eq_some_iff.1 h
    cases h
    exact ⟨(Section.name_of_ofName? hs).symm, hi⟩
  · rintro ⟨rfl, hi⟩
    simp [Section.ofName?_name, hi]

/-- The names of the sections, as tags have them. -/
def Section.names : List (Section × Text) :=
  [(.categories, "categories".toList), (.items, "items".toList),
    (.itemLabels, "itemLabels".toList), (.itemAllergens, "itemAllergens".toList)]

theorem Section.name_eq_iff {s : Section} {name : Text} :
    s.name = name ↔ (s, name) ∈ Section.names := by
  have hnames : Section.names = Section.all.map fun s => (s, s.name) := rfl
  rw [hnames, List.mem_map]
  constructor
  · rintro rfl
    exact ⟨s, by cases s <;> decide, rfl⟩
  · rintro ⟨t, -, ht⟩
    cases ht
    rfl

/-- The tag that opens a section. -/
def Section.openingTag (s : Section) : Tag := ⟨.opening, s.name⟩

/-- The tag that closes a section. -/
def Section.closingTag (s : Section) : Tag := ⟨.closing, s.name⟩

/-- Whatever a tag does with a section, it can be written. -/
theorem Section.wellFormed_tag (s : Section) (kind : TagKind) :
    (⟨kind, s.name⟩ : Tag).WellFormed := by
  have hnames : ∀ p ∈ Section.names, p.2 ≠ [] ∧ p.2.all isNameChar = true := by decide +kernel
  obtain ⟨hne, hall⟩ := hnames (s, s.name) (Section.name_eq_iff.1 rfl)
  exact Tag.wellFormed_of_all hne hall

theorem Section.wellFormed_openingTag (s : Section) : s.openingTag.WellFormed :=
  s.wellFormed_tag .opening

theorem Section.wellFormed_closingTag (s : Section) : s.closingTag.WellFormed :=
  s.wellFormed_tag .closing

/-! ## Nodes as they are written -/

mutual
/-- A node as it stands in a template. -/
def Node.raw : Node → Text
  | .text s => s
  | .value name => (⟨.value, name⟩ : Tag).text
  | .loop sec body => sec.openingTag.text ++ (Node.rawAll body ++ sec.closingTag.text)
/-- Nodes as they stand in a template, one behind the other. -/
def Node.rawAll : List Node → Text
  | [] => []
  | node :: nodes => node.raw ++ Node.rawAll nodes
end

namespace Node

/-- A text between tags: there is something in it, but no tag. -/
def Stretch (s : Text) : Prop := s ≠ [] ∧ TagFree s

/-- Nodes as they may stand in a scope. -/
inductive Canonical : Scope → List Node → Prop
  | nil {scope : Scope} : Canonical scope []
  /-- A text between tags reaches up to the next tag or to the end. -/
  | stretch {scope : Scope} {s : Text} {nodes : List Node} (hs : Stretch s)
      (hnext : ∀ t, nodes.head? = some (.text t) → ¬ Stretch t) (h : Canonical scope nodes) :
      Canonical scope (.text s :: nodes)
  /-- A tag that stands for a value is never text. -/
  | value {scope : Scope} {name : Text} {nodes : List Node}
      (ht : (⟨.value, name⟩ : Tag).WellFormed) (h : Canonical scope nodes) :
      Canonical scope (.value name :: nodes)
  /-- A closing tag may be text anywhere. -/
  | closing {scope : Scope} {name : Text} {nodes : List Node}
      (ht : (⟨.closing, name⟩ : Tag).WellFormed) (h : Canonical scope nodes) :
      Canonical scope (.text (⟨.closing, name⟩ : Tag).text :: nodes)
  /-- An opening tag is text if it opens no section here, or one that nothing behind it closes. -/
  | opening {scope : Scope} {name : Text} {nodes : List Node}
      (ht : (⟨.opening, name⟩ : Tag).WellFormed)
      (hopen : ∀ sec ∈ scope.sections, sec.name = name →
        ¬ sec.closingTag.text <:+: Node.rawAll nodes)
      (h : Canonical scope nodes) :
      Canonical scope (.text (⟨.opening, name⟩ : Tag).text :: nodes)
  /-- A section stands where it may be opened, and nothing in its body closes it. -/
  | loop {scope : Scope} {sec : Section} {body nodes : List Node} (hsec : sec ∈ scope.sections)
      (hclose : ¬ sec.closingTag.text <:+: Node.rawAll body) (hbody : Canonical sec.scope body)
      (h : Canonical scope nodes) : Canonical scope (.loop sec body :: nodes)

@[simp] theorem rawAll_nil : rawAll [] = [] := by rw [rawAll]

@[simp] theorem rawAll_cons (node : Node) (nodes : List Node) :
    rawAll (node :: nodes) = node.raw ++ rawAll nodes := by rw [rawAll]

@[simp] theorem raw_text (s : Text) : (text s).raw = s := by rw [raw]

@[simp] theorem raw_value (name : Text) : (value name).raw = (⟨.value, name⟩ : Tag).text := by
  rw [raw]

@[simp] theorem raw_loop (sec : Section) (body : List Node) :
    (loop sec body).raw = sec.openingTag.text ++ (rawAll body ++ sec.closingTag.text) := by
  rw [raw]

/-- A tag is not a text between tags. -/
theorem not_stretch_of_wellFormed {t : Tag} (ht : t.WellFormed) : ¬ Stretch t.text :=
  fun hs => hs.2 t ht List.infix_rfl

end Node

/-- A section among canonical nodes may be opened where they stand, and nothing in its body, which
is canonical as well, closes it. -/
theorem Node.Canonical.of_mem_loop {scope : Scope} {nodes body : List Node} {sec : Section}
    (h : Canonical scope nodes) (hmem : .loop sec body ∈ nodes) :
    sec ∈ scope.sections ∧ ¬ sec.closingTag.text <:+: rawAll body ∧ Canonical sec.scope body := by
  induction h with
  | nil => cases hmem
  | loop hsec hclose hbody h ihbody ih =>
    rcases List.mem_cons.1 hmem with heq | hmem
    · cases heq
      exact ⟨hsec, hclose, hbody⟩
    · exact ih hmem
  | stretch hs hnext h ih => exact ih ((List.mem_cons.1 hmem).resolve_left nofun)
  | value ht h ih => exact ih ((List.mem_cons.1 hmem).resolve_left nofun)
  | closing ht h ih => exact ih ((List.mem_cons.1 hmem).resolve_left nofun)
  | opening ht hopen h ih => exact ih ((List.mem_cons.1 hmem).resolve_left nofun)

/-! ## The first closing tag -/

theorem Token.closes_iff {name : Text} {token : Token} :
    token.closes name = true ↔ ∃ pos, token = .tag ⟨.closing, name⟩ pos := by
  cases token <;> simp [Token.closes]

theorem splitAtClosing?_eq_none_iff {name : Text} {tokens : List Token} :
    splitAtClosing? name tokens = none ↔ ∀ token ∈ tokens, token.closes name = false := by
  induction tokens with
  | nil => simp [splitAtClosing?]
  | cons token tokens ih =>
    rw [splitAtClosing?]
    split
    · next hc => simp [hc]
    · next hc => simp [ih, hc]

/-- Tokens are split at the first closing tag of the name, which is left out. -/
theorem splitAtClosing?_eq_some_iff {name : Text} {tokens body after : List Token} :
    splitAtClosing? name tokens = some (body, after) ↔
      (∀ token ∈ body, token.closes name = false) ∧
        ∃ pos, tokens = body ++ .tag ⟨.closing, name⟩ pos :: after := by
  induction tokens generalizing body with
  | nil => simp [splitAtClosing?]
  | cons token tokens ih =>
    rw [splitAtClosing?]
    split
    · next hc =>
      obtain ⟨pos, rfl⟩ := Token.closes_iff.1 hc
      cases body with
      | nil =>
        constructor
        · intro h
          cases h
          exact ⟨by simp, pos, rfl⟩
        · rintro ⟨_, _, heq⟩
          rw [(List.cons.inj heq).2]
      | cons b body =>
        simp only [Option.some.injEq, Prod.mk.injEq, List.cons_append, List.cons.injEq]
        constructor
        · rintro ⟨hnil, _⟩
          cases hnil
        · rintro ⟨hb, _, rfl, _⟩
          rw [hb _ List.mem_cons_self] at hc
          cases hc
    · next hc =>
      cases body with
      | nil =>
        constructor
        · intro h
          obtain ⟨_, _, heq⟩ := Option.map_eq_some_iff.1 h
          cases heq
        · rintro ⟨_, pos, heq⟩
          exact absurd (Token.closes_iff.2 ⟨pos, (List.cons.inj heq).1⟩) hc
      | cons b body =>
        constructor
        · intro h
          obtain ⟨⟨a, z⟩, hp, heq⟩ := Option.map_eq_some_iff.1 h
          cases heq
          obtain ⟨hbody, pos, rfl⟩ := ih.1 hp
          exact ⟨List.forall_mem_cons.2 ⟨by simpa using hc, hbody⟩, pos, rfl⟩
        · rintro ⟨hbody, pos, heq⟩
          obtain ⟨rfl, rfl⟩ := List.cons.inj heq
          rw [ih.2 ⟨(List.forall_mem_cons.1 hbody).2, pos, rfl⟩]
          rfl

/-- No token closes a section if its closing tag does not stand in what the tokens make up. -/
theorem closes_eq_false {name : Text} {tokens : List Token}
    (h : ¬ (⟨.closing, name⟩ : Tag).text <:+: tokens.flatMap Token.raw) :
    ∀ token ∈ tokens, token.closes name = false := by
  intro token hmem
  cases hc : token.closes name with
  | false => rfl
  | true =>
    obtain ⟨pos, rfl⟩ := Token.closes_iff.1 hc
    exact absurd (Token.raw_infix_flatMap hmem) h

/-- A closing tag does not stand in what tokens make up if none of them is that tag. -/
theorem not_infix_of_closes_eq_false {pos : Nat} {tokens : List Token} (hl : Token.Lexed pos tokens)
    {sec : Section} (h : ∀ token ∈ tokens, token.closes sec.name = false) :
    ¬ sec.closingTag.text <:+: tokens.flatMap Token.raw := by
  intro hin
  obtain ⟨offset, hmem⟩ := hl.exists_mem_of_text sec.wellFormed_closingTag hin
  have hc : Token.closes sec.name (.tag sec.closingTag offset) = true :=
    Token.closes_iff.2 ⟨offset, rfl⟩
  rw [h _ hmem] at hc
  cases hc

/-! ## What tokens are read as -/

namespace Reading

/-- Reading loses nothing: the nodes are written as the tokens are. -/
theorem rawAll_ofTokens (source : Text) (scope : Scope) (tokens : List Token) :
    Node.rawAll (ofTokens source scope tokens).nodes = tokens.flatMap Token.raw := by
  fun_induction ofTokens source scope tokens with
  | case1 scope => rfl
  | case2 scope s tokens ih => simp [cons, Token.raw, ih]
  | case3 scope t pos tokens hk ih =>
    obtain ⟨kind, name⟩ := t
    cases hk
    simp [cons, Token.raw, ih]
  | case4 scope t pos tokens hk ih => simp [cons, Token.raw, ih]
  | case5 scope t pos tokens hk ho ih => simp [cons, Token.raw, ih]
  | case6 scope t pos tokens hk sec inner ho hn ih => simp [cons, Token.raw, ih]
  | case7 scope t pos tokens hk sec inner ho body after hs inside ihbody ihafter =>
    obtain ⟨kind, name⟩ := t
    cases hk
    obtain ⟨rfl, _⟩ := Scope.opens?_eq_some_iff.1 ho
    obtain ⟨_, offset, rfl⟩ := splitAtClosing?_eq_some_iff.1 hs
    simp only [cons, Node.rawAll_cons, Node.raw_loop, inside, ihbody, ihafter]
    simp [Token.raw, Section.openingTag, Section.closingTag]

/-- Behind a text there is no further text, so no text between tags is read. -/
theorem not_stretch_head?_ofTokens {source : Text} {scope : Scope} {pos : Nat}
    {tokens : List Token} (hl : Token.Lexed pos tokens)
    (hnext : ∀ s, tokens.head? ≠ some (.text s)) {s : Text}
    (hs : (ofTokens source scope tokens).nodes.head? = some (.text s)) : ¬ Node.Stretch s := by
  cases hl with
  | nil =>
    rw [ofTokens] at hs
    cases hs
  | text => exact absurd rfl (hnext _)
  | @tag _ t tokens ht hl =>
    suffices s = t.text by
      rw [this]
      exact Node.not_stretch_of_wellFormed ht
    rw [ofTokens] at hs
    split at hs
    · cases hs
    · cases hs
      rfl
    · split at hs
      · cases hs
        rfl
      · split at hs
        · cases hs
          rfl
        · cases hs

/-- **What tokens are read as is canonical.** -/
theorem canonical_ofTokens (source : Text) {scope : Scope} {pos : Nat} {tokens : List Token}
    (hl : Token.Lexed pos tokens) : Node.Canonical scope (ofTokens source scope tokens).nodes := by
  fun_induction ofTokens source scope tokens generalizing pos with
  | case1 scope => exact .nil
  | case2 scope s tokens ih =>
    cases hl with
    | text hne hfree hnext hl =>
      exact .stretch ⟨hne, hfree⟩ (fun t ht => not_stretch_head?_ofTokens hl hnext ht) (ih hl)
  | case3 scope t pos tokens hk ih =>
    cases hl with
    | tag ht hl =>
      obtain ⟨kind, name⟩ := t
      cases hk
      exact .value ht (ih hl)
  | case4 scope t pos tokens hk ih =>
    cases hl with
    | tag ht hl =>
      obtain ⟨kind, name⟩ := t
      cases hk
      exact .closing ht (ih hl)
  | case5 scope t pos tokens hk ho ih =>
    cases hl with
    | tag ht hl =>
      obtain ⟨kind, name⟩ := t
      cases hk
      refine .opening ht (fun sec hsec hname => ?_) (ih hl)
      rw [Scope.opens?_eq_some_iff.2 ⟨hname.symm, hsec, rfl⟩] at ho
      cases ho
  | case6 scope t pos tokens hk sec inner ho hn ih =>
    cases hl with
    | tag ht hl =>
      obtain ⟨kind, name⟩ := t
      cases hk
      refine .opening ht (fun found hfound hname => ?_) (ih hl)
      rw [rawAll_ofTokens]
      refine not_infix_of_closes_eq_false hl ?_
      rw [hname]
      exact splitAtClosing?_eq_none_iff.1 hn
  | case7 scope t offset tokens hk sec inner ho body after hs inside ihbody =>
    rename_i ihafter
    cases hl with
    | tag ht hl =>
      obtain ⟨hname, hsec, rfl⟩ := Scope.opens?_eq_some_iff.1 ho
      obtain ⟨hclose, offset, rfl⟩ := splitAtClosing?_eq_some_iff.1 hs
      obtain ⟨hlbody, hlrest⟩ := hl.of_append
      cases hlrest with
      | tag _ hlafter =>
        refine .loop hsec ?_ (ihbody hlbody) (ihafter hlafter)
        rw [rawAll_ofTokens]
        rw [hname] at hclose
        exact not_infix_of_closes_eq_false hlbody hclose

end Reading

/-! ## Canonical nodes are read back -/

namespace Node.Canonical

/-- Behind a text between tags a tag stands, or nothing. -/
theorem rawAll_eq_nil_or_tag {scope : Scope} {nodes : List Node} (h : Canonical scope nodes)
    (hnext : ∀ t, nodes.head? = some (.text t) → ¬ Stretch t) :
    rawAll nodes = [] ∨
      ∃ (t : Tag) (rest : Text), t.WellFormed ∧ rawAll nodes = t.text ++ rest := by
  cases h with
  | nil => exact Or.inl rawAll_nil
  | stretch hs => exact absurd hs (hnext _ rfl)
  | value ht => exact Or.inr ⟨_, _, ht, by rw [rawAll_cons, raw_value]⟩
  | closing ht => exact Or.inr ⟨_, _, ht, by rw [rawAll_cons, raw_text]⟩
  | opening ht => exact Or.inr ⟨_, _, ht, by rw [rawAll_cons, raw_text]⟩
  | @loop _ sec =>
    exact Or.inr ⟨_, _, sec.wellFormed_openingTag, by rw [rawAll_cons, raw_loop, List.append_assoc]⟩

/-- **Canonical nodes are what the text they are written as is read as**, wherever that text
starts. -/
theorem nodes_ofTokens (source : Text) {scope : Scope} {nodes : List Node}
    (h : Canonical scope nodes) (pos : Nat) :
    (Reading.ofTokens source scope (Token.scanFrom pos (rawAll nodes))).nodes = nodes := by
  induction h generalizing pos with
  | nil => simp [Token.scanFrom, Reading.ofTokens]
  | @stretch scope s nodes hs hnext h ih =>
    have hscan : Token.scanFrom pos (s ++ rawAll nodes) =
        .text s :: Token.scanFrom (pos + s.byteCount) (rawAll nodes) := by
      have hone := Token.scanFrom_of_tagFree pos hs.1 hs.2
      rcases h.rawAll_eq_nil_or_tag hnext with hnil | ⟨t, rest, ht, hrest⟩
      · simpa [hnil, Token.scanFrom] using hone
      · rw [hrest, Token.scanFrom_append_tag pos s ht, hone, Token.scanFrom_text_append _ ht]
        rfl
    rw [rawAll_cons, raw_text, hscan, Reading.ofTokens]
    simp [Reading.cons, ih]
  | value ht h ih =>
    rw [rawAll_cons, raw_value, Token.scanFrom_text_append pos ht, Reading.ofTokens]
    simp [Reading.cons, ih]
  | closing ht h ih =>
    rw [rawAll_cons, raw_text, Token.scanFrom_text_append pos ht, Reading.ofTokens]
    simp [Reading.cons, ih]
  | @opening scope name nodes ht hopen h ih =>
    rw [rawAll_cons, raw_text, Token.scanFrom_text_append pos ht, Reading.ofTokens]
    dsimp only
    split
    · simp [Reading.cons, ih]
    · next sec inner ho =>
      obtain ⟨rfl, hsec, rfl⟩ := Scope.opens?_eq_some_iff.1 ho
      have hnone : splitAtClosing? sec.name
          (Token.scanFrom (pos + (⟨.opening, sec.name⟩ : Tag).text.byteCount) (rawAll nodes)) =
            none := by
        refine splitAtClosing?_eq_none_iff.2 (closes_eq_false ?_)
        rw [Token.flatMap_raw_scanFrom]
        exact hopen sec hsec rfl
      split
      · simp [Reading.cons, ih]
      · next hs =>
        rw [hnone] at hs
        cases hs
  | @loop scope sec body nodes hsec hclose hbody h ihbody ih =>
    have hsplit (pos : Nat) : ∃ next, splitAtClosing? sec.name (Token.scanFrom pos
        (rawAll body ++ (sec.closingTag.text ++ rawAll nodes))) =
          some (Token.scanFrom pos (rawAll body), Token.scanFrom next (rawAll nodes)) := by
      rw [Token.scanFrom_append_tag pos _ sec.wellFormed_closingTag]
      refine ⟨_, splitAtClosing?_eq_some_iff.2 ⟨closes_eq_false ?_, _, rfl⟩⟩
      rw [Token.flatMap_raw_scanFrom]
      exact hclose
    rw [rawAll_cons, raw_loop, List.append_assoc, List.append_assoc,
      Token.scanFrom_text_append pos sec.wellFormed_openingTag, Reading.ofTokens]
    obtain ⟨next, hnext⟩ := hsplit (pos + sec.openingTag.text.byteCount)
    have hopens : scope.opens? sec.name = some (sec, sec.scope) :=
      Scope.opens?_eq_some_iff.2 ⟨rfl, hsec, rfl⟩
    simp only [Section.openingTag] at hnext ⊢
    split
    · next ho =>
      rw [hopens] at ho
      cases ho
    · next ho =>
      rw [hopens] at ho
      cases ho
      split
      · next hs =>
        rw [hnext] at hs
        cases hs
      · next hs =>
        rw [hnext] at hs
        cases hs
        simp [Reading.cons, ih, ihbody]

end Node.Canonical

/-- **The one tree of a template.** The nodes that a text is read as are canonical and are written
as that text, and no other nodes are. -/
theorem parse_nodes_eq_iff (source : Text) (nodes : List Node) :
    (parse source).1.nodes = nodes ↔ Node.rawAll nodes = source ∧ Node.Canonical .page nodes := by
  constructor
  · rintro rfl
    refine ⟨?_, Reading.canonical_ofTokens source (Token.lexed_scanFrom 0 source)⟩
    exact (Reading.rawAll_ofTokens ..).trans (Token.flatMap_raw_scanFrom 0 source)
  · rintro ⟨rfl, h⟩
    exact h.nodes_ofTokens _ 0

end MenuPages.Template
