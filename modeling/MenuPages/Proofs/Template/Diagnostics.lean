import MenuPages.Proofs.Template.Canonical

/-!
# What is reported about a template

Some tags of a template stay text. `Node.keptTags` finds them in the tree that was made of the
template, each with what of the template stands before it and with the scope that it stands in. What
is said of such a tag (`KeptTag.message?`) and the line it is on (`KeptTag.line`) depend on these
alone.

**The law** (`parse_diagnosed`): the log of a template says of the tags that its tree keeps as text
what is to be said of them, one after the other, and nothing else. What carries it through the
sections is that the tokens of a body are a slice of those of the whole (`Token.Lexed.of_append`),
so that a tag still stands at the offset in the whole template that it was found at
(`Reading.events_ofTokens`).
-/

namespace MenuPages

/-- The line of an offset is one more than the newlines before it. -/
theorem Text.lineAt_append (before behind : Text) :
    Text.lineAt (before ++ behind) before.byteCount = 1 + before.count '\n' := by
  have hnewlines : newlinesWithin before.byteCount (before ++ behind) = before.count '\n' := by
    induction before with
    | nil => cases behind <;> rfl
    | cons c s ih =>
      obtain ⟨n, hn⟩ := Nat.exists_eq_add_of_le' c.utf8Size_pos
      have hbytes : byteCount (c :: s) = n + byteCount s + 1 := by
        rw [byteCount_cons, hn]
        omega
      have hrest : n + byteCount s + 1 - c.utf8Size = byteCount s := by omega
      rw [hbytes, List.cons_append, newlinesWithin, hrest, ih, List.count_cons, Nat.add_comm]
      simp
  rw [lineAt, hnewlines, Nat.add_comm]

namespace Template

/-! ## Tags that are kept as text -/

/-- The tag that a text is, if it is that and nothing else. -/
def Tag.ofText? (s : Text) : Option Tag :=
  match Tag.read? s with
  | some (t, []) => some t
  | _ => none

theorem Tag.ofText?_eq_some_iff {s : Text} {t : Tag} :
    Tag.ofText? s = some t ↔ t.WellFormed ∧ s = t.text := by
  constructor
  · intro h
    unfold Tag.ofText? at h
    split at h
    · next hread =>
      cases h
      exact ⟨Tag.wellFormed_of_read? hread, (Tag.eq_of_read? hread).trans (List.append_nil _)⟩
    · cases h
  · rintro ⟨ht, rfl⟩
    have hread := Tag.read?_text_append ht []
    rw [List.append_nil] at hread
    rw [Tag.ofText?, hread]

theorem Tag.ofText?_eq_none {s : Text} (h : TagFree s) : Tag.ofText? s = none := by
  rw [Option.eq_none_iff_forall_ne_some]
  intro t hsome
  obtain ⟨ht, rfl⟩ := Tag.ofText?_eq_some_iff.1 hsome
  exact h t ht List.infix_rfl

/-- A tag that a template keeps as text. -/
structure KeptTag where
  /-- What of the template stands before it. -/
  before : Text
  scope : Scope
  tag : Tag

namespace KeptTag

/-- The line it is on, counted from 1. -/
def line (k : KeptTag) : Nat := 1 + k.before.count '\n'

/-- What is said of it: nothing, if it opens what is no section where it stands. -/
def message? (k : KeptTag) : Option Text :=
  match k.tag.kind with
  | .value => none
  | .closing => some ("Stray closing tag ".toList ++ k.tag.text)
  | .opening =>
    if (k.scope.sections.map Section.name).contains k.tag.name then
      some ("Section \"".toList ++ k.tag.name ++ "\" is never closed".toList)
    else none

/-- The message and the fields that it is reported with, if it is. -/
def report? (k : KeptTag) : Option (Text × List (Text × FieldValue)) :=
  k.message?.map fun message => (message, [("line".toList, .number k.line)])

end KeptTag

/-- The tags that nodes keep as text, in order, if the nodes stand in this scope and behind this
text. -/
def Node.keptTags (scope : Scope) (before : Text) : List Node → List KeptTag
  | [] => []
  | .text s :: nodes =>
    ((Tag.ofText? s).map fun t => ⟨before, scope, t⟩).toList ++ keptTags scope (before ++ s) nodes
  | .value name :: nodes => keptTags scope (before ++ (⟨.value, name⟩ : Tag).text) nodes
  | .loop sec body :: nodes =>
    keptTags sec.scope (before ++ sec.openingTag.text) body ++
      keptTags scope (before ++ (Node.loop sec body).raw) nodes

/-! ## Where they stand -/

/-- Tags stand in a text that is behind another one. -/
structure KeptTag.Stand (before s : Text) (ks : List KeptTag) : Prop where
  /-- Each is a tag, and stands there where it is said to. -/
  within : ∀ k ∈ ks,
    k.tag.WellFormed ∧ before <+: k.before ∧ k.before ++ k.tag.text <+: before ++ s
  /-- They stand there in this order, and none of them twice. -/
  in_order : ks.Pairwise fun k l => k.before ++ k.tag.text <+: l.before

namespace KeptTag.Stand

variable {before s t : Text} {ks ls : List KeptTag}

theorem none (before s : Text) : Stand before s [] := ⟨nofun, .nil⟩

theorem single (before : Text) (scope : Scope) {t : Tag} (ht : t.WellFormed) :
    Stand before t.text [⟨before, scope, t⟩] where
  within := List.forall_mem_singleton.2 ⟨ht, List.prefix_rfl, List.prefix_rfl⟩
  in_order := List.pairwise_singleton ..

theorem append (h : Stand before s ks) (h' : Stand (before ++ s) t ls) :
    Stand before (s ++ t) (ks ++ ls) where
  within := by
    rw [← List.append_assoc]
    intro k hk
    rcases List.mem_append.1 hk with hk | hk
    · obtain ⟨ht, hbefore, hwithin⟩ := h.within k hk
      exact ⟨ht, hbefore, hwithin.trans (List.prefix_append _ _)⟩
    · obtain ⟨ht, hbefore, hwithin⟩ := h'.within k hk
      exact ⟨ht, (List.prefix_append _ _).trans hbefore, hwithin⟩
  in_order := by
    refine List.pairwise_append.2 ⟨h.in_order, h'.in_order, fun k hk l hl => ?_⟩
    obtain ⟨-, -, hwithin⟩ := h.within k hk
    obtain ⟨-, hbefore, -⟩ := h'.within l hl
    exact hwithin.trans hbefore

/-- What is around a text is no matter. -/
theorem inside {a : Text} (h : Stand (before ++ a) s ks) (z : Text) :
    Stand before (a ++ (s ++ z)) ks := by
  have haround := (none before a).append (h.append (none (before ++ a ++ s) z))
  rwa [List.nil_append, List.append_nil] at haround

end KeptTag.Stand

/-- The tags that nodes keep stand in what the nodes are written as. -/
theorem Node.stand_keptTags (scope : Scope) (before : Text) (nodes : List Node) :
    KeptTag.Stand before (Node.rawAll nodes) (Node.keptTags scope before nodes) :=
  match nodes with
  | [] => by
    rw [Node.keptTags]
    exact .none before _
  | .text s :: nodes => by
    have hfront : KeptTag.Stand before s
        ((Tag.ofText? s).map fun t => KeptTag.mk before scope t).toList := by
      cases htag : Tag.ofText? s with
      | none => exact .none before s
      | some t =>
        obtain ⟨ht, rfl⟩ := Tag.ofText?_eq_some_iff.1 htag
        exact .single before scope ht
    rw [Node.keptTags, Node.rawAll_cons, Node.raw_text]
    exact hfront.append (Node.stand_keptTags scope (before ++ s) nodes)
  | .value name :: nodes => by
    rw [Node.keptTags, Node.rawAll_cons, Node.raw_value]
    exact (KeptTag.Stand.none before _).append (Node.stand_keptTags scope _ nodes)
  | .loop sec body :: nodes => by
    have hbody := (Node.stand_keptTags sec.scope (before ++ sec.openingTag.text) body).inside
      sec.closingTag.text
    rw [Node.keptTags, Node.rawAll_cons]
    rw [← Node.raw_loop] at hbody
    exact hbody.append (Node.stand_keptTags scope _ nodes)

/-! ## What is reported of tokens -/

/-- Tokens stand in a source, behind this part of it. -/
structure Token.StandIn (source before : Text) (tokens : List Token) : Prop where
  lexed : Token.Lexed before.byteCount tokens
  within : before ++ tokens.flatMap Token.raw <+: source

namespace Token.StandIn

variable {source before : Text} {tokens front behind : List Token} {token : Token} {t : Tag}
  {pos : Nat}

theorem of_append (h : StandIn source before (front ++ behind)) :
    StandIn source before front ∧ StandIn source (before ++ front.flatMap Token.raw) behind := by
  obtain ⟨hfront, hbehind⟩ := h.lexed.of_append
  have hwithin := h.within
  rw [List.flatMap_append, ← List.append_assoc] at hwithin
  exact ⟨⟨hfront, (List.prefix_append _ _).trans hwithin⟩, by rwa [Text.byteCount_append], hwithin⟩

theorem of_cons (h : StandIn source before (token :: tokens)) :
    StandIn source (before ++ token.raw) tokens := by
  have hsplit : StandIn source before ([token] ++ tokens) := h
  have hbehind := hsplit.of_append.2
  rwa [List.flatMap_singleton] at hbehind

/-- A tag that stands first is on the line that what is before it ends on. -/
theorem line_eq (h : StandIn source before (.tag t pos :: tokens)) :
    source.lineAt pos = 1 + before.count '\n' := by
  obtain ⟨behind, rfl⟩ := h.within
  cases h.lexed
  rw [List.append_assoc]
  exact Text.lineAt_append before _

/-- A tag that stands first is kept if it is made a text, and what is to be said of it is said. -/
theorem keptTags_text (h : StandIn source before (.tag t pos :: tokens)) (scope : Scope)
    (nodes : List Node) :
    Node.keptTags scope before (.text t.text :: nodes) =
      ⟨before, scope, t⟩ :: Node.keptTags scope (before ++ t.text) nodes := by
  cases h.lexed with
  | tag ht hl =>
    rw [Node.keptTags, Tag.ofText?_eq_some_iff.2 ⟨ht, rfl⟩]
    rfl

end Token.StandIn

theorem Scope.opens?_eq_none_iff {scope : Scope} {name : Text} :
    scope.opens? name = none ↔ name ∉ scope.sections.map Section.name := by
  constructor
  · intro h hmem
    obtain ⟨sec, hsec, rfl⟩ := List.mem_map.1 hmem
    rw [Scope.opens?_eq_some_iff.2 ⟨rfl, hsec, rfl⟩] at h
    cases h
  · intro hnot
    rw [Option.eq_none_iff_forall_ne_some]
    rintro ⟨sec, inner⟩ hopens
    obtain ⟨rfl, hsec, -⟩ := Scope.opens?_eq_some_iff.1 hopens
    exact hnot (List.mem_map_of_mem hsec)

namespace KeptTag

variable {k : KeptTag}

theorem report?_closing (hkind : k.tag.kind = .closing) :
    k.report? = some ((Event.strayClosing k.tag.name k.line).message,
      (Event.strayClosing k.tag.name k.line).fields) := by
  obtain ⟨before, scope, kind, name⟩ := k
  cases hkind
  rfl

theorem report?_opening (hkind : k.tag.kind = .opening)
    (hmem : k.tag.name ∈ k.scope.sections.map Section.name) :
    k.report? = some ((Event.neverClosed k.tag.name k.line).message,
      (Event.neverClosed k.tag.name k.line).fields) := by
  obtain ⟨before, scope, kind, name⟩ := k
  cases hkind
  exact congrArg (Option.map _) (if_pos (List.contains_iff_mem.2 hmem))

theorem report?_opening_of_notMem (hkind : k.tag.kind = .opening)
    (hnot : k.tag.name ∉ k.scope.sections.map Section.name) : k.report? = none := by
  obtain ⟨before, scope, kind, name⟩ := k
  cases hkind
  exact congrArg (Option.map _) (if_neg (mt List.contains_iff_mem.1 hnot))

end KeptTag

/-- What is reported of tokens is what is to be said of the tags that their nodes keep as text,
wherever in the source the tokens stand. -/
theorem Reading.events_ofTokens {source before : Text} {scope : Scope} {tokens : List Token}
    (h : Token.StandIn source before tokens) :
    (ofTokens source scope tokens).events.map (fun e => (e.message, e.fields)) =
      (Node.keptTags scope before (ofTokens source scope tokens).nodes).filterMap
        KeptTag.report? := by
  fun_induction ofTokens source scope tokens generalizing before with
  | case1 scope => rw [Node.keptTags]; rfl
  | case2 scope s tokens ih =>
    cases h.lexed with
    | text hne hfree =>
      have hrest := ih h.of_cons
      rw [cons, Node.keptTags, Tag.ofText?_eq_none hfree]
      exact hrest
  | case3 scope t pos tokens hk ih =>
    obtain ⟨kind, name⟩ := t
    cases hk
    rw [cons, Node.keptTags]
    exact ih h.of_cons
  | case4 scope t pos tokens hk ih =>
    rw [cons, h.keptTags_text, List.filterMap_cons_some (KeptTag.report?_closing hk),
      List.map_append, ih h.of_cons, h.line_eq]
    rfl
  | case5 scope t pos tokens hk ho ih =>
    have hnone := KeptTag.report?_opening_of_notMem (k := ⟨before, scope, t⟩) hk
      (Scope.opens?_eq_none_iff.1 ho)
    rw [cons, h.keptTags_text, List.filterMap_cons_none hnone]
    exact ih h.of_cons
  | case6 scope t pos tokens hk sec inner ho hn ih =>
    obtain ⟨hname, hsec, -⟩ := Scope.opens?_eq_some_iff.1 ho
    have hmem : t.name ∈ scope.sections.map Section.name := hname ▸ List.mem_map_of_mem hsec
    rw [cons, h.keptTags_text,
      List.filterMap_cons_some (KeptTag.report?_opening (k := ⟨before, scope, t⟩) hk hmem),
      List.map_append, ih h.of_cons, h.line_eq]
    rfl
  | case7 scope t pos tokens hk sec inner ho body after hs inside ihbody =>
    rename_i ihafter
    obtain ⟨kind, name⟩ := t
    cases hk
    obtain ⟨rfl, hsec, rfl⟩ := Scope.opens?_eq_some_iff.1 ho
    obtain ⟨-, offset, rfl⟩ := splitAtClosing?_eq_some_iff.1 hs
    obtain ⟨hbody, hbehind⟩ := h.of_cons.of_append
    have hraw : before ++ (Node.loop sec inside.nodes).raw =
        before ++ sec.openingTag.text ++ body.flatMap Token.raw ++ sec.closingTag.text := by
      rw [Node.raw_loop, rawAll_ofTokens]
      simp
    rw [cons, Node.keptTags, hraw, List.filterMap_append, List.map_append, ihbody hbody,
      ihafter hbehind.of_cons]
    rfl

/-- What is true of the log of a template that was read from a source. -/
structure Diagnosed (scope : Scope) (source : Text) (parsed : Template × List Event) : Prop where
  /-- What is said, and of which lines, is what is to be said of the tags that the tree keeps as
  text, in order. -/
  log_eq : parsed.2.map (fun e => (e.message, e.fields)) =
    (Node.keptTags scope [] parsed.1.nodes).filterMap KeptTag.report?
  /-- These tags stand in the source in this order. -/
  stand : KeptTag.Stand [] source (Node.keptTags scope [] parsed.1.nodes)

theorem diagnosed_parseIn (scope : Scope) (source : Text) :
    Diagnosed scope source (parseIn scope source) := by
  have hraw := Token.flatMap_raw_scanFrom 0 source
  have hwithin : Token.StandIn source [] (Token.scan source) :=
    ⟨Token.lexed_scanFrom 0 source, [], (List.append_nil _).trans hraw⟩
  have hstand := Node.stand_keptTags scope [] (parseIn scope source).1.nodes
  have hsource : Node.rawAll (parseIn scope source).1.nodes = source :=
    (Reading.rawAll_ofTokens source scope _).trans hraw
  rw [hsource] at hstand
  exact ⟨Reading.events_ofTokens hwithin, hstand⟩

/-- **The log of a template.** Read as the template of a page or as one without sections, a text is
reported about once for each closing tag that stays text, and for each opening tag that stays text
though its section may be opened where it stands. The reports come in the order of the tags, however
deep in sections these are, and each names the line that its tag is on in the whole text. -/
theorem parse_diagnosed (source : Text) :
    Diagnosed .page source (parse source) ∧ Diagnosed .bare source (parseBare source) :=
  ⟨diagnosed_parseIn .page source, diagnosed_parseIn .bare source⟩

/-- A section that is never closed, in one that is, and tags around it that open or close
nothing. -/
example : (parse ("\x7b\x7b#items\x7d\x7d\n\x7b\x7b#categories\x7d\x7d".toList ++
      "\x7b\x7b#items\x7d\x7d\n\x7b\x7b/label\x7d\x7d\x7b\x7b/categories\x7d\x7d".toList)).2 =
    [.neverClosed "items".toList 2, .strayClosing "label".toList 3] := by
  decide +kernel

end Template

end MenuPages
