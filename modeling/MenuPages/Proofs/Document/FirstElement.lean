import MenuPages.Document.Split
import MenuPages.Proofs.Document.Pattern

/-!
# The first element of a name

What the parts of a page are, said by a pattern and said by a cut. The pattern (`elementPattern`) is
that of an element: its opening with anything up to a `>`, as little as possible that is kept, and
its end tag. A cut of a page (`Cut.IsFirst`) shows the same in the open: the opening is the first
one, its tag ends at the first `>`, and the content at the first end tag.

**The law** (`split_first_elements`): what the pattern keeps is the content of a cut, there is at
most one cut, and where there is none the pattern matches nowhere. The last part is what allows the
split to look at the first opening only. If the pattern matches at a later one, then everything that
it needs there stands behind the first opening as well (`suffix_inside?`), so it matches there too.
-/

namespace MenuPages.Document

open Text

/-- An element of a name, of which the content is kept. -/
def elementPattern (name : Text) : Pattern :=
  .followed (.word ('<' :: name))
    (.followed (.most (· != '>'))
      (.followed (.word ['>'])
        (.followed (.kept (.fewest fun _ => true)) (.word ('<' :: '/' :: (name ++ ['>']))))))

/-! ## The pattern at one place -/

/-- What is behind the first `>`. -/
def inside? (s : Text) : Option Text := (s.dropWhile (· != '>')).tail?

theorem bne_of_notMem {s : Text} (h : '>' ∉ s) : ∀ c ∈ s, (c != '>') = true := by
  intro c hc
  rw [bne_iff_ne]
  intro hend
  exact h (hend ▸ hc)

theorem inside?_eq_some_iff {s inside : Text} :
    inside? s = some inside ↔ ∃ t, s = t ++ '>' :: inside ∧ '>' ∉ t := by
  constructor
  · intro h
    rw [inside?] at h
    cases hdrop : s.dropWhile (· != '>') with
    | nil =>
      rw [hdrop] at h
      cases h
    | cons c behind =>
      rw [hdrop] at h
      cases h
      have hc : c = '>' := by
        have hhead := List.head?_dropWhile_not (· != '>') s
        rw [hdrop] at hhead
        simpa using hhead
      refine ⟨s.takeWhile (· != '>'), ?_, ?_⟩
      · have hwhole := List.takeWhile_append_dropWhile (p := (· != '>')) (l := s)
        rw [hdrop, hc] at hwhole
        exact hwhole.symm
      · intro hmem
        exact absurd (List.all_eq_true.1 List.all_takeWhile _ hmem) (by decide)
  · rintro ⟨t, rfl, ht⟩
    rw [inside?, dropWhile_append_cons (bne_of_notMem ht) (by decide)]
    rfl

/-- What is behind the first `>` of the end of a text stands behind the first `>` of the text. -/
theorem suffix_inside? {s t inside : Text} (hst : t <:+ s) (ht : inside? t = some inside) :
    ∃ behind, inside? s = some behind ∧ inside <:+ behind := by
  induction s with
  | nil =>
    rw [List.suffix_nil.1 hst] at ht
    cases ht
  | cons c s ih =>
    rcases List.suffix_cons_iff.1 hst with rfl | hlater
    · exact ⟨inside, ht, List.suffix_rfl⟩
    · obtain ⟨behind, hs, hsuffix⟩ := ih hlater
      obtain ⟨u, hu, hend⟩ := inside?_eq_some_iff.1 hs
      by_cases hc : c = '>'
      · have hbehind : behind <:+ s := hu ▸ ⟨u ++ ['>'], by simp⟩
        exact ⟨s, inside?_eq_some_iff.2 ⟨[], by rw [hc]; rfl, by simp⟩, hsuffix.trans hbehind⟩
      · refine ⟨behind, inside?_eq_some_iff.2 ⟨c :: u, by rw [hu]; rfl, ?_⟩, hsuffix⟩
        rw [List.mem_cons, not_or]
        exact ⟨Ne.symm hc, hend⟩

/-- What the pattern keeps at one place: what stands in front of the first end tag behind the first
`>` behind the opening. -/
theorem head?_matchesAt_elementPattern (name s : Text) :
    ((elementPattern name).matchesAt s).head?.map (fun m => (m.kept, m.rest)) =
      (((afterWord? ('<' :: name) s).bind inside?).bind
        (breakAt? ('<' :: '/' :: (name ++ ['>'])))).map fun parts => (some parts.1, parts.2) := by
  rw [elementPattern, Pattern.matchesAt, Pattern.matchesAt]
  cases afterWord? ('<' :: name) s with
  | none => rfl
  | some opened =>
    rw [Option.toList_some, List.map_singleton, List.flatMap_singleton, ← List.head?_map,
      List.map_map, Pattern.matchesAt_most_ne '>' (by decide), Option.bind_some, inside?]
    cases opened.dropWhile (· != '>') with
    | nil => rfl
    | cons c inside =>
      rw [List.tail?_cons, Option.bind_some, ← Pattern.head?_matchesAt_fewest, ← List.head?_map,
        List.map_map]
      simp only [Function.comp_def, Option.or_none]

theorem matchesAt_elementPattern_eq_nil_iff {name s : Text} :
    (elementPattern name).matchesAt s = [] ↔
      ∀ opened inside, afterWord? ('<' :: name) s = some opened → inside? opened = some inside →
        ¬ Has ('<' :: '/' :: (name ++ ['>'])) inside := by
  rw [← List.head?_eq_none_iff, ← Option.map_eq_none_iff (f := fun m => (m.kept, m.rest)),
    head?_matchesAt_elementPattern, Option.map_eq_none_iff, Option.bind_eq_none_iff]
  simp only [Option.bind_eq_some_iff, breakAt?_eq_none_iff, forall_exists_index, and_imp]
  exact ⟨fun h opened inside hopened hinside => h inside opened hopened hinside,
    fun h inside opened hopened hinside => h opened inside hopened hinside⟩

/-- **A later opening does not match where an earlier one does not.** -/
theorem matchesAt_eq_nil_of_suffix {name s t opened : Text} (hst : t <:+ s)
    (hopened : afterWord? ('<' :: name) s = some opened)
    (hs : (elementPattern name).matchesAt s = []) : (elementPattern name).matchesAt t = [] := by
  rw [matchesAt_elementPattern_eq_nil_iff] at hs ⊢
  intro later inside hlater hinside hhas
  have hle : later.length ≤ opened.length := by
    have := hst.length_le
    rw [length_of_afterWord? hlater, length_of_afterWord? hopened] at this
    omega
  obtain ⟨w, hw, -⟩ := afterWord?_eq_some_iff.1 hlater
  obtain ⟨v, hv, -⟩ := afterWord?_eq_some_iff.1 hopened
  have hbehind : later <:+ opened :=
    List.suffix_of_suffix_length_le ((hw ▸ List.suffix_append w later).trans hst)
      (hv ▸ List.suffix_append v opened) hle
  obtain ⟨behind, hfirst, hsuffix⟩ := suffix_inside? hbehind hinside
  exact hs opened behind hopened hfirst (hhas.trans (hsuffix.isInfix.map Char.toLower))

/-! ## The pattern in a page -/

theorem content?_eq_bind (name html : Text) :
    content? name html =
      (((breakAt? ('<' :: name) html).bind fun opened => inside? opened.2).bind
        (breakAt? ('<' :: '/' :: (name ++ ['>'])))).map Prod.fst := by
  rw [content?]
  cases breakAt? ('<' :: name) html with
  | none => rfl
  | some opened =>
    rw [Option.bind_some, inside?]
    dsimp only
    cases opened.2.dropWhile (· != '>') <;> rfl

theorem content?_cons_of_none {name s : Text} {c : Char}
    (h : afterWord? ('<' :: name) (c :: s) = none) : content? name (c :: s) = content? name s := by
  rw [content?_eq_bind, content?_eq_bind, breakAt?, h]
  cases breakAt? ('<' :: name) s <;> rfl

theorem content?_cons_of_some {name s opened : Text} {c : Char}
    (h : afterWord? ('<' :: name) (c :: s) = some opened) :
    content? name (c :: s) =
      ((inside? opened).bind (breakAt? ('<' :: '/' :: (name ++ ['>'])))).map Prod.fst := by
  rw [content?_eq_bind, breakAt?, h]
  rfl

/-- Without a content the pattern matches nowhere. -/
theorem matchesAt_eq_nil_of_content? {name html : Text} (h : content? name html = none) {s : Text}
    (hs : s <:+ html) : (elementPattern name).matchesAt s = [] := by
  have hclosed {t : Text} (ht : afterWord? ('<' :: name) t = none) :
      (elementPattern name).matchesAt t = [] := by
    rw [matchesAt_elementPattern_eq_nil_iff, ht]
    nofun
  induction html with
  | nil =>
    rw [List.suffix_nil.1 hs]
    exact hclosed rfl
  | cons c html ih =>
    cases hword : afterWord? ('<' :: name) (c :: html) with
    | none =>
      rw [content?_cons_of_none hword] at h
      rcases List.suffix_cons_iff.1 hs with rfl | hs
      · exact hclosed hword
      · exact ih h hs
    | some opened =>
      rw [content?_cons_of_some hword, Option.map_eq_none_iff, Option.bind_eq_none_iff] at h
      apply matchesAt_eq_nil_of_suffix hs hword
      rw [matchesAt_elementPattern_eq_nil_iff, hword]
      intro later inside hlater hinside
      cases hlater
      exact breakAt?_eq_none_iff.1 (h inside hinside)

/-- **The content that is found is what the pattern keeps.** -/
theorem keeps?_elementPattern (name html : Text) :
    (elementPattern name).keeps? html = content? name html := by
  cases hcontent : content? name html with
  | none =>
    rw [Pattern.keeps?, Pattern.find?_eq_none fun s => matchesAt_eq_nil_of_content? hcontent]
    rfl
  | some x =>
    induction html with
    | nil => cases hcontent
    | cons c html ih =>
      have hhead := head?_matchesAt_elementPattern name (c :: html)
      rw [Pattern.keeps?, Pattern.find?_cons]
      cases hword : afterWord? ('<' :: name) (c :: html) with
      | none =>
        rw [hword] at hhead
        rw [content?_cons_of_none hword] at hcontent
        rw [Option.map_eq_none_iff.1 hhead, Option.none_or]
        exact ih hcontent
      | some opened =>
        rw [content?_cons_of_some hword] at hcontent
        obtain ⟨parts, hparts, rfl⟩ := Option.map_eq_some_iff.1 hcontent
        rw [hword, Option.bind_some, hparts] at hhead
        obtain ⟨m, hm, hkept⟩ := Option.map_eq_some_iff.1 hhead
        rw [hm, Option.some_or, Option.bind_some]
        exact congrArg Prod.fst hkept

/-! ## Cuts -/

/-- A page cut up around an element. The `>` behind the attributes is in none of the parts. -/
@[ext]
structure Cut where
  before : Text
  opening : Text
  attributes : Text
  content : Text
  closing : Text
  behind : Text

namespace Cut

/-- The page that was cut up. -/
def page (c : Cut) : Text :=
  c.before ++ (c.opening ++ (c.attributes ++ '>' :: (c.content ++ (c.closing ++ c.behind))))

/-- The page is cut up around the first opening of the name, at the first end of a tag and the first
end tag behind it, in any case of the name. -/
structure IsFirst (name : Text) (c : Cut) : Prop where
  opening : small c.opening = small ('<' :: name)
  closing : small c.closing = small ('<' :: '/' :: (name ++ ['>']))
  before : ¬ Has ('<' :: name) c.before
  attributes : '>' ∉ c.attributes
  content : ¬ Has ('<' :: '/' :: (name ++ ['>'])) c.content

variable {name : Text} {c d : Cut}

/-- The searches of the page find the places where it was cut. -/
theorem IsFirst.searches (hname : '<' ∉ small name) (h : c.IsFirst name) :
    breakAt? ('<' :: name) c.page =
        some (c.before, c.attributes ++ '>' :: (c.content ++ (c.closing ++ c.behind))) ∧
      breakAt? ('<' :: '/' :: (name ++ ['>'])) (c.content ++ (c.closing ++ c.behind)) =
        some (c.content, c.behind) := by
  have hopening : Unbordered (small ('<' :: name)) := unbordered_cons hname
  have hclosing : Unbordered (small ('<' :: '/' :: (name ++ ['>']))) := by
    rw [small_cons]
    apply unbordered_cons
    rw [small_cons, small_append, List.mem_cons, List.mem_append, not_or, not_or]
    exact ⟨by decide, hname, by decide⟩
  exact ⟨breakAt?_append hopening h.before h.opening _,
    breakAt?_append hclosing h.content h.closing _⟩

theorem IsFirst.content?_page (hname : '<' ∉ small name) (h : c.IsFirst name) :
    content? name c.page = some c.content := by
  obtain ⟨hopened, hclosed⟩ := h.searches hname
  have hinside : inside? (c.attributes ++ '>' :: (c.content ++ (c.closing ++ c.behind))) =
      some (c.content ++ (c.closing ++ c.behind)) :=
    inside?_eq_some_iff.2 ⟨c.attributes, rfl, h.attributes⟩
  rw [content?_eq_bind, hopened, Option.bind_some, hinside, Option.bind_some, hclosed]
  rfl

/-- **A page can be cut up in one way only.** -/
theorem IsFirst.unique (hname : '<' ∉ small name) (hc : c.IsFirst name) (hd : d.IsFirst name)
    (hpage : c.page = d.page) : c = d := by
  obtain ⟨hcopened, hcclosed⟩ := hc.searches hname
  obtain ⟨hdopened, hdclosed⟩ := hd.searches hname
  rw [hpage, hdopened, Option.some.injEq, Prod.mk.injEq] at hcopened
  obtain ⟨hbefore, hopened⟩ := hcopened
  have hattributes : d.attributes = c.attributes := by
    have htaken := congrArg (List.takeWhile (· != '>')) hopened
    rwa [takeWhile_append_cons (bne_of_notMem hd.attributes) (by decide),
      takeWhile_append_cons (bne_of_notMem hc.attributes) (by decide)] at htaken
  have hinside : d.content ++ (d.closing ++ d.behind) = c.content ++ (c.closing ++ c.behind) := by
    rw [hattributes] at hopened
    exact (List.cons.inj (List.append_cancel_left hopened)).2
  rw [← hinside, hdclosed, Option.some.injEq, Prod.mk.injEq] at hcclosed
  obtain ⟨hcontent, hbehind⟩ := hcclosed
  have hopening : c.opening = d.opening := by
    rw [page, page, ← hbefore, ← hopened] at hpage
    exact List.append_cancel_right (List.append_cancel_left hpage)
  have hclosing : d.closing = c.closing := by
    rw [← hcontent, ← hbehind] at hinside
    exact List.append_cancel_right (List.append_cancel_left hinside)
  exact Cut.ext hbefore.symm hopening hattributes.symm hcontent.symm hclosing.symm hbehind.symm

/-- A page in which a content is found is cut up around it. -/
theorem exists_isFirst {name html x : Text} (h : content? name html = some x) :
    ∃ c : Cut, c.page = html ∧ c.IsFirst name ∧ c.content = x := by
  rw [content?_eq_bind] at h
  obtain ⟨⟨content, behind⟩, hfound, rfl⟩ := Option.map_eq_some_iff.1 h
  obtain ⟨inside, htail, hclosed⟩ := Option.bind_eq_some_iff.1 hfound
  obtain ⟨⟨before, opened⟩, hopened, hinside⟩ := Option.bind_eq_some_iff.1 htail
  obtain ⟨tag, rfl, htag⟩ := breakAt?_eq_some hopened
  obtain ⟨opening, rfl, hopening⟩ := afterWord?_eq_some_iff.1 htag
  obtain ⟨attributes, rfl, hattributes⟩ := inside?_eq_some_iff.1 hinside
  obtain ⟨endTag, rfl, hend⟩ := breakAt?_eq_some hclosed
  obtain ⟨closing, rfl, hclosing⟩ := afterWord?_eq_some_iff.1 hend
  exact ⟨⟨before, opening, attributes, content, closing, behind⟩, rfl,
    ⟨hopening, hclosing, not_has_of_breakAt? (List.cons_ne_nil _ _) hopened, hattributes,
      not_has_of_breakAt? (List.cons_ne_nil _ _) hclosed⟩, rfl⟩

/-- A content is found if and only if the page can be cut up around it. -/
theorem content?_eq_some_iff {name html x : Text} (hname : '<' ∉ small name) :
    content? name html = some x ↔ ∃ c : Cut, c.page = html ∧ c.IsFirst name ∧ c.content = x := by
  constructor
  · exact exists_isFirst
  · rintro ⟨c, rfl, hc, rfl⟩
    exact hc.content?_page hname

end Cut

/-! ## The split -/

/-- **The split finds exactly the first head and the first body.** For either name, what the pattern
of the element keeps of a page is the content of a cut of the page around its first element of that
name. There is at most one such cut. If there is none, then the pattern matches at no place of the
page. The head and the body of the split are what the patterns keep; if they keep nothing, the head
is empty and the body is the whole page. -/
theorem split_first_elements (html : Text) :
    (∀ name ∈ ["head".toList, "body".toList],
      (∀ x, (elementPattern name).keeps? html = some x ↔
        ∃ c : Cut, c.page = html ∧ c.IsFirst name ∧ c.content = x) ∧
      (∀ c d : Cut, c.page = html → d.page = html → c.IsFirst name → d.IsFirst name → c = d) ∧
      ((¬ ∃ c : Cut, c.page = html ∧ c.IsFirst name) →
        (elementPattern name).keeps? html = none ∧
          ∀ s, s <:+ html → (elementPattern name).matchesAt s = [])) ∧
    split html = ⟨((elementPattern "head".toList).keeps? html).getD [],
      ((elementPattern "body".toList).keeps? html).getD html⟩ := by
  refine ⟨fun name hname => ?_, ?_⟩
  · have hlt : '<' ∉ small name := by
      simp only [List.mem_cons, List.not_mem_nil, or_false] at hname
      rcases hname with rfl | rfl <;> decide
    rw [keeps?_elementPattern]
    refine ⟨fun x => Cut.content?_eq_some_iff hlt, ?_, ?_⟩
    · intro c d hc hd hcfirst hdfirst
      exact hcfirst.unique hlt hdfirst (hc.trans hd.symm)
    · intro hnone
      have hcontent : content? name html = none := by
        rw [Option.eq_none_iff_forall_ne_some]
        intro x hx
        obtain ⟨c, hpage, hfirst, -⟩ := Cut.exists_isFirst hx
        exact hnone ⟨c, hpage, hfirst⟩
      exact ⟨hcontent, fun s hs => matchesAt_eq_nil_of_content? hcontent hs⟩
  · rw [keeps?_elementPattern, keeps?_elementPattern, split]

/-- A header opens the first head, a second head is not looked at, and the body is never closed. -/
theorem split_first_elements_unclosed :
    let html := "<HEADer x>one</Head><head>two</head><body>".toList
    (elementPattern "head".toList).keeps? html = some "one".toList ∧
      (∀ s, s <:+ html → (elementPattern "body".toList).matchesAt s = []) ∧
      split html = ⟨"one".toList, html⟩ := by
  intro html
  obtain ⟨hnames, hsplit⟩ := split_first_elements html
  obtain ⟨hfound, -, -⟩ := hnames "head".toList List.mem_cons_self
  obtain ⟨-, -, hnowhere⟩ := hnames "body".toList (List.mem_cons_of_mem _ List.mem_cons_self)
  let c : Cut :=
    ⟨[], "<HEAD".toList, "er x".toList, "one".toList, "</Head>".toList,
      "<head>two</head><body>".toList⟩
  have hfirst : c.IsFirst "head".toList :=
    ⟨by decide, by decide, by unfold Has; decide, by decide, by unfold Has; decide⟩
  have hhead := (hfound "one".toList).2 ⟨c, rfl, hfirst, rfl⟩
  have hopen : ¬ ∃ d : Cut, d.page = html ∧ d.IsFirst "body".toList := by
    rintro ⟨d, hpage, hd⟩
    have hcontent := hd.content?_page (by decide)
    rw [hpage] at hcontent
    have hnone : content? "body".toList html = none := by decide +kernel
    cases hnone.symm.trans hcontent
  obtain ⟨hbody, hnoMatch⟩ := hnowhere hopen
  rw [hhead, hbody] at hsplit
  exact ⟨hhead, hnoMatch, hsplit⟩

end MenuPages.Document
