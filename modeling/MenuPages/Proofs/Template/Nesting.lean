import Mathlib.Data.List.Nodup
import MenuPages.Proofs.Template.Canonical

/-!
# How deep sections go

The scopes say which section may be opened where, and by them labels and allergens may be opened
inside each other again and again (`Scope.permits_alternating`). A template goes four sections deep
all the same: a section ends at the first closing tag of its name, so none stands inside itself.

**The law** (`path_pairwise_different`): the sections that stand inside each other are pairwise
different, and are the first ones of one of two lists. Two facts about a way down the nodes of a
template come together in it. The scopes permit each step (`Node.Path.permits`). And every section
on the way has its closing tag in the text that the nodes are written as
(`Node.Path.closingTag_infix`); the body of a section does not have the closing tag of the section
in it, and so the section does not come again (`Node.Path.nodup`). Nothing else is ruled out: what
the scopes permit without a section twice is a way down some template (`Scope.Permits.exists_path`).
-/

namespace MenuPages.Template

/-- The sections that stand inside each other on a way down from nodes, outermost first. -/
inductive Node.Path : List Node → List Section → Prop
  | here (nodes : List Node) : Path nodes []
  | inside {nodes body : List Node} {sec : Section} {path : List Section}
      (hmem : .loop sec body ∈ nodes) (h : Path body path) : Path nodes (sec :: path)

/-- The scopes let these sections stand inside each other. -/
inductive Scope.Permits : Scope → List Section → Prop
  | nil (scope : Scope) : Permits scope []
  | cons {scope inner : Scope} {sec : Section} {path : List Section}
      (hsec : scope.inside? sec = some inner) (h : Permits inner path) :
      Permits scope (sec :: path)

/-! ## What the scopes permit -/

/-- Labels and allergens may be opened inside each other any number of times. -/
theorem Scope.permits_alternating (n : Nat) :
    Scope.page.Permits (.categories :: .items ::
      (List.replicate n [Section.itemLabels, .itemAllergens]).flatten) := by
  have halternate : ∀ scope : Scope, scope.inside? .itemLabels = some .label →
      scope.Permits (List.replicate n [Section.itemLabels, .itemAllergens]).flatten := by
    induction n with
    | zero => exact fun scope _ => .nil scope
    | succ n ih => exact fun scope hlabels => .cons hlabels (.cons rfl (ih .allergen rfl))
  exact .cons rfl (.cons rfl (halternate .item rfl))

theorem Scope.Permits.eq_nil_or_cons {scope : Scope} {path : List Section}
    (h : scope.Permits path) :
    path = [] ∨ ∃ sec ∈ scope.sections, ∃ rest, path = sec :: rest ∧ sec.scope.Permits rest := by
  cases h with
  | nil => exact Or.inl rfl
  | cons hsec h =>
    obtain ⟨hmem, rfl⟩ := Scope.inside?_eq_some_iff.1 hsec
    exact Or.inr ⟨_, hmem, _, rfl, h⟩

/-- Inside the first of two sections that may only be opened inside each other, the second one can
stand, and nothing in it. -/
theorem Scope.Permits.prefix_of_alternating {a b : Section} {path : List Section}
    (ha : a.scope.sections = [b]) (hb : b.scope.sections = [a]) (h : a.scope.Permits path)
    (hnodup : (a :: path).Nodup) : path <+: [b] := by
  rcases h.eq_nil_or_cons with rfl | ⟨sec, hsec, rest, rfl, hrest⟩
  · exact List.nil_prefix
  obtain rfl : sec = b := by simpa [ha] using hsec
  rcases hrest.eq_nil_or_cons with rfl | ⟨again, hagain, rest, rfl, -⟩
  · exact List.prefix_rfl
  · obtain rfl : again = a := by simpa [hb] using hagain
    simp at hnodup

/-- Of the ways that the scopes permit, those on which no section comes twice go down to the two
lists of an item, one inside the other. -/
theorem Scope.Permits.prefix_of_nodup {path : List Section} (h : Scope.page.Permits path)
    (hnodup : path.Nodup) :
    path <+: [.categories, .items, .itemLabels, .itemAllergens] ∨
      path <+: [.categories, .items, .itemAllergens, .itemLabels] := by
  rcases h.eq_nil_or_cons with rfl | ⟨sec, hsec, inner, rfl, hcategory⟩
  · exact Or.inl List.nil_prefix
  obtain rfl : sec = .categories := by simpa [sections] using hsec
  rcases hcategory.eq_nil_or_cons with rfl | ⟨sec, hsec, inner, rfl, hitem⟩
  · exact Or.inl (by simp)
  obtain rfl : sec = .items := by simpa [Section.scope, sections] using hsec
  rcases hitem.eq_nil_or_cons with rfl | ⟨sec, hsec, inner, rfl, hlist⟩
  · exact Or.inl (by simp)
  have hlists : sec = .itemLabels ∨ sec = .itemAllergens := by
    simpa [Section.scope, sections] using hsec
  have hbehind := hnodup.of_cons.of_cons
  simp only [List.cons_prefix_cons, true_and]
  rcases hlists with rfl | rfl
  · exact Or.inl ⟨rfl, hlist.prefix_of_alternating rfl rfl hbehind⟩
  · exact Or.inr ⟨rfl, hlist.prefix_of_alternating rfl rfl hbehind⟩

/-! ## Ways down the nodes of a template -/

namespace Node

theorem raw_infix_rawAll {node : Node} {nodes : List Node} (h : node ∈ nodes) :
    node.raw <:+: rawAll nodes := by
  induction nodes with
  | nil => cases h
  | cons n nodes ih =>
    rw [rawAll_cons]
    rcases List.mem_cons.1 h with rfl | h
    · exact (List.prefix_append _ _).isInfix
    · exact (ih h).trans (List.suffix_append _ _).isInfix

namespace Path

variable {scope : Scope} {nodes : List Node} {path : List Section}

/-- The section closes somewhere in what the nodes are written as. -/
theorem closingTag_infix (h : Path nodes path) :
    ∀ sec ∈ path, sec.closingTag.text <:+: rawAll nodes := by
  induction h with
  | here nodes => nofun
  | @inside nodes body sec path hmem h ih =>
    have hloop := raw_infix_rawAll hmem
    rw [raw_loop] at hloop
    refine List.forall_mem_cons.2 ⟨?_, fun inner hinner => ?_⟩
    · have hend : sec.closingTag.text <:+ rawAll body ++ sec.closingTag.text :=
        List.suffix_append _ _
      exact (hend.trans (List.suffix_append _ _)).isInfix.trans hloop
    · have hbody : rawAll body <:+: sec.openingTag.text ++ (rawAll body ++ sec.closingTag.text) :=
        List.infix_append' _ _ _
      exact (ih inner hinner).trans (hbody.trans hloop)

theorem permits (h : Path nodes path) (hn : Canonical scope nodes) : scope.Permits path := by
  induction h generalizing scope with
  | here nodes => exact .nil scope
  | inside hmem h ih =>
    obtain ⟨hsec, -, hbody⟩ := hn.of_mem_loop hmem
    exact .cons (Scope.inside?_eq_some_iff.2 ⟨hsec, rfl⟩) (ih hbody)

/-- No section stands inside itself. -/
theorem nodup (h : Path nodes path) (hn : Canonical scope nodes) : path.Nodup := by
  induction h generalizing scope with
  | here nodes => exact List.nodup_nil
  | inside hmem h ih =>
    obtain ⟨-, hclose, hbody⟩ := hn.of_mem_loop hmem
    exact List.nodup_cons.2 ⟨fun hagain => hclose (h.closingTag_infix _ hagain), ih hbody⟩

end Path

end Node

/-! ## Templates with sections inside each other and nothing else -/

namespace Node

/-- Sections inside each other, outermost first. -/
def tower : List Section → List Node
  | [] => []
  | sec :: path => [.loop sec (tower path)]

theorem path_tower (path : List Section) : Path (tower path) path := by
  induction path with
  | nil => exact .here _
  | cons sec path ih => exact .inside List.mem_cons_self ih

theorem rawAll_tower_cons (sec : Section) (path : List Section) :
    rawAll (tower (sec :: path)) =
      sec.openingTag.text ++ (rawAll (tower path) ++ (sec.closingTag.text ++ [])) := by
  rw [tower, rawAll_cons, raw_loop, rawAll_nil, List.append_nil, List.append_nil]

/-- The tags of these sections are all there is. -/
theorem name_mem_of_tower {path : List Section} {pos offset : Nat} {t : Tag}
    (h : .tag t offset ∈ Token.scanFrom pos (rawAll (tower path))) :
    t.name ∈ path.map Section.name := by
  induction path generalizing pos with
  | nil => simp [tower, Token.scanFrom] at h
  | cons sec path ih =>
    rw [rawAll_tower_cons, Token.scanFrom_text_append pos sec.wellFormed_openingTag,
      Token.scanFrom_append_tag _ _ sec.wellFormed_closingTag] at h
    simp only [List.mem_cons, List.mem_append, Token.tag.injEq, Token.scanFrom,
      List.not_mem_nil, or_false] at h
    rcases h with ⟨rfl, -⟩ | h | ⟨rfl, -⟩
    · exact List.mem_cons_self
    · exact List.mem_cons_of_mem _ (ih h)
    · exact List.mem_cons_self

theorem canonical_tower {scope : Scope} {path : List Section} (h : scope.Permits path)
    (hnodup : (path.map Section.name).Nodup) : Canonical scope (tower path) := by
  induction h with
  | nil => exact .nil
  | @cons scope inner sec path hsec h ih =>
    obtain ⟨hmem, rfl⟩ := Scope.inside?_eq_some_iff.1 hsec
    obtain ⟨hnew, hrest⟩ := List.nodup_cons.1 hnodup
    refine .loop hmem (fun hin => hnew ?_) (ih hrest) .nil
    rw [← Token.flatMap_raw_scanFrom 0 (rawAll (tower path))] at hin
    obtain ⟨offset, htag⟩ :=
      (Token.lexed_scanFrom 0 _).exists_mem_of_text sec.wellFormed_closingTag hin
    exact name_mem_of_tower htag

end Node

/-- Every way that the scopes permit without a section twice is one down the nodes of a template. -/
theorem Scope.Permits.exists_path {path : List Section} (h : Scope.page.Permits path)
    (hnodup : (path.map Section.name).Nodup) : ∃ source, Node.Path (ofText source).nodes path := by
  refine ⟨Node.rawAll (Node.tower path), ?_⟩
  have hread : (ofText (Node.rawAll (Node.tower path))).nodes = Node.tower path :=
    (Node.canonical_tower h hnodup).nodes_ofTokens _ 0
  rw [hread]
  exact Node.path_tower path

theorem Scope.Permits.initial {scope : Scope} {path front : List Section}
    (h : scope.Permits path) (hfront : front <+: path) : scope.Permits front := by
  induction h generalizing front with
  | nil scope =>
    rw [List.prefix_nil.1 hfront]
    exact .nil scope
  | @cons scope inner sec path hsec h ih =>
    rcases List.prefix_cons_iff.1 hfront with rfl | ⟨rest, rfl, hrest⟩
    · exact .nil scope
    · exact .cons hsec (ih hrest)

/-- The section that a name belongs to is one only. -/
theorem Section.name_injective : Function.Injective Section.name := by
  intro a b h
  have hname := Section.ofName?_name a
  rw [h, Section.ofName?_name] at hname
  exact (Option.some.inj hname).symm

/-- **No section stands inside itself, and none more than four deep.** On every way down the nodes
of a template the names of the sections are pairwise different, and the sections are the first ones
of one of two lists. All these ways occur. The scopes alone would permit ways of any length. -/
theorem path_pairwise_different :
    (∀ source path, Node.Path (ofText source).nodes path →
      (path.map Section.name).Nodup ∧
        (path <+: [.categories, .items, .itemLabels, .itemAllergens] ∨
          path <+: [.categories, .items, .itemAllergens, .itemLabels])) ∧
      (∀ path : List Section,
        path <+: [.categories, .items, .itemLabels, .itemAllergens] ∨
          path <+: [.categories, .items, .itemAllergens, .itemLabels] →
        ∃ source, Node.Path (ofText source).nodes path) ∧
      ∀ n, Scope.page.Permits (.categories :: .items ::
        (List.replicate n [Section.itemLabels, .itemAllergens]).flatten) := by
  refine ⟨fun source path h => ?_, fun path h => ?_, Scope.permits_alternating⟩
  · have hn : Node.Canonical .page (ofText source).nodes :=
      Reading.canonical_ofTokens source (Token.lexed_scanFrom 0 source)
    have hnodup := h.nodup hn
    exact ⟨List.Nodup.map Section.name_injective hnodup, (h.permits hn).prefix_of_nodup hnodup⟩
  · have hfull (a b : Section) (ha : Scope.item.inside? a = some a.scope)
        (hb : a.scope.inside? b = some b.scope) :
        Scope.page.Permits [.categories, .items, a, b] :=
      .cons rfl (.cons rfl (.cons ha (.cons hb (.nil _))))
    have hpermits : Scope.page.Permits path ∧ path.Nodup := by
      rcases h with h | h
      · exact ⟨(hfull .itemLabels .itemAllergens rfl rfl).initial h, h.sublist.nodup (by decide)⟩
      · exact ⟨(hfull .itemAllergens .itemLabels rfl rfl).initial h, h.sublist.nodup (by decide)⟩
    exact hpermits.1.exists_path (List.Nodup.map Section.name_injective hpermits.2)

/-- The labels of an item, its allergens inside of them, and there the labels opened once more. The
first closing tag of the labels is behind the allergens, so the last opening tag is text. -/
theorem path_pairwise_different_reopened :
    let source := "\x7b\x7b#categories\x7d\x7d\x7b\x7b#items\x7d\x7d".toList ++
      "\x7b\x7b#itemLabels\x7d\x7d\x7b\x7b#itemAllergens\x7d\x7d".toList ++
      "\x7b\x7b#itemLabels\x7d\x7d".toList ++
      "\x7b\x7b/itemAllergens\x7d\x7d\x7b\x7b/itemLabels\x7d\x7d".toList ++
      "\x7b\x7b/items\x7d\x7d\x7b\x7b/categories\x7d\x7d".toList
    let path : List Section := [.categories, .items, .itemLabels, .itemAllergens]
    Node.Path (ofText source).nodes path ∧ (path.map Section.name).Nodup ∧
      (path <+: [.categories, .items, .itemLabels, .itemAllergens] ∨
        path <+: [.categories, .items, .itemAllergens, .itemLabels]) := by
  intro source path
  let allergens : List Node := [.text (⟨.opening, Section.itemLabels.name⟩ : Tag).text]
  let labels : List Node := [.loop .itemAllergens allergens]
  let items : List Node := [.loop .itemLabels labels]
  let nodes : List Node := [.loop .categories [.loop .items items]]
  have hopening : Node.Canonical .allergen allergens := by
    have hempty : ∀ sec : Section, ¬ sec.closingTag.text <:+: [] :=
      fun sec h => Tag.text_ne_nil _ (List.infix_nil.1 h)
    exact .opening (Section.wellFormed_openingTag .itemLabels) (fun sec _ _ => hempty sec) .nil
  have hitems : Node.Canonical .item items :=
    .loop List.mem_cons_self (by decide +kernel)
      (.loop List.mem_cons_self (by decide +kernel) hopening .nil) .nil
  have hnodes : Node.Canonical .page nodes :=
    .loop List.mem_cons_self (by decide +kernel)
      (.loop List.mem_cons_self (by decide +kernel) hitems .nil) .nil
  have hraw : Node.rawAll nodes = source := by decide +kernel
  have hread : (ofText source).nodes = nodes := by
    have h := hnodes.nodes_ofTokens source 0
    rwa [hraw] at h
  have hpath : Node.Path (ofText source).nodes path := by
    rw [hread]
    exact .inside List.mem_cons_self <| .inside List.mem_cons_self <|
      .inside List.mem_cons_self <| .inside List.mem_cons_self (.here allergens)
  exact ⟨hpath, path_pairwise_different.1 source path hpath⟩

end MenuPages.Template
