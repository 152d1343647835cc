import Mathlib.Data.List.Forall2
import MenuPages.Proofs.Template.Canonical
import MenuPages.Template.Render

/-!
# What a template says

A template is filled in along a chain of frames, one for each section that is open, in which names
and sections are looked up from the inside outwards. What it *says* needs no chain: there is the
page, and there may be a current category, item, label and allergen (`Env`). Each name stands for a
value of one of these, and each section repeats its body for the things of one of these
(`Node.evalAll`).

**The law** (`render_eq_evalAll`): a page filled in along the chain is what the template says. What
carries it is `Env.Shows`: in a scope the chain has frames of certain kinds, innermost first, and
they are what is current. So a section that may be opened in a scope always finds a frame that it
belongs to (`Env.Shows.elements`), also where the two lists of an item are opened inside each
other: the frames of labels and allergens have neither, and behind them stands the item.
-/

namespace MenuPages.Template

/-! ## What is current -/

/-- What a part of a template is filled in for. -/
structure Env where
  page : Data
  category : Option Category := none
  item : Option Item := none
  label : Option Text := none
  allergen : Option Text := none

namespace Env

/-- The names that a template may use, and what they stand for now. An optional text that is empty
is no value. -/
def bindings (env : Env) : List (Text × Option Text) :=
  [("restaurantName".toList, some env.page.restaurantName),
    ("menuName".toList, env.page.menuName.filter (!·.isEmpty)),
    ("categoryName".toList, env.category.map (·.name)),
    ("categoryDescription".toList, (env.category.bind (·.description)).filter (!·.isEmpty)),
    ("itemName".toList, env.item.map (·.name)),
    ("itemDescription".toList, env.item.map (·.description)),
    ("itemPrice".toList, env.item.map (·.price)),
    ("itemCurrency".toList, env.item.map (·.currency)),
    ("label".toList, env.label),
    ("allergen".toList, env.allergen)]

/-- What a name stands for now, if it stands for anything. -/
def value? (env : Env) (name : Text) : Option Text := (env.bindings.lookup name).join

/-- What is current in each repetition of a section. -/
def repetitions (env : Env) : Section → List Env
  | .categories => env.page.categories.map fun c => { env with category := some c }
  | .items => (env.category.elim [] (·.items)).map fun i => { env with item := some i }
  | .itemLabels =>
    ((env.item.bind (·.labels)).getD []).map fun s => { env with label := some s }
  | .itemAllergens =>
    ((env.item.bind (·.allergens)).getD []).map fun s => { env with allergen := some s }

end Env

mutual
/-- What a node says. A name that stands for nothing is copied as it is written. -/
def Node.eval (env : Env) : Node → Text
  | .text s => s
  | .value name =>
    match env.value? name with
    | some s => Markup.escape s
    | none => '{' :: '{' :: (name ++ ['}', '}'])
  | .loop sec body => (env.repetitions sec).flatMap fun inner => Node.evalAll inner body
/-- What nodes say, one after the other. -/
def Node.evalAll (env : Env) : List Node → Text
  | [] => []
  | node :: nodes => node.eval env ++ Node.evalAll env nodes
end

/-! ## Names -/

/-- What a placeholder stands for now. -/
def Env.component? (env : Env) : Placeholder → Option Text
  | .restaurantName => some env.page.restaurantName
  | .menuName => nonEmpty? env.page.menuName
  | .categoryName => env.category.map (·.name)
  | .categoryDescription => nonEmpty? (env.category.bind (·.description))
  | .itemName => env.item.map (·.name)
  | .itemDescription => env.item.map (·.description)
  | .itemPrice => env.item.map (·.price)
  | .itemCurrency => env.item.map (·.currency)
  | .label => env.label
  | .allergen => env.allergen

theorem Env.bindings_eq_map (env : Env) :
    env.bindings = Placeholder.all.map fun p => (p.name, env.component? p) := rfl

/-- A name that goes by a placeholder stands for what the placeholder stands for, and no other name
stands for anything. -/
theorem Env.value?_eq_bind (env : Env) (name : Text) :
    env.value? name = (Placeholder.ofName? name).bind env.component? := by
  have hlookup : ∀ ps : List Placeholder,
      (ps.map fun p => (p.name, env.component? p)).lookup name =
        (ps.find? fun p => p.name == name).map env.component? := by
    intro ps
    induction ps with
    | nil => rfl
    | cons p ps ih =>
      rw [List.map_cons, List.lookup_cons, List.find?_cons, BEq.comm (a := name)]
      cases p.name == name with
      | true => rfl
      | false => exact ih
  rw [Env.value?, Env.bindings_eq_map, hlookup, Placeholder.ofName?]
  cases Placeholder.all.find? fun p => p.name == name <;> rfl

/-! ## The chain of frames shows what is current -/

/-- The frames that are open in a scope, innermost first, and what is current there. -/
inductive Env.Shows : Scope → Frames → Env → Prop
  | page (d : Data) : Shows .page [.page d] { page := d }
  | category {frames : Frames} {env : Env} (c : Category) (h : Shows .page frames env) :
      Shows .category (.category c :: frames) { env with category := some c }
  | item {frames : Frames} {env : Env} (i : Item) (h : Shows .category frames env) :
      Shows .item (.item i :: frames) { env with item := some i }
  | label {scope : Scope} {frames : Frames} {env : Env} (s : Text)
      (hscope : .itemLabels ∈ scope.sections) (h : Shows scope frames env) :
      Shows .label (.label s :: frames) { env with label := some s }
  | allergen {scope : Scope} {frames : Frames} {env : Env} (s : Text)
      (hscope : .itemAllergens ∈ scope.sections) (h : Shows scope frames env) :
      Shows .allergen (.allergen s :: frames) { env with allergen := some s }

namespace Env.Shows

variable {scope : Scope} {frames : Frames} {env : Env}

theorem value?_cons (frame : Frame) (frames : Frames) (p : Placeholder) :
    Frames.value? (frame :: frames) p = (frame.value? p).or (frames.value? p) := by
  simp only [Frames.value?, List.findSome?_cons]
  cases frame.value? p <;> rfl

/-- The innermost frame that has a value has the current one. -/
theorem value?_eq_component? (h : Shows scope frames env) (p : Placeholder) :
    Frames.value? frames p = env.component? p := by
  induction h with
  | page d =>
    rw [value?_cons]
    cases p <;> simp [Frames.value?, Frame.value?, component?, nonEmpty?]
  | @category frames env c h ih =>
    -- outside of all categories there is no description to fall back to
    have hnone : env.component? .categoryDescription = none := by
      cases h
      rfl
    rw [value?_cons, ih]
    cases p <;> simp [Frame.value?, hnone] <;> simp [component?]
  | item i h ih =>
    rw [value?_cons, ih]
    cases p <;> simp [Frame.value?, component?]
  | label s hscope h ih =>
    rw [value?_cons, ih]
    cases p <;> simp [Frame.value?, component?]
  | allergen s hscope h ih =>
    rw [value?_cons, ih]
    cases p <;> simp [Frame.value?, component?]

theorem elements_cons (frame : Frame) (frames : Frames) (sec : Section) :
    Frames.elements (frame :: frames) sec = (frame.elements? sec).getD (frames.elements sec) := by
  simp only [Frames.elements, List.findSome?_cons]
  cases frame.elements? sec <;> rfl

/-- Within items there is a current item, and the innermost frame that has a list of labels or of
allergens is the one of that item. -/
theorem exists_item (h : Shows scope frames env) (hscope : scope ∈ [.item, .label, .allergen]) :
    ∃ i, env.item = some i ∧ .item i ∈ frames ∧ ∀ sec ∈ [Section.itemLabels, .itemAllergens],
      (Frame.item i).elements? sec = some (frames.elements sec) := by
  induction h with
  | page d => simp at hscope
  | category c h ih => simp at hscope
  | item i h ih =>
    refine ⟨i, rfl, List.mem_cons_self, ?_⟩
    simp [elements_cons, Frame.elements?]
  | @label scope frames env s hin h ih =>
    obtain ⟨i, hi, hmem, hsec⟩ := ih (by cases scope <;> simp [Scope.sections] at hin ⊢)
    refine ⟨i, hi, List.mem_cons_of_mem _ hmem, fun sec hmem => ?_⟩
    rw [elements_cons, hsec sec hmem]
    rfl
  | @allergen scope frames env s hin h ih =>
    obtain ⟨i, hi, hmem, hsec⟩ := ih (by cases scope <;> simp [Scope.sections] at hin ⊢)
    refine ⟨i, hi, List.mem_cons_of_mem _ hmem, fun sec hmem => ?_⟩
    rw [elements_cons, hsec sec hmem]
    rfl

theorem forall₂_map_map {α β γ : Type} {R : β → γ → Prop} {f : α → β} {g : α → γ}
    (h : ∀ a, R (f a) (g a)) (as : List α) : List.Forall₂ R (as.map f) (as.map g) := by
  rw [List.forall₂_map_left_iff, List.forall₂_map_right_iff, List.forall₂_same]
  exact fun a _ => h a

/-- **A section finds what it repeats for.** Where a section may be opened, one of the frames has
what it repeats for, and each repetition is filled in for what is then current. -/
theorem elements (h : Shows scope frames env) {sec : Section} (hsec : sec ∈ scope.sections) :
    (∃ owner ∈ frames, owner.elements? sec = some (frames.elements sec)) ∧
      List.Forall₂ (fun frame inner => Shows sec.scope (frame :: frames) inner)
        (frames.elements sec) (env.repetitions sec) := by
  have hitem : sec ∈ [Section.itemLabels, .itemAllergens] →
      ∃ i, env.item = some i ∧ .item i ∈ frames ∧
        (Frame.item i).elements? sec = some (frames.elements sec) := by
    intro hmem
    have hscope : scope ∈ [.item, .label, .allergen] := by
      cases scope <;> cases sec <;> simp [Scope.sections] at hsec hmem ⊢
    obtain ⟨i, hi, hin, hall⟩ := h.exists_item hscope
    exact ⟨i, hi, hin, hall sec hmem⟩
  cases sec with
  | categories =>
    cases h with
    | page d =>
      exact ⟨⟨_, List.mem_cons_self, rfl⟩, forall₂_map_map (fun c => .category c (.page d)) _⟩
    | category | item | label | allergen => simp [Scope.sections] at hsec
  | items =>
    cases h with
    | category c h =>
      exact ⟨⟨_, List.mem_cons_self, rfl⟩, forall₂_map_map (fun i => .item i (.category c h)) _⟩
    | page | item | label | allergen => simp [Scope.sections] at hsec
  | itemLabels =>
    obtain ⟨i, hi, hin, helements⟩ := hitem (by simp)
    have hrepeat : env.repetitions .itemLabels =
        (i.labels.getD []).map fun s => { env with label := some s } := by
      rw [repetitions, hi]
      rfl
    refine ⟨⟨_, hin, helements⟩, ?_⟩
    rw [← Option.some.inj helements, hrepeat]
    exact forall₂_map_map (fun s => .label s hsec h) _
  | itemAllergens =>
    obtain ⟨i, hi, hin, helements⟩ := hitem (by simp)
    have hrepeat : env.repetitions .itemAllergens =
        (i.allergens.getD []).map fun s => { env with allergen := some s } := by
      rw [repetitions, hi]
      rfl
    refine ⟨⟨_, hin, helements⟩, ?_⟩
    rw [← Option.some.inj helements, hrepeat]
    exact forall₂_map_map (fun s => .allergen s hsec h) _

end Env.Shows

/-! ## Filling in -/

theorem flatMap_eq_of_forall₂ {α β γ : Type} {R : α → β → Prop} {f : α → List γ} {g : β → List γ}
    {as : List α} {bs : List β} (h : List.Forall₂ R as bs) (hfg : ∀ a b, R a b → f a = g b) :
    as.flatMap f = bs.flatMap g := by
  induction h with
  | nil => rfl
  | cons hab _ ih => rw [List.flatMap_cons, List.flatMap_cons, hfg _ _ hab, ih]

theorem textAll_append (ps qs : List Piece) :
    Piece.textAll (ps ++ qs) = Piece.textAll ps ++ Piece.textAll qs := List.flatMap_append

theorem textAll_piecesAll_text {frames : Frames} {env : Env} {nodes : List Node} (s : Text)
    (h : Piece.textAll (Node.piecesAll frames nodes) = Node.evalAll env nodes) :
    Piece.textAll (Node.piecesAll frames (.text s :: nodes)) =
      Node.evalAll env (.text s :: nodes) := by
  rw [Node.piecesAll, Node.pieces, textAll_append, h, Node.evalAll, Node.eval]
  simp [Piece.textAll, Piece.text]

/-- Canonical nodes, filled in along a chain of frames, come to what they say. -/
theorem textAll_piecesAll {scope : Scope} {nodes : List Node} (hn : Node.Canonical scope nodes)
    {frames : Frames} {env : Env} (h : Env.Shows scope frames env) :
    Piece.textAll (Node.piecesAll frames nodes) = Node.evalAll env nodes := by
  induction hn generalizing frames env with
  | nil => rfl
  | stretch hs hnext hn ih => exact textAll_piecesAll_text _ (ih h)
  | closing ht hn ih => exact textAll_piecesAll_text _ (ih h)
  | opening ht hopen hn ih => exact textAll_piecesAll_text _ (ih h)
  | @value scope name nodes ht hn ih =>
    have hvalue : (Placeholder.ofName? name).bind (Frames.value? frames) = env.value? name := by
      rw [Env.value?_eq_bind]
      exact congrArg _ (funext h.value?_eq_component?)
    rw [Node.piecesAll, Node.pieces, textAll_append, ih h, Node.evalAll, Node.eval, hvalue]
    cases env.value? name <;> simp [Piece.textAll, Piece.text, Tag.text, TagKind.sigil]
  | @loop scope sec body nodes hsec hclose hbody hn ihbody ih =>
    obtain ⟨_, hrepeat⟩ := h.elements hsec
    rw [Node.piecesAll, Node.pieces, textAll_append, ih h, Node.evalAll, Node.eval]
    rw [Piece.textAll, List.flatMap_assoc]
    exact congrArg (· ++ _) (flatMap_eq_of_forall₂ hrepeat fun _ _ hinner => ihbody hinner)

/-! ## Every section that is filled in -/

/-- Filling in nodes within frames comes to a section: the frames that are open there, and the
section. -/
inductive Node.Reaches : Frames → List Node → Frames → Section → Prop
  | here {frames : Frames} {nodes body : List Node} {sec : Section}
      (hmem : .loop sec body ∈ nodes) : Reaches frames nodes frames sec
  | inside {frames inner : Frames} {nodes body : List Node} {outer sec : Section} {frame : Frame}
      (hmem : .loop outer body ∈ nodes) (hframe : frame ∈ frames.elements outer)
      (h : Reaches (frame :: frames) body inner sec) : Reaches frames nodes inner sec

theorem exists_of_mem_forall₂ {α β : Type} {R : α → β → Prop} {as : List α} {bs : List β}
    (h : List.Forall₂ R as bs) {a : α} (ha : a ∈ as) : ∃ b ∈ bs, R a b := by
  induction h with
  | nil => cases ha
  | @cons x y as bs hxy _ ih =>
    rcases List.mem_cons.1 ha with rfl | ha
    · exact ⟨y, List.mem_cons_self, hxy⟩
    · obtain ⟨b, hb, hab⟩ := ih ha
      exact ⟨b, List.mem_cons_of_mem _ hb, hab⟩

/-- Every section that filling in comes to has a frame that it belongs to. -/
theorem exists_owner_of_reaches {frames inner : Frames} {nodes : List Node} {sec : Section}
    (hr : Node.Reaches frames nodes inner sec) {scope : Scope} (hn : Node.Canonical scope nodes)
    {env : Env} (h : Env.Shows scope frames env) :
    ∃ owner ∈ inner, owner.elements? sec = some (inner.elements sec) := by
  induction hr generalizing scope env with
  | here hmem => exact (h.elements (hn.of_mem_loop hmem).1).1
  | inside hmem hframe _ ih =>
    obtain ⟨houter, -, hbody⟩ := hn.of_mem_loop hmem
    obtain ⟨_, _, hinner⟩ := exists_of_mem_forall₂ (h.elements houter).2 hframe
    exact ih hbody hinner

/-- **What a template says.** Filled in along the chain of frames, a template comes to what its
nodes say of the page, and every section that is filled in has a frame that it belongs to. -/
theorem render_eq_evalAll (source : Text) (d : Data) :
    (ofText source).render d = Node.evalAll { page := d } (ofText source).nodes ∧
      ∀ inner sec, Node.Reaches [.page d] (ofText source).nodes inner sec →
        ∃ owner ∈ inner, owner.elements? sec = some (inner.elements sec) := by
  have hn : Node.Canonical .page (ofText source).nodes :=
    Reading.canonical_ofTokens source (Token.lexed_scanFrom 0 source)
  exact ⟨textAll_piecesAll hn (.page d), fun _ _ hr => exists_owner_of_reaches hr hn (.page d)⟩

end MenuPages.Template
