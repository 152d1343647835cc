import MenuPages.Proofs.Markup.Reading
import MenuPages.Viewer.Layout

/-!
# Elements on lines of their own

The layout puts every element that has elements in it on a line of its own, and its parts as well.
`Lines` says so of trees, together with the nodes that they are read as once the line breaks are
left out. It is closed under what the layout does with its parts: one after the other, one for each
thing of a list, or one only under a condition.

The readers here know nothing of a menu. Each looks for an element with one tag, and takes nothing
else for it: this is what makes an optional part readable, which is there or not without a trace.
-/

namespace MenuPages.Markup

/-! ## Readers -/

namespace Node

/-- A line break between elements. -/
def isBreak : Node → Bool
  | text s => s == ['\n']
  | element .. => false

/-- What is inside of an element with this tag. -/
def inside? (tag : String) : Node → Option (List Node)
  | text _ => none
  | element t children => if t = tag.toList then some children else none

/-- The parts of an element with this tag, which are on lines of their own. -/
def parts? (tag : String) (n : Node) : Option (List Node) :=
  (n.inside? tag).map fun ns => ns.filter fun n => !n.isBreak

/-- The text of nodes that are nothing else. -/
def onlyText? : List Node → Option Text
  | [] => some []
  | [text s] => some s
  | _ => none

/-- The text in an element with this tag. -/
def textIn? (tag : String) (n : Node) : Option Text := (n.inside? tag).bind onlyText?

/-- Reads the first node if it is of this kind, and else leaves it. -/
def optionally {α : Type} (read : Node → Option α) : List Node → Option α × List Node
  | [] => (none, [])
  | n :: ns =>
    match read n with
    | some a => (some a, ns)
    | none => (none, n :: ns)

end Node

/-! ## Lines -/

/-- It is an element. -/
def Tree.IsElement : Tree → Prop
  | .text _ => False
  | .element .. => True

/-- What one tree reads as. -/
def Tree.node : Tree → Node
  | .text s => .text s
  | .element name attributes children => .element (tag name attributes) (nodes children)

theorem Tree.nodes_cons {t : Tree} (ht : t.IsElement) (ts : List Tree) :
    nodes (t :: ts) = t.node :: nodes ts := by
  cases t with
  | text s => exact ht.elim
  | element name attributes children => rw [nodes, node]

theorem Tree.nodes_newline_cons {t : Tree} (ht : t.IsElement) (ts : List Tree) :
    nodes (newline :: t :: ts) = .text ['\n'] :: t.node :: nodes ts := by
  rw [newline, nodes, nodes_cons ht]
  cases t with
  | text s => exact ht.elim
  | element name attributes children => rfl

/-- Elements on lines of their own, which read as these nodes. -/
inductive Lines : List Tree → List Node → Prop
  | nil : Lines [] []
  | cons {t : Tree} {ts : List Tree} {ns : List Node} :
    t.IsElement → Lines ts ns → Lines (t :: Tree.newline :: ts) (t.node :: ns)

namespace Lines

variable {t : Tree} {ts us : List Tree} {ns ms : List Node}

theorem single (ht : t.IsElement) : Lines [t, Tree.newline] [t.node] := .cons ht .nil

theorem lineIf (ht : t.IsElement) (condition : Bool) :
    Lines (Layout.lineIf condition t) (if condition then [t.node] else []) := by
  cases condition with
  | false => exact .nil
  | true => exact .single ht

theorem append (h : Lines ts ns) (h' : Lines us ms) : Lines (ts ++ us) (ns ++ ms) := by
  induction h with
  | nil => exact h'
  | cons ht _ ih => exact .cons ht ih

/-- Things of a kind, each of which is built as one element, are read one by one. -/
theorem flatMap {α β : Type} {build : α → List Tree} {read : Node → Option β} {shown : α → β}
    (h : ∀ a, ∃ n, Lines (build a) [n] ∧ read n = some (shown a)) (as : List α) :
    ∃ ns, Lines (as.flatMap build) ns ∧ (∀ n ∈ ns, ∃ b, read n = some b) ∧
      ns.mapM read = some (as.map shown) := by
  induction as with
  | nil => exact ⟨[], .nil, nofun, rfl⟩
  | cons a as ih =>
    obtain ⟨n, hn, hread⟩ := h a
    obtain ⟨ns, hns, hall, hreads⟩ := ih
    refine ⟨n :: ns, hn.append hns, List.forall_mem_cons.mpr ⟨⟨_, hread⟩, hall⟩, ?_⟩
    simp [hread, hreads]

/-- Line breaks are all that is left out, also of one in front. -/
theorem filter_nodes (h : Lines ts ns) :
    (Tree.nodes ts).filter (fun n => !n.isBreak) = ns ∧
      (Tree.nodes (Tree.newline :: ts)).filter (fun n => !n.isBreak) = ns := by
  induction h with
  | nil =>
    simp only [Tree.newline, Tree.nodes]
    exact ⟨rfl, rfl⟩
  | @cons t ts ns ht _ ih =>
    have hnode := congrArg (t.node :: ·) ih.2
    rw [Tree.nodes_newline_cons ht, Tree.nodes_cons ht]
    cases t with
    | text s => exact ht.elim
    | element name attributes children => exact ⟨hnode, hnode⟩

end Lines

namespace Tree

variable {tags : List Text}

theorem Uses.line {name : Text} {attributes : List TreeAttribute} {children : List Tree}
    (hchildren : Uses tags children)
    (htag : tag name attributes ∈ tags ∧ tagName (tag name attributes) = name := by decide) :
    Uses tags [.element name attributes children, newline] :=
  (uses_nil.text _).element hchildren htag

theorem Uses.lineIf {t : Tree} (h : Uses tags [t, newline]) (condition : Bool) :
    Uses tags (Layout.lineIf condition t) := by
  cases condition with
  | false => exact uses_nil
  | true => exact h

end Tree

/-! ## What readers find -/

namespace Node

variable {tag : String} {name : Text} {attributes : List TreeAttribute}

theorem inside?_element (htag : Tree.tag name attributes = tag.toList) (children : List Tree) :
    inside? tag (Tree.element name attributes children).node = some (Tree.nodes children) :=
  if_pos htag

theorem textIn?_of_ne (htag : Tree.tag name attributes ≠ tag.toList) (children : List Tree) :
    textIn? tag (Tree.element name attributes children).node = none := by
  rw [textIn?, Tree.node, inside?, if_neg htag, Option.bind_none]

theorem parts?_element (htag : Tree.tag name attributes = tag.toList) {ts : List Tree}
    {ns : List Node} (h : Lines ts ns) :
    parts? tag (Tree.element name attributes (Tree.newline :: ts)).node = some ns := by
  rw [parts?, inside?_element htag, Option.map_some, h.filter_nodes.2]

/-- What is read with one tag is not read with another. -/
theorem textIn?_of_parts? {other : String} {n : Node} {ns : List Node} (h : n.parts? tag = some ns)
    (hne : tag.toList ≠ other.toList) : n.textIn? other = none := by
  cases n with
  | text s => rfl
  | element t children =>
    by_cases ht : t = tag.toList
    · rw [textIn?, inside?, ht, if_neg hne, Option.bind_none]
    · rw [parts?, inside?, if_neg ht] at h
      nomatch h

theorem onlyText?_addText (s : Text) (ns : List Node) :
    onlyText? (addText s ns) = (onlyText? ns).map (s ++ ·) := by
  unfold addText
  split
  · next t ns =>
    cases ns with
    | nil => rfl
    | cons n ns => rfl
  · next hns =>
    by_cases hs : s = []
    · rw [if_pos hs, hs]
      simp
    · rw [if_neg hs]
      rcases ns with _ | ⟨n | ⟨tag, children⟩, ns⟩
      · simp [onlyText?]
      · exact absurd rfl (hns _ _)
      · rfl

/-- Texts side by side are read as one. -/
theorem textIn?_element (htag : Tree.tag name attributes = tag.toList) (ss : List Text) :
    textIn? tag (Tree.element name attributes (ss.map .text)).node = some ss.flatten := by
  rw [textIn?, inside?_element htag, Option.bind_some]
  induction ss with
  | nil =>
    rw [List.map_nil, Tree.nodes]
    rfl
  | cons s ss ih =>
    rw [List.map_cons, Tree.nodes, onlyText?_addText, ih]
    rfl

theorem textIn?_text (htag : Tree.tag name attributes = tag.toList) (s : Text) :
    textIn? tag (Tree.element name attributes [.text s]).node = some s := by
  have hread := textIn?_element htag [s]
  rwa [List.flatten_singleton] at hread

section Optional

variable {α : Type} {read : Node → Option α} {n : Node} {a : α} {ns : List Node}

/-- A part that need not be there is found if it is, and nothing else is taken for it. -/
theorem optionally_append (hread : read n = some a) (hrest : ∀ m ∈ ns, read m = none)
    (condition : Bool) :
    optionally read ((if condition then [n] else []) ++ ns) =
      (if condition then some a else none, ns) := by
  cases condition with
  | true => simp [optionally, hread]
  | false =>
    cases ns with
    | nil => rfl
    | cons m ns => simp [optionally, hrest m List.mem_cons_self]

theorem optionally_single (hread : read n = some a) (condition : Bool) :
    optionally read (if condition then [n] else []) = (if condition then some a else none, []) := by
  have hnone : ∀ m ∈ ([] : List Node), read m = none := nofun
  have happend := optionally_append hread hnone condition
  rwa [List.append_nil] at happend

theorem none_of_mem_ite (hn : read n = none) (condition : Bool) :
    ∀ m ∈ (if condition then [n] else []), read m = none := by
  cases condition with
  | true => exact List.forall_mem_singleton.mpr hn
  | false => nofun

end Optional

end Node

end MenuPages.Markup
