import MenuPages.Event
import MenuPages.Template.Scope

/-!
# Templates as trees

The tokens of a template become a tree: a section that may be opened where it stands, up to the
first closing tag of its name, is a loop over its body. Every other opening or closing tag stays in
the tree as the text it is written as, so nothing of the template is lost and any text is a
template.

Two kinds of tag that stay text are reported, with the line they stand on: a section that could be
opened but is never closed, and any closing tag.
-/

namespace MenuPages.Template

/-- A part of a template. -/
inductive Node where
  | text (s : Text)
  /-- A tag that stands for the value of this name. -/
  | value (name : Text)
  /-- A section and the part of the template that it repeats. -/
  | loop (sec : Section) (body : List Node)
  deriving Repr

/-- A token is the closing tag of a name. -/
def Token.closes (name : Text) : Token → Bool
  | .tag t _ => t == ⟨.closing, name⟩
  | .text _ => false

/-- The first closing tag of a name: the tokens before it and those behind it. -/
def splitAtClosing? (name : Text) : List Token → Option (List Token × List Token)
  | [] => none
  | token :: tokens =>
    if token.closes name then some ([], tokens)
    else (splitAtClosing? name tokens).map fun parts => (token :: parts.1, parts.2)

/-- The two parts leave out the closing tag. -/
theorem length_of_splitAtClosing? {name : Text} {tokens body after : List Token}
    (h : splitAtClosing? name tokens = some (body, after)) :
    body.length + after.length < tokens.length := by
  induction tokens generalizing body with
  | nil => simp [splitAtClosing?] at h
  | cons token tokens ih =>
    rw [splitAtClosing?] at h
    split at h
    · simp only [Option.some.injEq, Prod.mk.injEq] at h
      obtain ⟨rfl, rfl⟩ := h
      simp
    · obtain ⟨⟨a, z⟩, hp, heq⟩ := Option.map_eq_some_iff.1 h
      simp only [Prod.mk.injEq] at heq
      obtain ⟨rfl, rfl⟩ := heq
      have := ih hp
      simp only [List.length_cons]
      omega

/-- What tokens come to: nodes, and what is to be reported about them. -/
structure Reading where
  nodes : List Node
  events : List Event

/-- Puts a node, and what is to be reported about it, in front of a reading. -/
def Reading.cons (node : Node) (events : List Event) (r : Reading) : Reading :=
  ⟨node :: r.nodes, events ++ r.events⟩

/-- Reads tokens of `source` that stand in `scope`. -/
def Reading.ofTokens (source : Text) (scope : Scope) : List Token → Reading
  | [] => ⟨[], []⟩
  | .text s :: tokens => (ofTokens source scope tokens).cons (.text s) []
  | .tag t pos :: tokens =>
    match t.kind with
    | .value => (ofTokens source scope tokens).cons (.value t.name) []
    | .closing =>
      (ofTokens source scope tokens).cons (.text t.text)
        [.strayClosing t.name (source.lineAt pos)]
    | .opening =>
      match scope.opens? t.name with
      | none => (ofTokens source scope tokens).cons (.text t.text) []
      | some (sec, inner) =>
        match _h : splitAtClosing? t.name tokens with
        | none =>
          (ofTokens source scope tokens).cons (.text t.text)
            [.neverClosed t.name (source.lineAt pos)]
        | some (body, after) =>
          let inside := ofTokens source inner body
          (ofTokens source scope after).cons (.loop sec inside.nodes) inside.events
termination_by tokens => tokens.length
decreasing_by
  · simp
  · simp
  · simp
  · simp
  · simp
  · have := length_of_splitAtClosing? _h
    simp only [List.length_cons]
    omega
  · have := length_of_splitAtClosing? _h
    simp only [List.length_cons]
    omega

end Template

/-- A template that was read. -/
structure Template where
  nodes : List Template.Node

namespace Template

/-- Reads a text as a template of a scope, and reports its tags that stay text. -/
def parseIn (scope : Scope) (source : Text) : Template × List Event :=
  let r := Reading.ofTokens source scope (Token.scan source)
  (⟨r.nodes⟩, r.events)

/-- Reads a text as the template of a menu page. -/
def parse (source : Text) : Template × List Event := parseIn .page source

/-- Reads a text as a template without sections. -/
def parseBare (source : Text) : Template × List Event := parseIn .bare source

/-- Reads a text as a template without reporting. -/
def ofText (source : Text) : Template := (parse source).1

end Template

end MenuPages
