import MenuPages.Markup.Sink
import MenuPages.Template.Frame
import MenuPages.Template.Node

/-!
# Filling in templates

A template comes to pieces: its own text is markup, and what its placeholders stand for are values.
So a value is escaped, and is never read as template syntax. A placeholder that has no value here
stays as it is written.

`Template.render` joins the pieces; `Template.renderTo` writes them to a sink one by one.
-/

namespace MenuPages

namespace Template

mutual
/-- The pieces of one node, within these frames. -/
def Node.pieces (frames : Frames) : Node → List Piece
  | .text s => [.markup s]
  | .value name =>
    match (Placeholder.ofName? name).bind frames.value? with
    | some s => [.value s]
    | none => [.markup (⟨.value, name⟩ : Tag).text]
  | .loop sec body => (frames.elements sec).flatMap fun frame => piecesAll (frame :: frames) body
/-- The pieces of nodes, within these frames. -/
def Node.piecesAll (frames : Frames) : List Node → List Piece
  | [] => []
  | node :: nodes => node.pieces frames ++ piecesAll frames nodes
end

/-- The pieces of a template that is filled in with data. -/
def pieces (t : Template) (d : Data) : List Piece := Node.piecesAll [.page d] t.nodes

/-- A template filled in with data. -/
def render (t : Template) (d : Data) : Text := Piece.textAll (t.pieces d)

/-- Writes a template filled in with data to a sink. -/
def renderTo (t : Template) (d : Data) (k : Sink) : Except WriteFailure Unit × Sink :=
  k.writePieces (t.pieces d)

end Template

end MenuPages
