import MenuPages.Event
import MenuPages.Head.Element

/-!
# Heads of live pages

A head is shared by whatever lives on the page, so an element is taken out by the handle that was
given when it was put in, never by what it looks like. `DocumentHead` is all that is asked of a
head; `MemoryHead` is a head that is kept as a value; `Recorded` is any head together with the
calls that were made on it.
-/

namespace MenuPages

/-- A head with states `σ` that gives handles `ν`. -/
class DocumentHead (σ : Type) (ν : outParam Type) where
  /-- Puts an element at the end. -/
  append : HeadElement → σ → ν × σ
  /-- Takes the element of a handle out. -/
  remove : ν → σ → σ

/-! ## A head in memory -/

/-- The handle of an element of a head in memory. -/
structure NodeId where
  number : Nat
  deriving DecidableEq, Repr

/-- A head in memory: its elements in order, each with its handle, and the number of the next
handle. A number is never used again. -/
structure MemoryHead where
  nodes : List (NodeId × HeadElement) := []
  next : Nat := 0
  deriving DecidableEq, Repr

namespace MemoryHead

/-- Puts an element at the end. -/
def append (e : HeadElement) (h : MemoryHead) : NodeId × MemoryHead :=
  (⟨h.next⟩, ⟨h.nodes ++ [(⟨h.next⟩, e)], h.next + 1⟩)

/-- Takes the element of a handle out, if it is still there. -/
def remove (node : NodeId) (h : MemoryHead) : MemoryHead :=
  { h with nodes := h.nodes.filter fun n => n.1 != node }

/-- The elements in order. -/
def elements (h : MemoryHead) : List HeadElement := h.nodes.map Prod.snd

/-- The elements for which an attribute has this value. -/
def withAttribute (h : MemoryHead) (name value : Text) : List HeadElement :=
  h.elements.filter fun e => e.attribute? name == some value

/-- The head as it is written, one element on a line. -/
def markup (h : MemoryHead) : Text := h.elements.flatMap fun e => e.markup ++ ['\n']

end MemoryHead

instance : DocumentHead MemoryHead NodeId where
  append := MemoryHead.append
  remove := MemoryHead.remove

/-! ## A head with a record of the calls -/

/-- A call that was made on a head. -/
inductive HeadCall (ν : Type) where
  | append (node : ν)
  | remove (node : ν)
  deriving DecidableEq, Repr

/-- A head, and the calls that were made on it, oldest first. -/
structure Recorded (σ ν : Type) where
  head : σ
  calls : List (HeadCall ν) := []

namespace Recorded

variable {σ ν : Type}

def append [DocumentHead σ ν] (e : HeadElement) (r : Recorded σ ν) : ν × Recorded σ ν :=
  let (node, head) := DocumentHead.append e r.head
  (node, ⟨head, r.calls ++ [.append node]⟩)

def remove [DocumentHead σ ν] (node : ν) (r : Recorded σ ν) : Recorded σ ν :=
  ⟨DocumentHead.remove node r.head, r.calls ++ [.remove node]⟩

end Recorded

instance {σ ν : Type} [DocumentHead σ ν] : DocumentHead (Recorded σ ν) ν where
  append := Recorded.append
  remove := Recorded.remove

/-! ## A head in use -/

/-- A head in use, and what was reported while it was, oldest first. -/
structure Live (σ : Type) where
  head : σ
  log : List Event := []

namespace Live

variable {σ ν : Type} [DocumentHead σ ν]

/-- Adds an event to what was reported. -/
def report (event : Event) (p : Live σ) : Live σ := { p with log := p.log ++ [event] }

/-- Puts an element at the end of the head. -/
def append (e : HeadElement) (p : Live σ) : ν × Live σ :=
  let (node, head) := DocumentHead.append e p.head
  (node, { p with head })

/-- Takes the element of a handle out of the head. -/
def remove (node : ν) (p : Live σ) : Live σ :=
  { p with head := DocumentHead.remove node p.head }

/-- Puts elements at the end of the head, in order. -/
def appendAll : List HeadElement → Live σ → List ν × Live σ
  | [], p => ([], p)
  | e :: es, p =>
    let (node, p) := p.append e
    let (nodes, p) := appendAll es p
    (node :: nodes, p)

/-- Takes the elements of handles out of the head, in order. -/
def removeAll (nodes : List ν) (p : Live σ) : Live σ := nodes.foldl (fun p node => p.remove node) p

end Live

end MenuPages
