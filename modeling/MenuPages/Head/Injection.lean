import MenuPages.Checksum.Slug
import MenuPages.Head.Document
import MenuPages.Head.Scan

/-!
# Injections

The `style` and `link` elements of a menu's page are put into the head of the live page and stay
there until the injection is dropped. Each carries a marker attribute with the id of the menu, which
its content cannot forge: any such attribute of its own is dropped first.

An `Injector` keeps the head in step with the menu that is shown. It tells contents apart by their
slugs, so showing the same menu again changes nothing.
-/

namespace MenuPages

/-- The attribute that marks an injected element with the id of its menu. -/
def menuMarker : Text := "data-menu-custom".toList

/-- An element marked with the id of a menu. -/
def HeadElement.marked (menuId : Text) (e : HeadElement) : HeadElement :=
  (e.dropAttribute menuMarker).setAttribute menuMarker menuId

/-- The elements of a head that are marked with the id of a menu. -/
def MemoryHead.tagged (h : MemoryHead) (menuId : Text) : List HeadElement :=
  h.withAttribute menuMarker menuId

/-- The elements injected for one menu, as their handles. -/
structure Injection (ν : Type) where
  menuId : Text
  nodes : List ν
  deriving DecidableEq, Repr

section

variable {σ ν : Type} [DocumentHead σ ν]

/-- Puts the elements of a content into the head, marked with the id of a menu. -/
def Live.inject (menuId content : Text) (p : Live σ) : Except ScanFault (Injection ν × Live σ) :=
  (Head.elements content).map fun es =>
    let (nodes, p) := p.appendAll (es.map (HeadElement.marked menuId))
    (⟨menuId, nodes⟩, p.report (.injected menuId nodes.length))

/-- Takes the elements of an injection out of the head again. -/
def Live.drop (i : Injection ν) (p : Live σ) : Live σ :=
  (p.removeAll i.nodes).report (.removed i.menuId)

end

/-! ## Keeping a head in step -/

/-- What an injector has put into the head. -/
structure Injected (ν : Type) where
  /-- The slug of the content. -/
  slug : Text
  injection : Injection ν
  deriving DecidableEq, Repr

/-- Keeps a head in step with the menu that is shown. -/
structure Injector (ν : Type) where
  current : Option (Injected ν) := none
  deriving DecidableEq, Repr

namespace Injector

variable {σ ν : Type} [DocumentHead σ ν]

/-- The menu whose elements are injected. -/
def currentMenu? (j : Injector ν) : Option Text := j.current.map fun c => c.injection.menuId

/-- Takes out what is injected. Tells whether there were elements to take out. -/
def clear (j : Injector ν) (p : Live σ) : Bool × Injector ν × Live σ :=
  match j.current with
  | none => (false, ⟨none⟩, p)
  | some c => (!c.injection.nodes.isEmpty, ⟨none⟩, p.drop c.injection)

/-- Nothing has to be done to show this content of this menu. -/
def isCurrent (j : Injector ν) (menuId slug : Text) : Bool :=
  match j.current with
  | none => false
  | some c => c.injection.menuId == menuId && c.slug == slug

/-- Makes the head hold the elements of this content for this menu. The elements of the menu before
are taken out first. A blank content is only taken out. -/
def sync (j : Injector ν) (menuId content : Text) (p : Live σ) :
    Except ScanFault (Bool × Injector ν × Live σ) :=
  if j.isCurrent menuId (Slug.ofText content) then .ok (false, j, p)
  else
    let (hadElements, cleared, p) := j.clear p
    if Text.allBlank content then .ok (hadElements, cleared, p)
    else
      (p.inject menuId content).map fun made =>
        (true, ⟨some ⟨Slug.ofText content, made.1⟩⟩, made.2)

end Injector

end MenuPages
