import MenuPages.Head.Injection
import MenuPages.Viewer.Page

/-!
# Sessions on one head

Several owners at work on one head: a host with elements of its own, injections, and injectors,
each under a name in a list of its kind. A session runs commands one after the other; what is seen
of the head in between is a `Snapshot`.
-/

namespace MenuPages

/-- Things under names, in the order in which they were put there. -/
abbrev Slots (α : Type) := List (Text × α)

namespace Slots

variable {α : Type}

/-- What is under a name. -/
def get? (slots : Slots α) (slot : Text) : Option α := (slots.find? fun s => s.1 == slot).map Prod.snd

/-- Takes away what is under a name. -/
def erase (slots : Slots α) (slot : Text) : Slots α := slots.filter fun s => s.1 != slot

/-- Puts something under a name: in place of what is there, or else at the end. -/
def put (slots : Slots α) (slot : Text) (a : α) : Slots α :=
  if slots.any fun s => s.1 == slot then slots.map fun s => if s.1 == slot then (slot, a) else s
  else slots ++ [(slot, a)]

end Slots

namespace Session

/-- What is done to the head or asked about it. -/
inductive Command where
  /-- The host puts in an element and keeps its handle. -/
  | append (slot : Text) (e : HeadElement)
  /-- The host takes out the element of a handle that it keeps. -/
  | remove (slot : Text)
  /-- An injection is made, and then takes the place of the one there was. -/
  | inject (slot menuId content : Text)
  /-- An injection is dropped. -/
  | drop (slot : Text)
  /-- An injector shows a content. -/
  | sync (slot menuId content : Text)
  /-- An injector shows nothing. -/
  | clear (slot : Text)
  /-- An injector is asked what it shows. -/
  | current (slot : Text)
  /-- An injector is dropped. -/
  | unmount (slot : Text)
  /-- The page for a choice is shown, and an injector kept in step with it. -/
  | display (slot : Text) (selected : Option Text)
  /-- The head is asked for the elements of a menu. -/
  | tagged (menuId : Text)
  /-- The head is asked for all elements. -/
  | elements

/-- What comes back from a command. -/
inductive Answer where
  | node (id : NodeId)
  | done (isDone : Bool)
  | injection (i : Injection NodeId)
  | injector (changed : Option Bool) (current : Option Text) (page : Option MenuPage)
  | elements (es : List HeadElement)

/-- What is seen of the head, and what happened on it since it was last looked at. -/
structure Snapshot where
  markup : Text
  size : Nat
  calls : List (HeadCall NodeId)
  log : List Event

end Session

/-- The owners of a head, and the head. -/
structure Session where
  live : Live (Recorded MemoryHead NodeId) := ⟨⟨{}, []⟩, []⟩
  hosts : Slots NodeId := []
  injections : Slots (Injection NodeId) := []
  injectors : Slots (Injector NodeId) := []

namespace Session

/-- The injector under a name, a new one if there is none. -/
def injector (s : Session) (slot : Text) : Injector NodeId := (s.injectors.get? slot).getD {}

/-- The session after an injector has worked, and what it says. -/
def afterInjector (s : Session) (slot : Text) (changed : Option Bool) (j : Injector NodeId)
    (live : Live (Recorded MemoryHead NodeId)) (page : Option MenuPage) : Answer × Session :=
  (.injector changed j.currentMenu? page, { s with live, injectors := s.injectors.put slot j })

/-- An injector shows a content. -/
def sync (s : Session) (slot menuId content : Text) (page : Option MenuPage) :
    Except ScanFault (Answer × Session) :=
  ((s.injector slot).sync menuId content s.live).map fun r =>
    s.afterInjector slot (some r.1) r.2.1 r.2.2 page

/-- An injector shows nothing. -/
def clear (s : Session) (slot : Text) (page : Option MenuPage) : Answer × Session :=
  let r := (s.injector slot).clear s.live
  s.afterInjector slot (some r.1) r.2.1 r.2.2 page

/-- Takes an injection out of the head, if there is one. -/
def dropInjection (s : Session) (slot : Text) : Bool × Session :=
  match s.injections.get? slot with
  | none => (false, s)
  | some i => (true, { s with live := s.live.drop i, injections := s.injections.erase slot })

/-- Drops an injector, if there is one. -/
def unmount (s : Session) (slot : Text) : Bool × Session :=
  match s.injectors.get? slot with
  | none => (false, s)
  | some j => (true, { s with live := (j.clear s.live).2.2, injectors := s.injectors.erase slot })

/-- Runs one command. Pages are those of the viewer. -/
def step (v : Viewer) (s : Session) : Command → Except ScanFault (Answer × Session)
  | .append slot e =>
    let (node, live) := s.live.append e
    .ok (.node node, { s with live, hosts := s.hosts.put slot node })
  | .remove slot =>
    match s.hosts.get? slot with
    | none => .ok (.done false, s)
    | some node => .ok (.done true, { s with live := s.live.remove node })
  | .inject slot menuId content =>
    (s.live.inject menuId content).map fun made =>
      let (_, s) := ({ s with live := made.2 } : Session).dropInjection slot
      (.injection made.1, { s with injections := s.injections ++ [(slot, made.1)] })
  | .drop slot =>
    let (isDone, s) := s.dropInjection slot
    .ok (.done isDone, s)
  | .sync slot menuId content => s.sync slot menuId content none
  | .clear slot => .ok (s.clear slot none)
  | .current slot => .ok (s.afterInjector slot none (s.injector slot) s.live none)
  | .unmount slot =>
    let (isDone, s) := s.unmount slot
    .ok (.done isDone, s)
  | .display slot selected =>
    let (page, events) := v.page selected
    let s : Session := { s with live := { s.live with log := s.live.log ++ events } }
    match page with
    | .custom menu => s.sync slot menu.menuId menu.head (some page)
    | _ => .ok (s.clear slot (some page))
  | .tagged menuId => .ok (.elements (s.live.head.head.tagged menuId), s)
  | .elements => .ok (.elements s.live.head.head.elements, s)

/-- Looks at the head: what is seen, and the session in which nothing has happened since. -/
def snapshot (s : Session) : Snapshot × Session :=
  let head := s.live.head.head
  (⟨head.markup, head.elements.length, s.live.head.calls, s.live.log⟩,
    { s with live := ⟨⟨head, []⟩, []⟩ })

/-- Drops all injections, and then all injectors, each in order. -/
def close (s : Session) : Session :=
  let live := s.injections.foldl (fun live i => live.drop i.2) s.live
  let live := s.injectors.foldl (fun live j => (j.2.clear live).2.2) live
  { s with live, injections := [], injectors := [] }

/-- Runs commands, with a look at the head after each. -/
def run (v : Viewer) (s : Session) :
    List Command → Except ScanFault (List (Answer × Snapshot) × Session)
  | [] => .ok ([], s)
  | command :: commands => do
    let (answer, s) ← s.step v command
    let (seen, s) := s.snapshot
    let (answers, s) ← s.run v commands
    .ok ((answer, seen) :: answers, s)

end Session

end MenuPages
