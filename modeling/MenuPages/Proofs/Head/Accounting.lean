import MenuPages.Proofs.Head.Ownership
import MenuPages.Proofs.Head.Slots

/-!
# A session, owner by owner

A command of a session is a turn of one owner or of nobody (`Session.Command.owner?`). What it does
to the account of that owner, it does whoever else is at work on the head: `Account.step` reads
nothing but the account. `Session.Follows` says that a command has been carried out in this way,
and the laws here are the ways in which it can be.
-/

namespace MenuPages

/-! ## What owners know -/

/-- What an injection knows of a head. -/
def Injection.holding (i : Injection NodeId) : Holding where
  handles := i.nodes

/-- What an injector knows of a head. -/
def Injector.holding (j : Injector NodeId) : Holding where
  handles := j.nodes
  shown := j.current.map fun c => (c.slug, c.injection.menuId)

theorem Injector.isCurrent_iff {j : Injector NodeId} {menuId slug : Text} :
    j.isCurrent menuId slug = true ↔ j.holding.shown = some (slug, menuId) := by
  obtain ⟨current⟩ := j
  cases current with
  | none => simp [isCurrent, holding]
  | some c => simp [isCurrent, holding, and_comm]

namespace Session

/-- What the owners know, if these are the handles that the host was given. -/
def holdings (given : List NodeId) (s : Session) : Owner → Holding
  | .host => { handles := given, slots := s.hosts }
  | .injection slot => (s.injections.get? slot).elim {} Injection.holding
  | .injector slot => (s.injector slot).holding

/-- What an owner has in the head of a session. -/
def account (given : List NodeId) (s : Session) (o : Owner) : Account :=
  s.live.memory.account (s.holdings given o)

/-- The elements of an owner in the head of a session, in order. -/
def elementsOf (given : List NodeId) (s : Session) (o : Owner) : List HeadElement :=
  (s.live.memory.owned (s.holdings given o).handles).map Prod.snd

/-- Each element in the head of a session has exactly one owner. -/
def EachOwned (given : List NodeId) (s : Session) : Prop :=
  ∀ n ∈ s.live.memory.nodes, ∃! o, n.1 ∈ (s.holdings given o).handles

theorem elementsOf_eq (given : List NodeId) (s : Session) (o : Owner) :
    s.elementsOf given o = (s.account given o).nodes.map Prod.snd :=
  (s.live.memory.map_snd_account_nodes (s.holdings given o)).symm

theorem currentMenu?_eq (given : List NodeId) (s : Session) (slot : Text) :
    (s.injector slot).currentMenu? = (s.account given (.injector slot)).shown.map Prod.snd := by
  show Injector.currentMenu? _ = (s.injector slot).holding.shown.map Prod.snd
  cases s.injector slot with
  | mk current => cases current <;> rfl

/-- The handle that an answer gives to the host. -/
def Answer.node? : Answer → Option NodeId
  | .node id => some id
  | _ => none

/-- The handles that the host was given. -/
def handed (seen : List (Answer × Snapshot)) : List NodeId := seen.filterMap fun r => r.1.node?

/-- The handles that a first answer gives come before those of the others. -/
theorem append_handed_cons (given : List NodeId) (answer : Answer) (look : Snapshot)
    (seen : List (Answer × Snapshot)) :
    given ++ handed ((answer, look) :: seen) = given ++ answer.node?.toList ++ handed seen := by
  rw [handed, List.filterMap_cons, List.append_assoc]
  cases answer.node? <;> rfl

namespace Command

/-- Whose turn a command is. -/
def owner? : Command → Option Owner
  | .append .. => some .host
  | .remove .. => some .host
  | .inject slot .. => some (.injection slot)
  | .drop slot => some (.injection slot)
  | .sync slot .. => some (.injector slot)
  | .clear slot => some (.injector slot)
  | .current slot => some (.injector slot)
  | .unmount slot => some (.injector slot)
  | .display slot _ => some (.injector slot)
  | .tagged .. => none
  | .elements => none

/-- The content that a command puts into the head. -/
def content? (v : Viewer) : Command → Option Text
  | .inject _ _ content => some content
  | .sync _ _ content => some content
  | .display _ selected =>
    match (v.page selected).1 with
    | .custom menu => some menu.head
    | _ => none
  | _ => none

/-- The scan does not give up on the content of a command. -/
def Readable (v : Viewer) (command : Command) : Prop :=
  ∀ content, command.content? v = some content → ∃ es, Head.elements content = .ok es

end Command

end Session

/-! ## What commands do to accounts -/

namespace Account

/-- The elements of a content, marked with the id of a menu. -/
def clones (menuId content : Text) : List HeadElement :=
  ((Head.elements content).toOption.getD []).map (HeadElement.marked menuId)

/-- An injector shows a content. -/
def sync (a : Account) (menuId content : Text) : Account :=
  if a.shown = some (Slug.ofText content, menuId) then a
  else if Text.allBlank content then {}
  else anew (clones menuId content) (some (Slug.ofText content, menuId))

/-- What a command does to the account of the owner whose turn it is. -/
def step (v : Viewer) (a : Account) : Session.Command → Account
  | .append slot e =>
    { a with nodes := a.nodes ++ [(a.count, e)], count := a.count + 1,
             slots := a.slots.put slot a.count }
  | .remove slot =>
    match a.slots.get? slot with
    | none => a
    | some place => { a with nodes := a.nodes.filter fun n => n.1 != place }
  | .inject _ menuId content => anew (clones menuId content) none
  | .drop _ => {}
  | .sync _ menuId content => a.sync menuId content
  | .clear _ => {}
  | .unmount _ => {}
  | .display _ selected =>
    match (v.page selected).1 with
    | .custom menu => a.sync menu.menuId menu.head
    | _ => {}
  | .current _ => a
  | .tagged _ => a
  | .elements => a

theorem clones_eq {menuId content : Text} {es : List HeadElement}
    (hes : Head.elements content = .ok es) :
    clones menuId content = es.map (HeadElement.marked menuId) := by
  rw [clones, hes]
  rfl

end Account

namespace Session

variable {v : Viewer} {given : List NodeId} {s s' : Session} {command : Command} {slot : Text}

/-- What is true of a session, if these are the handles that the host was given. -/
structure Sound (given : List NodeId) (s : Session) : Prop where
  shared : s.live.memory.Shared (s.holdings given)
  injections : s.injections.Distinct
  injectors : s.injectors.Distinct

theorem Sound.eachOwned (hs : s.Sound given) : s.EachOwned given := by
  intro n hn
  obtain ⟨o, ho⟩ := hs.shared.exists_owner n hn
  exact ⟨o, ho, fun o' ho' => hs.shared.disjoint o' o n.1 ho' ho⟩

/-- A command was carried out: the session is sound again, the owner whose turn it was has what the
command makes of its account, and all others have what they had. -/
structure Follows (v : Viewer) (command : Command) (given : List NodeId) (s : Session)
    (given' : List NodeId) (s' : Session) : Prop where
  sound : s'.Sound given'
  grows : s.live.memory.Grows s'.live.memory
  own : ∀ o, command.owner? = some o → s'.account given' o = (s.account given o).step v command
  others : ∀ o, command.owner? ≠ some o → s'.account given' o = s.account given o

theorem Sound.empty : Sound [] {} where
  shared := by
    refine ⟨List.Pairwise.nil, ?_, ?_, ?_, ?_⟩
    · rintro (_ | _ | _) node hnode <;> cases hnode
    · rintro (_ | _ | _) o' node hnode <;> cases hnode
    · intro n hn
      cases hn
    · rintro (_ | _ | _) kept hkept <;> cases hkept
  injections := List.nodup_nil
  injectors := List.nodup_nil

/-- A turn of the owner whose command it is. -/
theorem Follows.of_turn {given' : List NodeId} {o : Owner} {gone kept : List NodeId}
    {es : List HeadElement} (hs : s.Sound given) (howner : command.owner? = some o)
    (ht : MemoryHead.Turn o gone kept es s.live.memory (s.holdings given)
      s'.live.memory (s'.holdings given'))
    (hinjections : s'.injections.Distinct) (hinjectors : s'.injectors.Distinct)
    (hown : s'.account given' o = (s.account given o).step v command) :
    Follows v command given s given' s' where
  sound := ⟨hs.shared.of_turn ht, hinjections, hinjectors⟩
  grows := ht.grows
  own := by
    intro o' ho'
    cases howner.symm.trans ho'
    exact hown
  others := by
    intro o' ho'
    refine ht.account_of_ne hs.shared ?_
    rintro rfl
    exact ho' howner

/-- Nothing was done. -/
theorem Follows.of_same (hs : s.Sound given) (hmemory : s'.live.memory = s.live.memory)
    (hholdings : s'.holdings given = s.holdings given)
    (hinjections : s'.injections.Distinct) (hinjectors : s'.injectors.Distinct)
    (hown : ∀ o, command.owner? = some o →
      (s.account given o).step v command = s.account given o) :
    Follows v command given s given s' where
  sound := ⟨hmemory ▸ hholdings ▸ hs.shared, hinjections, hinjectors⟩
  grows := hmemory ▸ MemoryHead.Grows.refl _
  own := by
    intro o ho
    rw [hown o ho, account, account, hmemory, hholdings]
  others := by
    intro o _
    rw [account, account, hmemory, hholdings]

/-- An owner took out all that it had, and put in elements. -/
theorem Follows.of_renewed {o : Owner} (es : List HeadElement) (shown : Option (Text × Text))
    (hs : s.Sound given) (howner : command.owner? = some o)
    (hmemory : s'.live.memory =
      (s.live.memory.without (s.holdings given o).handles).adding es)
    (hmine : s'.holdings given o =
      { handles := s.live.memory.upcoming es.length, shown := shown })
    (hothers : ∀ o', o' ≠ o → s'.holdings given o' = s.holdings given o')
    (hinjections : s'.injections.Distinct) (hinjectors : s'.injectors.Distinct)
    (hown : (s.account given o).step v command = .anew es shown) :
    Follows v command given s given s' := by
  have ht : MemoryHead.Turn o (s.holdings given o).handles [] es s.live.memory (s.holdings given)
      s'.live.memory (s'.holdings given) :=
    { memory := hmemory
      handles := by rw [hmine, List.nil_append]
      others := hothers
      gone_held := fun _ hnode => hnode
      kept_held := fun _ hnode => absurd hnode List.not_mem_nil
      kept_or_gone := fun _ hnode => Or.inr hnode
      slots_held := by
        rw [hmine]
        exact fun _ hkept => absurd hkept List.not_mem_nil }
  refine .of_turn hs howner ht hinjections hinjectors ?_
  rw [hown, account, ht.account_eq_anew hs.shared (by rw [hmine]), hmine]

end Session

end MenuPages
