import MenuPages.Proofs.Head.Custody
import MenuPages.Proofs.Head.Runs
import MenuPages.Proofs.Head.Serialization

/-!
# Marks cannot be forged

The elements of a menu are found in a head by their mark, and what a menu puts into the head is up
to the menu. **The law** (`Session.run_marks`): where the host marks nothing itself, the elements
that are marked for a menu are those of the live injections that were made for it, whatever their
contents have in them. Each carries the mark once, behind all other attributes.

What carries it is `Session.Reached`: whatever is in the head was put in by the host, or it belongs
to an injection that is still held, and then a command of its owner had it made from a content.
-/

namespace MenuPages

open Text

/-! ## Marks -/

namespace HeadElement

/-- The mark of a menu, once and last: no other attribute has its name, in any case. -/
def MarkedLast (menuId : Text) (e : HeadElement) : Prop :=
  ∃ as, e.attributes = as ++ [⟨menuMarker, menuId⟩] ∧ ∀ a ∈ as, small a.name ≠ menuMarker

theorem attribute?_marked (menuId : Text) (e : HeadElement) :
    (e.marked menuId).attribute? menuMarker = some menuId := by
  have hnone : (e.attributes.filter fun a => a.name != menuMarker).find?
      (fun a => a.name == menuMarker) = none := by
    rw [List.find?_eq_none]
    intro a ha
    simpa using (List.mem_filter.1 ha).2
  rw [attribute?, marked_eq, List.find?_append, hnone]
  simp

theorem attribute?_eq_none {e : HeadElement} {name : Text}
    (h : ∀ a ∈ e.attributes, a.name ≠ name) : e.attribute? name = none := by
  rw [attribute?, Option.map_eq_none_iff, List.find?_eq_none]
  intro a ha
  simpa using h a ha

/-- Since the scan keeps names in small letters, it keeps a mark of the content's own only under the
very name that is dropped. -/
theorem WellFormed.markedLast {e : HeadElement} (h : e.WellFormed) (menuId : Text) :
    (e.marked menuId).MarkedLast menuId := by
  refine ⟨e.attributes.filter fun a => a.name != menuMarker, by rw [marked_eq], fun a ha => ?_⟩
  obtain ⟨hmem, hname⟩ := List.mem_filter.1 ha
  rw [small_eq_self (h.attributeName a hmem).isUpper_eq_false]
  simpa using hname

end HeadElement

/-! ## Injectors at work -/

/-- An injector that was given a content shows it already, or the scan did not give up on it. -/
theorem Injector.readable_of_sync {j : Injector NodeId} {p : Live (Recorded MemoryHead NodeId)}
    {menuId content : Text} {r : Bool × Injector NodeId × Live (Recorded MemoryHead NodeId)}
    (h : j.sync menuId content p = .ok r) :
    j.isCurrent menuId (Slug.ofText content) = true ∨ ∃ es, Head.elements content = .ok es := by
  cases hcurrent : j.isCurrent menuId (Slug.ofText content) with
  | true => exact Or.inl rfl
  | false =>
    cases hes : Head.elements content with
    | ok es => exact Or.inr ⟨es, rfl⟩
    | error fault =>
      have hblank : Text.allBlank content = false := by
        cases hblank : Text.allBlank content with
        | false => rfl
        | true => cases hes.symm.trans (Head.elements_of_allBlank hblank)
      rw [sync, if_neg (by simp [hcurrent])] at h
      simp only [hblank, Live.inject, hes, Except.map, Bool.false_eq_true, if_false] at h
      cases h

namespace Session

variable {v : Viewer} {given given' : List NodeId} {s s' : Session} {command : Command}
  {answer : Answer} {slot : Text} {o : Owner}

/-! ## Live injections -/

/-- The injection that an owner holds. -/
def injection? (s : Session) : Owner → Option (Injection NodeId)
  | .host => none
  | .injection slot => s.injections.get? slot
  | .injector slot => (s.injector slot).held

/-- The injections that have not been dropped: those that were made by themselves, and those that
injectors hold. -/
def liveInjections (s : Session) : List (Injection NodeId) :=
  s.injections.map Prod.snd ++ s.injectors.filterMap fun j => j.2.held

/-- The menu and the content that a command shows. -/
def Command.shown? (v : Viewer) : Command → Option (Text × Text)
  | .inject _ menuId content => some (menuId, content)
  | .sync _ menuId content => some (menuId, content)
  | .display _ selected =>
    match (v.page selected).1 with
    | .custom menu => some (menu.menuId, menu.head)
    | _ => none
  | _ => none

/-- A command of this owner shows a content for this menu, and these are the elements of the
content, marked for the menu. -/
structure Command.Makes (v : Viewer) (o : Owner) (menuId : Text) (marked : List HeadElement)
    (command : Command) : Prop where
  owner : command.owner? = some o
  shown : ∃ content es, command.shown? v = some (menuId, content) ∧
    Head.elements content = .ok es ∧ marked = es.map (HeadElement.marked menuId)

theorem handles_holdings (given : List NodeId) (s : Session) (hne : o ≠ .host) :
    (s.holdings given o).handles = (s.injection? o).elim [] Injection.nodes := by
  cases o with
  | host => exact absurd rfl hne
  | injection slot =>
    rw [holdings, injection?]
    cases s.injections.get? slot <;> rfl
  | injector slot =>
    rw [holdings, injection?]
    cases s.injector slot with
    | mk current => cases current <;> rfl

theorem handles_of_injection? {i : Injection NodeId} (given : List NodeId)
    (h : s.injection? o = some i) : (s.holdings given o).handles = i.nodes := by
  have hne : o ≠ .host := by
    rintro rfl
    cases h
  rw [handles_holdings given s hne, h, Option.elim_some]

theorem Sound.mem_liveInjections_iff (hs : s.Sound given) {i : Injection NodeId} :
    i ∈ s.liveInjections ↔ ∃ o, s.injection? o = some i := by
  constructor
  · intro hin
    rcases List.mem_append.1 hin with hin | hin
    · obtain ⟨⟨slot, i⟩, hmem, rfl⟩ := List.mem_map.1 hin
      exact ⟨.injection slot, Slots.get?_of_mem hs.injections hmem⟩
    · obtain ⟨⟨slot, j⟩, hmem, hheld⟩ := List.mem_filterMap.1 hin
      refine ⟨.injector slot, ?_⟩
      rw [injection?, injector, Slots.get?_of_mem hs.injectors hmem]
      exact hheld
  · rintro ⟨o, ho⟩
    cases o with
    | host => cases ho
    | injection slot =>
      exact List.mem_append_left _ (List.mem_map.2 ⟨_, Slots.mem_of_get? ho, rfl⟩)
    | injector slot =>
      rw [injection?, injector] at ho
      cases hget : s.injectors.get? slot with
      | none =>
        rw [hget] at ho
        cases ho
      | some j =>
        rw [hget] at ho
        exact List.mem_append_right _ (List.mem_filterMap.2 ⟨_, Slots.mem_of_get? hget, ho⟩)

/-- The handles of the live injections for a menu are those that their owners hold. -/
theorem Sound.mem_nodes_iff (hs : s.Sound given) {menuId : Text} {node : NodeId} :
    node ∈ (s.liveInjections.filter fun i => i.menuId = menuId).flatMap Injection.nodes ↔
      ∃ o i, s.injection? o = some i ∧ i.menuId = menuId ∧
        node ∈ (s.holdings given o).handles := by
  simp only [List.mem_flatMap, List.mem_filter, decide_eq_true_eq]
  constructor
  · rintro ⟨i, ⟨hlive, hmenu⟩, hnode⟩
    obtain ⟨o, hheld⟩ := hs.mem_liveInjections_iff.1 hlive
    exact ⟨o, i, hheld, hmenu, (handles_of_injection? given hheld).symm ▸ hnode⟩
  · rintro ⟨o, i, hheld, hmenu, hnode⟩
    rw [handles_of_injection? given hheld] at hnode
    exact ⟨i, ⟨hs.mem_liveInjections_iff.2 ⟨o, hheld⟩, hmenu⟩, hnode⟩

/-- Whose injection it is that was not changed. -/
theorem injection?_of_injections {injections : Slots (Injection NodeId)}
    {live : Live (Recorded MemoryHead NodeId)}
    (hget : ∀ other, other ≠ slot → injections.get? other = s.injections.get? other)
    (hne : o ≠ .injection slot) :
    ({ s with live, injections } : Session).injection? o = s.injection? o := by
  cases o with
  | host => rfl
  | injection other => exact hget other fun heq => hne (heq ▸ rfl)
  | injector other => rfl

theorem injection?_of_injectors {injectors : Slots (Injector NodeId)}
    {live : Live (Recorded MemoryHead NodeId)}
    (hget : ∀ other, other ≠ slot → injectors.get? other = s.injectors.get? other)
    (hne : o ≠ .injector slot) :
    ({ s with live, injectors } : Session).injection? o = s.injection? o := by
  cases o with
  | host => rfl
  | injection other => rfl
  | injector other =>
    have hother : other ≠ slot := fun heq => hne (heq ▸ rfl)
    simp only [injection?, injector, hget other hother]

/-! ## Commands that were carried out -/

/-- What an injector did is what its session goes on with. -/
theorem sync_eq_ok {menuId content : Text} {page : Option MenuPage}
    (h : s.sync slot menuId content page = .ok (answer, s')) :
    ∃ changed j live, (s.injector slot).sync menuId content s.live = .ok (changed, j, live) ∧
      answer.node? = none ∧ s' = { s with live, injectors := s.injectors.put slot j } := by
  rw [sync] at h
  cases hsync : (s.injector slot).sync menuId content s.live with
  | error fault =>
    rw [hsync] at h
    cases h
  | ok r =>
    rw [hsync] at h
    cases h
    exact ⟨r.1, r.2.1, r.2.2, rfl, rfl, rfl⟩

/-- To show a content on which the scan gives up is to do nothing, if it is carried out at all. -/
theorem Sound.follows_of_unreadable (hs : s.Sound given) {menuId content : Text} {log : List Event}
    {page : Option MenuPage} (howner : command.owner? = some (.injector slot))
    (hown : ∀ a : Account, a.step v command = a.sync menuId content)
    (hunreadable : ¬ ∃ es, Head.elements content = .ok es)
    (hsync : ({ s with live := { s.live with log } } : Session).sync slot menuId content page =
      .ok (answer, s')) :
    Follows v command given s (given ++ answer.node?.toList) s' := by
  obtain ⟨changed, j, live, hdone, hnode, rfl⟩ := sync_eq_ok hsync
  have hcurrent := (Injector.readable_of_sync hdone).resolve_right hunreadable
  cases hdone.symm.trans (Injector.sync_of_isCurrent _ hcurrent)
  have hshown : (s.account given (.injector slot)).shown = some (Slug.ofText content, menuId) :=
    Injector.isCurrent_iff.1 hcurrent
  rw [hnode, Option.toList_none, List.append_nil]
  refine .of_same_injector hs howner rfl ?_
  rw [hown, Account.sync, if_pos hshown]

/-- A command that was carried out was carried out owner by owner, also if the scan gives up on its
content: then an injector shows what has the slug of the content, and does not look at it. -/
theorem Sound.follows_of_step (hs : s.Sound given) (hstep : s.step v command = .ok (answer, s')) :
    Follows v command given s (given ++ answer.node?.toList) s' := by
  by_cases hr : command.Readable v
  · obtain ⟨_, _, hstep', hfollows⟩ := exists_step hs hr
    cases hstep.symm.trans hstep'
    exact hfollows
  · have hunreadable {content : Text} (hcontent : command.content? v = some content) :
        ¬ ∃ es, Head.elements content = .ok es := by
      intro hread
      refine hr fun other hother => ?_
      cases hcontent.symm.trans hother
      exact hread
    cases command with
    | append | remove | drop | clear | current | unmount | tagged | elements =>
      exact absurd (fun _ => nofun) hr
    | inject slot menuId content =>
      cases hes : Head.elements content with
      | ok es => exact absurd ⟨es, hes⟩ (hunreadable rfl)
      | error fault =>
        rw [step, Live.inject, hes] at hstep
        cases hstep
    | sync slot menuId content =>
      exact hs.follows_of_unreadable rfl (fun _ => rfl) (hunreadable rfl) hstep
    | display slot selected =>
      cases hpage : (v.page selected).1 with
      | custom menu =>
        have hcontent : (Command.display slot selected).content? v = some menu.head := by
          simp only [Command.content?, hpage]
        simp only [step, hpage] at hstep
        exact hs.follows_of_unreadable rfl (fun a => by simp only [Account.step, hpage])
          (hunreadable hcontent) hstep
      | empty | selector | builtin =>
        exact absurd (fun _ => by simp [Command.content?, hpage]) hr

/-- What a command that was carried out leaves an owner with: the injection that it had with its
elements, no injection, or one that it made. -/
inductive Leaves (v : Viewer) (command : Command) (o : Owner) (given : List NodeId) (s : Session)
    (given' : List NodeId) (s' : Session) : Prop
  | same (hheld : s'.injection? o = s.injection? o)
    (haccount : s'.account given' o = s.account given o)
  | nothing (hheld : s'.injection? o = none)
  | made (i : Injection NodeId) (hheld : s'.injection? o = some i)
    (hmade : command.Makes v o i.menuId (s'.elementsOf given' o))

/-- A command changes what its owner holds and nothing that others do. -/
theorem Follows.leaves_of_owner {owner : Owner} (hf : Follows v command given s given' s')
    (howner : command.owner? = some owner)
    (hothers : ∀ o, o ≠ owner → s'.injection? o = s.injection? o)
    (hown : Leaves v command owner given s given' s') (o : Owner) :
    Leaves v command o given s given' s' := by
  by_cases heq : o = owner
  · rw [heq]
    exact hown
  · refine .same (hothers o heq) (hf.others o ?_)
    rw [howner]
    exact fun h => heq (Option.some.inj h).symm

theorem injection?_put (s : Session) (slot : Text) (j : Injector NodeId)
    (live : Live (Recorded MemoryHead NodeId)) :
    ({ s with live, injectors := s.injectors.put slot j } : Session).injection?
      (.injector slot) = j.held := by
  simp only [injection?, injector, Slots.get?_put, if_pos, Option.getD_some]

/-- An injector was put back as a command left it. -/
theorem Follows.leaves_of_put {j : Injector NodeId} {live : Live (Recorded MemoryHead NodeId)}
    (hf : Follows v command given s given'
      { s with live, injectors := s.injectors.put slot j })
    (howner : command.owner? = some (.injector slot))
    (hown : Leaves v command (.injector slot) given s given'
      { s with live, injectors := s.injectors.put slot j })
    (o : Owner) :
    Leaves v command o given s given' { s with live, injectors := s.injectors.put slot j } := by
  refine hf.leaves_of_owner howner
    (fun o hne => injection?_of_injectors (fun other hother => ?_) hne) hown o
  rw [Slots.get?_put, if_neg hother]

/-- An injector shows nothing any more. -/
theorem Follows.leaves_of_clear (log : List Event) {page : Option MenuPage}
    (hf : Follows v command given s given' s') (howner : command.owner? = some (.injector slot))
    (hs' : (({ s with live := { s.live with log } } : Session).clear slot page).2 = s')
    (o : Owner) : Leaves v command o given s given' s' := by
  subst hs'
  refine hf.leaves_of_put howner (.nothing ?_) o
  have hcleared := ((s.injector slot).clear_eq { s.live with log := log }).1
  exact (injection?_put ..).trans (congrArg Injector.held hcleared)

/-- An injector was given a content. -/
theorem Follows.leaves_of_sync (hf : Follows v command given s given' s')
    {menuId content : Text} {log : List Event} {page : Option MenuPage}
    (howner : command.owner? = some (.injector slot))
    (hown : ∀ a : Account, a.step v command = a.sync menuId content)
    (hshown : command.shown? v = some (menuId, content))
    (hsync : ({ s with live := { s.live with log } } : Session).sync slot menuId content page =
      .ok (answer, s')) (o : Owner) :
    Leaves v command o given s given' s' := by
  obtain ⟨changed, j, live, hdone, -, rfl⟩ := sync_eq_ok hsync
  refine hf.leaves_of_put howner ?_ o
  have hheld := s.injection?_put slot j live
  have haccount := (hf.own _ howner).trans (hown _)
  cases hcurrent : (s.injector slot).isCurrent menuId (Slug.ofText content) with
  | true =>
    have hshows : (s.account given (.injector slot)).shown =
        some (Slug.ofText content, menuId) := Injector.isCurrent_iff.1 hcurrent
    cases hdone.symm.trans (Injector.sync_of_isCurrent _ hcurrent)
    rw [Account.sync, if_pos hshows] at haccount
    exact .same hheld haccount
  | false =>
    have hne : (s.account given (.injector slot)).shown ≠ some (Slug.ofText content, menuId) := by
      intro hshows
      have htrue := Injector.isCurrent_iff.2 hshows
      rw [hcurrent] at htrue
      cases htrue
    obtain ⟨es, hes⟩ : ∃ es, Head.elements content = .ok es :=
      (Injector.readable_of_sync hdone).resolve_left (Bool.eq_false_iff.1 hcurrent)
    obtain ⟨r, hr, hsynced⟩ :=
      (s.injector slot).exists_synced { s.live with log := log } menuId hes
    cases hdone.symm.trans hr
    cases hsynced with
    | settled htrue => cases hcurrent.symm.trans htrue
    | blank => exact .nothing hheld
    | @shown i _ _ hblank hmenu =>
      refine .made i hheld ⟨howner, content, es, hmenu ▸ hshown, hes, ?_⟩
      rw [Account.sync, if_neg hne, if_neg (by simp [hblank]), Account.clones_eq hes] at haccount
      rw [elementsOf_eq, haccount, Account.map_snd_nodes_anew, hmenu]

theorem Follows.leaves (hf : Follows v command given s given' s')
    (hstep : s.step v command = .ok (answer, s')) (o : Owner) :
    Leaves v command o given s given' s' := by
  cases command with
  | append slot e =>
    cases hstep
    exact hf.leaves_of_owner rfl (fun o _ => by cases o <;> rfl) (.nothing rfl) o
  | remove slot =>
    rw [step] at hstep
    split at hstep <;> cases hstep <;>
      exact hf.leaves_of_owner rfl (fun o _ => by cases o <;> rfl) (.nothing rfl) o
  | inject slot menuId content =>
    cases hes : Head.elements content with
    | error fault =>
      rw [step, Live.inject, hes] at hstep
      cases hstep
    | ok es =>
      obtain ⟨made, hinject, -⟩ := s.live.inject_eq menuId hes
      obtain ⟨live, hdrop, -⟩ := ({ s with live := made } : Session).dropInjection_eq given slot
      rw [step, hinject] at hstep
      simp only [Except.map, hdrop] at hstep
      cases hstep
      refine hf.leaves_of_owner rfl
        (fun o hne => injection?_of_injections (fun other hother => ?_) hne) ?_ o
      · rw [Slots.get?_erase_append, if_neg hother]
      · refine .made ⟨menuId, s.live.memory.upcoming es.length⟩ ?_ ⟨rfl, content, es, rfl, hes, ?_⟩
        · rw [injection?, Slots.get?_erase_append, if_pos rfl]
        · rw [elementsOf_eq, hf.own _ rfl, Account.step, Account.map_snd_nodes_anew,
            Account.clones_eq hes]
  | drop slot =>
    obtain ⟨live, hdrop, -⟩ := s.dropInjection_eq given slot
    have hs' : (s.dropInjection slot).2 = s' := by
      cases hstep
      rfl
    rw [hdrop] at hs'
    subst hs'
    refine hf.leaves_of_owner rfl
      (fun o hne => injection?_of_injections (fun other hother => ?_) hne) (.nothing ?_) o
    · rw [Slots.get?_erase, if_neg hother]
    · rw [injection?, Slots.get?_erase, if_pos rfl]
  | sync slot menuId content => exact hf.leaves_of_sync rfl (fun _ => rfl) rfl hstep o
  | clear slot =>
    exact hf.leaves_of_clear s.live.log rfl (congrArg Prod.snd (Except.ok.inj hstep)) o
  | current slot =>
    cases hstep
    exact hf.leaves_of_put rfl (.same (s.injection?_put slot _ _) (hf.own _ rfl)) o
  | unmount slot =>
    obtain ⟨live, hunmount, -⟩ := s.unmount_eq slot
    have hs' : (s.unmount slot).2 = s' := by
      cases hstep
      rfl
    rw [hunmount] at hs'
    subst hs'
    refine hf.leaves_of_owner rfl
      (fun o hne => injection?_of_injectors (fun other hother => ?_) hne) (.nothing ?_) o
    · rw [Slots.get?_erase, if_neg hother]
    · simp only [injection?, injector, Slots.get?_erase, if_pos]
      rfl
  | display slot selected =>
    cases hpage : (v.page selected).1 with
    | custom menu =>
      simp only [step, hpage] at hstep
      exact hf.leaves_of_sync rfl (fun a => by simp only [Account.step, hpage])
        (by simp only [Command.shown?, hpage]) hstep o
    | empty | selector | builtin =>
      simp only [step, hpage] at hstep
      exact hf.leaves_of_clear _ rfl (congrArg Prod.snd (Except.ok.inj hstep)) o
  | tagged menuId | elements =>
    cases hstep
    refine .same rfl (hf.others o fun howner => ?_)
    cases howner

/-! ## Reachable sessions -/

/-- What a session comes to in which these commands were carried out. -/
structure Reached (v : Viewer) (commands : List Command) (given : List NodeId) (s : Session) :
    Prop where
  sound : s.Sound given
  /-- What the host has it has put in. -/
  appended : ∀ e ∈ s.elementsOf given .host, ∃ slot, Command.append slot e ∈ commands
  /-- What an injection has is what one of the commands made. -/
  made : ∀ o i, s.injection? o = some i →
    ∃ command ∈ commands, command.Makes v o i.menuId (s.elementsOf given o)

variable {commands : List Command} {seen : List (Answer × Snapshot)}

theorem Reached.empty (v : Viewer) : Reached v [] [] {} where
  sound := .empty
  appended := nofun
  made := by
    intro o i hheld
    cases o <;> cases hheld

/-- The host puts in nothing but the elements of its own commands. -/
theorem mem_nodes_step {a : Account} {e : HeadElement} (howner : command.owner? = some .host)
    (he : e ∈ (a.step v command).nodes.map Prod.snd) :
    e ∈ a.nodes.map Prod.snd ∨ ∃ slot, command = .append slot e := by
  cases command with
  | append slot other =>
    simp only [Account.step, List.map_append, List.map_cons, List.map_nil, List.mem_append,
      List.mem_singleton] at he
    rcases he with hin | rfl
    · exact Or.inl hin
    · exact Or.inr ⟨slot, rfl⟩
  | remove slot =>
    rw [Account.step] at he
    split at he
    · exact Or.inl he
    · exact Or.inl ((List.filter_sublist.map Prod.snd).subset he)
  | inject | drop | sync | clear | current | unmount | display | tagged | elements => cases howner

theorem Reached.step (h : Reached v commands given s)
    (hstep : s.step v command = .ok (answer, s')) :
    Reached v (commands ++ [command]) (given ++ answer.node?.toList) s' := by
  have hf := h.sound.follows_of_step hstep
  refine ⟨hf.sound, fun e he => ?_, fun o i hheld => ?_⟩
  · have hbefore : e ∈ s.elementsOf given .host →
        ∃ slot, Command.append slot e ∈ commands ++ [command] := by
      intro hin
      obtain ⟨slot, hmem⟩ := h.appended e hin
      exact ⟨slot, List.mem_append_left _ hmem⟩
    rw [elementsOf_eq] at he
    by_cases howner : command.owner? = some .host
    · rw [hf.own _ howner] at he
      rcases mem_nodes_step howner he with hin | ⟨slot, rfl⟩
      · rw [← elementsOf_eq] at hin
        exact hbefore hin
      · exact ⟨slot, List.mem_append_right _ List.mem_cons_self⟩
    · rw [hf.others _ howner, ← elementsOf_eq] at he
      exact hbefore he
  · cases hf.leaves hstep o with
    | same hsame haccount =>
      obtain ⟨made, hmem, hmakes⟩ := h.made o i (hsame.symm.trans hheld)
      rw [elementsOf_eq, ← haccount, ← elementsOf_eq] at hmakes
      exact ⟨made, List.mem_append_left _ hmem, hmakes⟩
    | nothing hnone => cases hnone.symm.trans hheld
    | made other hother hmakes =>
      cases hother.symm.trans hheld
      exact ⟨command, List.mem_append_right _ List.mem_cons_self, hmakes⟩

/-- A run of some commands is the first command and then a run of the others. -/
theorem run_cons_eq_ok {more : List Command} (hrun : s.run v (command :: more) = .ok (seen, s')) :
    ∃ answer s₁ rest, s.step v command = .ok (answer, s₁) ∧
      s₁.snapshot.2.run v more = .ok (rest, s') ∧ seen = (answer, s₁.snapshot.1) :: rest := by
  rw [run] at hrun
  cases hstep : s.step v command with
  | error fault =>
    rw [hstep] at hrun
    cases hrun
  | ok r =>
    obtain ⟨answer, s₁⟩ := r
    rw [hstep] at hrun
    change (s₁.snapshot.2.run v more >>= fun r => _) = _ at hrun
    cases hmore : s₁.snapshot.2.run v more with
    | error fault =>
      rw [hmore] at hrun
      cases hrun
    | ok r =>
      rw [hmore] at hrun
      cases hrun
      exact ⟨answer, s₁, r.1, rfl, hmore, rfl⟩

/-- A run goes on from a session that was reached. -/
theorem Reached.run {more : List Command} (h : Reached v commands given s)
    (hrun : s.run v more = .ok (seen, s')) :
    Reached v (commands ++ more) (given ++ handed seen) s' := by
  induction more generalizing s commands given seen with
  | nil =>
    cases hrun
    rw [List.append_nil, show given ++ handed [] = given from List.append_nil given]
    exact h
  | cons command more ih =>
    obtain ⟨answer, s₁, rest, hstep, hmore, rfl⟩ := run_cons_eq_ok hrun
    have h₁ := h.step hstep
    -- a look at the head forgets what happened on it, and nothing else
    have hseen : Reached v (commands ++ [command]) (given ++ answer.node?.toList) s₁.snapshot.2 :=
      ⟨⟨h₁.sound.shared, h₁.sound.injections, h₁.sound.injectors⟩, h₁.appended, h₁.made⟩
    rw [append_handed_cons, List.append_cons]
    exact ih hseen hmore

/-! ## The elements that are marked for a menu -/

/-- What the marks in a head say, after these commands. -/
structure MarksTell (v : Viewer) (commands : List Command) (s : Session) : Prop where
  /-- The elements that are marked for a menu are those of the live injections for it, in the order
  of the head. -/
  tagged_eq : ∀ menuId, s.live.head.head.tagged menuId =
    (s.live.head.head.owned ((s.liveInjections.filter fun i => i.menuId = menuId).flatMap
      Injection.nodes)).map Prod.snd
  /-- They carry the mark once, as the last of their attributes. -/
  marked_last : ∀ menuId, ∀ e ∈ s.live.head.head.tagged menuId, e.MarkedLast menuId
  /-- The elements of a live injection are those of a content that its owner was given for this
  menu. -/
  made : ∀ i ∈ s.liveInjections, ∃ o, s.injection? o = some i ∧ ∃ command ∈ commands,
    command.Makes v o i.menuId ((s.live.head.head.owned i.nodes).map Prod.snd)

theorem mem_elementsOf {n : NodeId × HeadElement} (hn : n ∈ s.live.memory.nodes)
    (ho : n.1 ∈ (s.holdings given o).handles) : n.2 ∈ s.elementsOf given o :=
  List.mem_map.2 ⟨n, List.mem_filter.2 ⟨hn, List.contains_iff_mem.2 ho⟩, rfl⟩

/-- What a live injection has in the head is marked for its menu. -/
theorem Reached.exists_marked (h : Reached v commands given s) {i : Injection NodeId}
    (hheld : s.injection? o = some i) {e : HeadElement} (he : e ∈ s.elementsOf given o) :
    ∃ d : HeadElement, d.WellFormed ∧ e = d.marked i.menuId := by
  obtain ⟨command, -, -, content, es, -, hes, hmarked⟩ := h.made o i hheld
  rw [hmarked] at he
  obtain ⟨d, hd, rfl⟩ := List.mem_map.1 he
  exact ⟨d, (Head.wellFormed_of_elements hes).1 d hd, rfl⟩

section Marks

variable (hhost : ∀ slot e, .append slot e ∈ commands → ∀ a ∈ e.attributes, a.name ≠ menuMarker)

include hhost

/-- Who has an element tells which mark it carries. -/
theorem Reached.mark_eq (h : Reached v commands given s) {n : NodeId × HeadElement}
    (hn : n ∈ s.live.memory.nodes) (ho : n.1 ∈ (s.holdings given o).handles) :
    n.2.attribute? menuMarker = (s.injection? o).map Injection.menuId := by
  have helement := mem_elementsOf hn ho
  by_cases heq : o = .host
  · subst heq
    obtain ⟨slot, hmem⟩ := h.appended n.2 helement
    exact HeadElement.attribute?_eq_none (hhost slot n.2 hmem)
  · cases hheld : s.injection? o with
    | none =>
      rw [handles_holdings given s heq, hheld] at ho
      cases ho
    | some i =>
      obtain ⟨d, -, hd⟩ := h.exists_marked hheld helement
      rw [hd, HeadElement.attribute?_marked]
      rfl

theorem Reached.tagged_eq (h : Reached v commands given s) (menuId : Text) :
    s.live.memory.tagged menuId =
      (s.live.memory.owned ((s.liveInjections.filter fun i => i.menuId = menuId).flatMap
        Injection.nodes)).map Prod.snd := by
  rw [MemoryHead.tagged, MemoryHead.withAttribute, MemoryHead.elements, List.filter_map]
  refine congrArg (List.map Prod.snd) (List.filter_congr fun n hn => ?_)
  rw [Bool.eq_iff_iff, Function.comp_apply, beq_iff_eq, List.contains_iff_mem]
  rw [h.sound.mem_nodes_iff]
  constructor
  · intro hmark
    obtain ⟨o, ho⟩ := h.sound.shared.exists_owner n hn
    rw [h.mark_eq hhost hn ho] at hmark
    obtain ⟨i, hheld, hmenu⟩ := Option.map_eq_some_iff.1 hmark
    exact ⟨o, i, hheld, hmenu, ho⟩
  · rintro ⟨o, i, hheld, hmenu, ho⟩
    rw [h.mark_eq hhost hn ho, hheld, Option.map_some, hmenu]

end Marks

/-- **Marks cannot be forged.** After any run in which the host puts in no element with a mark, the
elements that are marked for a menu are those of the live injections that were made for it, each
marked once and last. Their contents may have marks of their own, as many as they like, in any case
and for any menu. -/
theorem run_marks {v : Viewer} {commands : List Command} {seen : List (Answer × Snapshot)}
    {s : Session} (hrun : run v {} commands = .ok (seen, s))
    (hhost : ∀ slot e, .append slot e ∈ commands → ∀ a ∈ e.attributes, a.name ≠ menuMarker) :
    MarksTell v commands s := by
  have h : Reached v commands (handed seen) s := (Reached.empty v).run hrun
  have htagged := h.tagged_eq hhost
  refine ⟨htagged, fun menuId e he => ?_, fun i hlive => ?_⟩
  · obtain ⟨n, hn, rfl⟩ := List.mem_map.1 (htagged menuId ▸ he)
    obtain ⟨hmem, hnode⟩ := List.mem_filter.1 hn
    obtain ⟨o, i, hheld, hmenu, ho⟩ := h.sound.mem_nodes_iff.1 (List.contains_iff_mem.1 hnode)
    obtain ⟨d, hwell, hd⟩ := h.exists_marked hheld (mem_elementsOf hmem ho)
    rw [hd, hmenu]
    exact hwell.markedLast menuId
  · obtain ⟨o, hheld⟩ := h.sound.mem_liveInjections_iff.1 hlive
    obtain ⟨command, hmem, hmakes⟩ := h.made o i hheld
    rw [elementsOf, handles_of_injection? _ hheld] at hmakes
    exact ⟨o, hheld, command, hmem, hmakes⟩

/-- A menu whose content has the mark of another in it, twice and in capital letters, and an
injector that shows the other menu, on a head with an element of its own. -/
theorem run_marks_forged :
    let v : Viewer := ⟨"Sol".toList, [], .spanish⟩
    let site : HeadElement := ⟨.link, [⟨"href".toList, "/site.css".toList⟩], []⟩
    let forged := "<link Data-Menu-Custom=m2 DATA-MENU-CUSTOM=m3 a>".toList
    let commands : List Command := [.append "h".toList site,
      .inject "i".toList "m1".toList forged, .sync "j".toList "m2".toList "<link b>".toList]
    (run v {} commands).map (fun r => r.2.live.head.head.tagged "m1".toList) =
        .ok [⟨.link, [⟨"a".toList, []⟩, ⟨"data-menu-custom".toList, "m1".toList⟩], []⟩] ∧
      (run v {} commands).map (fun r => r.2.live.head.head.tagged "m2".toList) =
        .ok [⟨.link, [⟨"b".toList, []⟩, ⟨"data-menu-custom".toList, "m2".toList⟩], []⟩] ∧
      ∃ seen s, run v {} commands = .ok (seen, s) ∧ MarksTell v commands s := by
  intro v site forged commands
  have hforged : Head.elements forged =
      .ok [⟨.link, [⟨"data-menu-custom".toList, "m2".toList⟩, ⟨"a".toList, []⟩], []⟩] := by
    decide +kernel
  have hother : Head.elements "<link b>".toList = .ok [⟨.link, [⟨"b".toList, []⟩], []⟩] := by
    decide +kernel
  have hreadable : ∀ command ∈ commands, command.Readable v := by
    intro command hmem content hcontent
    simp only [commands, List.mem_cons, List.not_mem_nil, or_false] at hmem
    rcases hmem with rfl | rfl | rfl <;> cases hcontent
    · exact ⟨_, hforged⟩
    · exact ⟨_, hother⟩
  obtain ⟨seen, s, hrun, -⟩ := exists_run_after v hreadable
  refine ⟨by decide +kernel, by decide +kernel, seen, s, hrun,
    run_marks hrun fun slot e hmem => ?_⟩
  simp only [commands, List.mem_cons, List.not_mem_nil, or_false, reduceCtorEq, or_self,
    Command.append.injEq] at hmem
  rw [hmem.2]
  decide

end Session

end MenuPages
