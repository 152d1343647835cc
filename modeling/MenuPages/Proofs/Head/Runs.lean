import MenuPages.Proofs.Head.Accounting

/-!
# Runs, owner by owner

Each command of a session is carried out (`Session.exists_step`), unless the scan gives up on its
content. So is a run (`Session.exists_run`), and after it the account of each owner is what the
commands of that owner make of it, one after the other.
-/

namespace MenuPages

namespace Session

variable {v : Viewer} {given : List NodeId} {s s' : Session} {command : Command} {slot : Text}

/-! ## The host -/

/-- What the host puts in is kept under a name. -/
theorem turn_append (hs : s.Sound given) (slot : Text) (e : HeadElement)
    (hs' : s' = { s with
      live := (s.live.append e).2, hosts := s.hosts.put slot ⟨s.live.memory.next⟩ }) :
    MemoryHead.Turn .host [] given [e] s.live.memory (s.holdings given) s'.live.memory
      (s'.holdings (given ++ [⟨s.live.memory.next⟩])) where
  memory := by
    rw [hs', MemoryHead.without_nil]
    exact (s.live.memory_append e).2
  handles := rfl
  others := by
    intro o hne
    subst hs'
    cases o with
    | host => exact absurd rfl hne
    | injection slot => rfl
    | injector slot => rfl
  gone_held := by
    intro node hnode
    cases hnode
  kept_held := fun _ hnode => hnode
  kept_or_gone := fun _ hnode => Or.inl hnode
  slots_held := by
    intro kept hkept
    subst hs'
    rcases Slots.mem_put hkept with rfl | hold
    · exact List.mem_append_right _ (List.mem_singleton.2 rfl)
    · exact List.mem_append_left _ (hs.shared.slots_held .host kept hold)

/-- The handle that is new stands last among those of the host. -/
theorem map_idxOf_put (hs : s.Sound given) (slot : Text) {node : NodeId}
    (hnode : node = ⟨s.live.memory.next⟩) :
    (s.hosts.put slot node).map (Prod.map id (given ++ [node]).idxOf) =
      Slots.put (s.hosts.map (Prod.map id given.idxOf)) slot given.length := by
  have hnew : node ∉ given := by
    intro hin
    rw [hnode] at hin
    exact Nat.lt_irrefl _ (hs.shared.below .host _ hin)
  have hplace : (given ++ [node]).idxOf node = given.length := by
    rw [List.idxOf_append, if_neg hnew, List.idxOf_cons_self, Nat.zero_add]
  rw [Slots.map_put, hplace]
  congr 1
  apply List.map_congr_left
  intro kept hkept
  have hheld : kept.2 ∈ given := hs.shared.slots_held .host kept hkept
  simp only [Prod.map, List.idxOf_append, if_pos hheld]

theorem follows_append (hs : s.Sound given) (slot : Text) (e : HeadElement)
    (hs' : s' = { s with
      live := (s.live.append e).2, hosts := s.hosts.put slot ⟨s.live.memory.next⟩ }) :
    Follows v (.append slot e) given s (given ++ [⟨s.live.memory.next⟩]) s' := by
  have ht := turn_append hs slot e hs'
  subst hs'
  refine .of_turn hs rfl ht hs.injections hs.injectors (Account.ext ?_ ?_ ?_ rfl)
  · refine (ht.account_nodes_of_keeps hs.shared).trans ?_
    simp only [List.map_nil, List.contains_nil, Bool.not_false, List.filter_true]
    rfl
  · exact List.length_append
  · exact map_idxOf_put hs slot rfl

theorem turn_remove (hs : s.Sound given) {node : NodeId} (hnode : node ∈ given)
    (hs' : s' = { s with live := s.live.remove node }) :
    MemoryHead.Turn .host [node] given [] s.live.memory (s.holdings given) s'.live.memory
      (s'.holdings given) where
  memory := by
    rw [hs', MemoryHead.adding_nil]
    exact s.live.memory_remove node
  handles := (List.append_nil given).symm
  others := by
    intro o _
    rw [hs']
    cases o <;> rfl
  gone_held := by
    intro other hother
    rw [List.mem_singleton.1 hother]
    exact hnode
  kept_held := fun _ hkept => hkept
  kept_or_gone := fun _ hkept => Or.inl hkept
  slots_held := by
    rw [hs']
    exact hs.shared.slots_held .host

/-- The host takes out an element, if it keeps a handle under the name. -/
theorem exists_remove (hs : s.Sound given) (slot : Text) :
    ∃ isDone s', s.step v (.remove slot) = .ok (.done isDone, s') ∧
      Follows v (.remove slot) given s given s' := by
  have hplace : (s.account given .host).slots.get? slot = (s.hosts.get? slot).map given.idxOf :=
    Slots.get?_map given.idxOf s.hosts slot
  cases hget : s.hosts.get? slot with
  | none =>
    refine ⟨false, s, by rw [step, hget], .of_same hs rfl rfl hs.injections hs.injectors ?_⟩
    intro o ho
    cases ho
    rw [Account.step, hplace, hget]
    rfl
  | some node =>
    have hheld : node ∈ given := hs.shared.slots_held .host _ (Slots.mem_of_get? hget)
    have ht := turn_remove hs hheld rfl
    refine ⟨true, { s with live := s.live.remove node }, by rw [step, hget],
      .of_turn hs rfl ht hs.injections hs.injectors ?_⟩
    rw [Account.step, hplace, hget]
    refine Account.ext ((ht.account_nodes_of_keeps hs.shared).trans ?_) rfl rfl rfl
    simp only [List.length_nil, List.zip_nil_right, List.append_nil, List.map_cons, List.map_nil,
      List.contains_cons, List.contains_nil, Bool.or_false]
    rfl

/-! ## Injections -/

/-- What an injection knows is taken away together with its elements. -/
theorem dropInjection_eq (given : List NodeId) (s : Session) (slot : Text) :
    ∃ live, (s.dropInjection slot).2 = { s with live, injections := s.injections.erase slot } ∧
      live.memory = s.live.memory.without (s.holdings given (.injection slot)).handles := by
  cases hget : s.injections.get? slot with
  | none =>
    refine ⟨s.live, ?_, ?_⟩
    · rw [dropInjection, hget, Slots.erase_eq_self hget]
    · rw [holdings, hget]
      exact s.live.memory.without_nil.symm
  | some i =>
    refine ⟨s.live.drop i, ?_, ?_⟩
    · rw [dropInjection, hget]
    · rw [holdings, hget]
      exact s.live.memory_drop i

/-- Who is not the injection under a name knows what it knew, if only that injection was changed. -/
theorem holdings_of_injections {injections : Slots (Injection NodeId)}
    {live : Live (Recorded MemoryHead NodeId)}
    (hget : ∀ other, other ≠ slot → injections.get? other = s.injections.get? other)
    {o : Owner} (hne : o ≠ .injection slot) :
    ({ s with live, injections } : Session).holdings given o = s.holdings given o := by
  cases o with
  | host => rfl
  | injection other =>
    have hother : other ≠ slot := by
      rintro rfl
      exact hne rfl
    simp only [holdings, hget other hother]
  | injector other => rfl

theorem follows_drop (hs : s.Sound given) (slot : Text) :
    Follows v (.drop slot) given s given (s.dropInjection slot).2 := by
  obtain ⟨live, hdrop, hmemory⟩ := s.dropInjection_eq given slot
  rw [hdrop]
  refine .of_renewed [] none hs rfl ?_ ?_ ?_
    (Slots.distinct_erase hs.injections slot) hs.injectors rfl
  · rw [MemoryHead.adding_nil, hmemory]
  · simp only [holdings, Slots.get?_erase, if_pos]
    rfl
  · intro o hne
    refine holdings_of_injections (fun other hother => ?_) hne
    rw [Slots.get?_erase, if_neg hother]

theorem exists_inject (hs : s.Sound given) (slot menuId : Text) {content : Text}
    {es : List HeadElement} (hes : Head.elements content = .ok es) :
    ∃ i s', s.step v (.inject slot menuId content) = .ok (.injection i, s') ∧
      Follows v (.inject slot menuId content) given s given s' := by
  obtain ⟨made, hinject, hmade⟩ := s.live.inject_eq menuId hes
  obtain ⟨live, hdrop, hlive⟩ := ({ s with live := made } : Session).dropInjection_eq given slot
  let i : Injection NodeId := ⟨menuId, s.live.memory.upcoming es.length⟩
  refine ⟨i, { s with live, injections := s.injections.erase slot ++ [(slot, i)] }, ?_, ?_⟩
  · rw [step, hinject]
    simp only [Except.map, hdrop]
    rfl
  · have hgone : ∀ node ∈ (s.holdings given (.injection slot)).handles,
        node.number < s.live.memory.next := hs.shared.below (.injection slot)
    refine .of_renewed (es.map (HeadElement.marked menuId)) none hs rfl ?_ ?_ ?_ ?_ hs.injectors ?_
    · rw [← s.live.memory.without_adding hgone, ← hmade]
      exact hlive
    · simp only [holdings, Slots.get?_erase_append, if_pos, List.length_map]
      rfl
    · intro o hne
      refine holdings_of_injections (fun other hother => ?_) hne
      rw [Slots.get?_erase_append, if_neg hother]
    · refine Slots.distinct_append_single (Slots.distinct_erase hs.injections slot) ?_ i
      rw [Slots.get?_erase, if_pos rfl]
    · rw [Account.step, Account.clones_eq hes]

/-! ## Injectors -/

/-- Who is not the injector under a name knows what it knew, if only that injector was changed. -/
theorem holdings_of_injectors {injectors : Slots (Injector NodeId)}
    {live : Live (Recorded MemoryHead NodeId)}
    (hget : ∀ other, other ≠ slot → injectors.get? other = s.injectors.get? other)
    {o : Owner} (hne : o ≠ .injector slot) :
    ({ s with live, injectors } : Session).holdings given o = s.holdings given o := by
  cases o with
  | host => rfl
  | injection other => rfl
  | injector other =>
    have hother : other ≠ slot := by
      rintro rfl
      exact hne rfl
    simp only [holdings, injector, hget other hother]

/-- What an injector knows is what is put under its name. -/
theorem holdings_put_injector (given : List NodeId) (s : Session) (slot : Text)
    (j : Injector NodeId) (live : Live (Recorded MemoryHead NodeId)) :
    ({ s with live, injectors := s.injectors.put slot j } : Session).holdings given
      (.injector slot) = j.holding := by
  simp only [holdings, injector, Slots.get?_put, if_pos, Option.getD_some]

/-- An injector is left as it was. -/
theorem Follows.of_same_injector {live : Live (Recorded MemoryHead NodeId)} (hs : s.Sound given)
    (howner : command.owner? = some (.injector slot)) (hmemory : live.memory = s.live.memory)
    (hown : (s.account given (.injector slot)).step v command = s.account given (.injector slot)) :
    Follows v command given s given
      { s with live, injectors := s.injectors.put slot (s.injector slot) } := by
  refine .of_same hs hmemory ?_ hs.injections (Slots.distinct_put hs.injectors _ _) ?_
  · funext o
    by_cases heq : o = .injector slot
    · rw [heq, holdings_put_injector]
      rfl
    · refine holdings_of_injectors (fun other hother => ?_) heq
      rw [Slots.get?_put, if_neg hother]
  · intro o ho
    cases howner.symm.trans ho
    exact hown

/-- An injector took out what it had put in, and put in elements. -/
theorem Follows.of_renewed_injector {live : Live (Recorded MemoryHead NodeId)}
    {j : Injector NodeId} (es : List HeadElement) (hs : s.Sound given)
    (howner : command.owner? = some (.injector slot))
    (hmemory : live.memory = (s.live.memory.without (s.injector slot).nodes).adding es)
    (hnodes : j.nodes = s.live.memory.upcoming es.length)
    (hown : (s.account given (.injector slot)).step v command = .anew es j.holding.shown) :
    Follows v command given s given { s with live, injectors := s.injectors.put slot j } := by
  refine .of_renewed es j.holding.shown hs howner hmemory ?_ ?_ hs.injections
    (Slots.distinct_put hs.injectors _ _) hown
  · rw [holdings_put_injector, ← hnodes]
    rfl
  · intro o hne
    refine holdings_of_injectors (fun other hother => ?_) hne
    rw [Slots.get?_put, if_neg hother]

theorem exists_sync (command : Command) (hs : s.Sound given) (menuId : Text) {content : Text}
    (page : Option MenuPage)
    (hreadable : ∃ es, Head.elements content = .ok es)
    (howner : command.owner? = some (.injector slot))
    (hown : ∀ a : Account, a.step v command = a.sync menuId content) :
    ∃ changed current s', s.sync slot menuId content page =
        .ok (.injector changed current page, s') ∧ Follows v command given s given s' := by
  obtain ⟨es, hes⟩ := hreadable
  have hshown : (s.account given (.injector slot)).shown = (s.injector slot).holding.shown := rfl
  cases hcurrent : (s.injector slot).isCurrent menuId (Slug.ofText content) with
  | true =>
    have hsame := Injector.sync_of_isCurrent s.live hcurrent
    refine ⟨_, _, _, by rw [sync, hsame]; rfl, .of_same_injector hs howner rfl ?_⟩
    rw [hown, Account.sync, hshown, if_pos (Injector.isCurrent_iff.1 hcurrent)]
  | false =>
    have hne : (s.injector slot).holding.shown ≠ some (Slug.ofText content, menuId) := by
      intro heq
      rw [Injector.isCurrent_iff.2 heq] at hcurrent
      cases hcurrent
    cases hblank : Text.allBlank content with
    | true =>
      obtain ⟨changed, live, hsync, hmemory⟩ :=
        Injector.sync_of_allBlank s.live hcurrent hblank
      refine ⟨_, _, _, by rw [sync, hsync]; rfl, .of_renewed_injector [] hs howner ?_ rfl ?_⟩
      · rw [MemoryHead.adding_nil]
        exact hmemory
      · rw [hown, Account.sync, hshown, if_neg hne, if_pos hblank]
        rfl
    | false =>
      obtain ⟨live, hsync, hmemory⟩ := Injector.sync_of_content s.live hcurrent hblank hes
      refine ⟨_, _, _, by rw [sync, hsync]; rfl, .of_renewed_injector _ hs howner hmemory ?_ ?_⟩
      · rw [List.length_map]
        rfl
      · rw [hown, Account.sync, hshown, if_neg hne, if_neg (by simp [hblank]),
          Account.clones_eq hes]
        rfl

theorem follows_clear (command : Command) (hs : s.Sound given) (page : Option MenuPage)
    (howner : command.owner? = some (.injector slot))
    (hown : ∀ a : Account, a.step v command = {}) :
    Follows v command given s given (s.clear slot page).2 := by
  obtain ⟨hcleared, hmemory⟩ := (s.injector slot).clear_eq s.live
  refine .of_renewed_injector [] hs howner ?_ ?_ ?_
  · rw [MemoryHead.adding_nil]
    exact hmemory
  · rw [hcleared]
    rfl
  · rw [hown, hcleared]
    rfl

/-- What an injector knows is taken away together with its elements. -/
theorem unmount_eq (s : Session) (slot : Text) :
    ∃ live, (s.unmount slot).2 = { s with live, injectors := s.injectors.erase slot } ∧
      live.memory = s.live.memory.without (s.injector slot).nodes := by
  cases hget : s.injectors.get? slot with
  | none =>
    refine ⟨s.live, ?_, ?_⟩
    · rw [unmount, hget, Slots.erase_eq_self hget]
    · rw [injector, hget]
      exact s.live.memory.without_nil.symm
  | some j =>
    refine ⟨(j.clear s.live).2.2, ?_, ?_⟩
    · rw [unmount, hget]
    · rw [injector, hget]
      exact (j.clear_eq s.live).2

theorem follows_unmount (hs : s.Sound given) (slot : Text) :
    Follows v (.unmount slot) given s given (s.unmount slot).2 := by
  obtain ⟨live, hunmount, hmemory⟩ := s.unmount_eq slot
  rw [hunmount]
  refine .of_renewed [] none hs rfl ?_ ?_ ?_ hs.injections
    (Slots.distinct_erase hs.injectors slot) rfl
  · rw [MemoryHead.adding_nil]
    exact hmemory
  · simp only [holdings, injector, Slots.get?_erase, if_pos]
    rfl
  · intro o hne
    refine holdings_of_injectors (fun other hother => ?_) hne
    rw [Slots.get?_erase, if_neg hother]

/-! ## Steps and runs -/

/-- A command that finds another log does the same. -/
theorem Follows.of_log {log : List Event}
    (h : Follows v command given { s with live := { s.live with log := log } } given s') :
    Follows v command given s given s' :=
  ⟨h.sound, h.grows, h.own, h.others⟩

theorem exists_display (hs : s.Sound given) (slot : Text) (selected : Option Text)
    (hr : (Command.display slot selected).Readable v) :
    ∃ changed current page s', s.step v (.display slot selected) =
        .ok (.injector changed current page, s') ∧
      Follows v (.display slot selected) given s given s' := by
  let s₁ : Session := { s with live := { s.live with log := s.live.log ++ (v.page selected).2 } }
  have hs₁ : s₁.Sound given := ⟨hs.shared, hs.injections, hs.injectors⟩
  have hclear (page : MenuPage) (hstep : s.step v (.display slot selected) =
        .ok (s₁.clear slot (some page)))
      (hown : ∀ a : Account, a.step v (.display slot selected) = {}) :
      ∃ changed current page s', s.step v (.display slot selected) =
          .ok (.injector changed current page, s') ∧
        Follows v (.display slot selected) given s given s' :=
    ⟨_, _, some page, _, hstep, .of_log (follows_clear _ hs₁ (some page) rfl hown)⟩
  cases hpage : (v.page selected).1 with
  | custom menu =>
    have hreadable := hr menu.head (by simp only [Command.content?, hpage])
    obtain ⟨changed, current, s', hsync, hfollows⟩ :=
      exists_sync (v := v) (.display slot selected) hs₁ menu.menuId (some (.custom menu)) hreadable
        rfl fun a => by simp only [Account.step, hpage]
    refine ⟨changed, current, some (.custom menu), s', ?_, .of_log hfollows⟩
    simp only [step, hpage]
    exact hsync
  | empty html =>
    exact hclear _ (by simp only [step, hpage]; rfl) fun a => by simp only [Account.step, hpage]
  | selector entries html =>
    exact hclear _ (by simp only [step, hpage]; rfl) fun a => by simp only [Account.step, hpage]
  | builtin html =>
    exact hclear _ (by simp only [step, hpage]; rfl) fun a => by simp only [Account.step, hpage]

/-- A command is carried out, if the scan does not give up on its content. -/
theorem exists_step (hs : s.Sound given) (hr : command.Readable v) :
    ∃ answer s', s.step v command = .ok (answer, s') ∧
      Follows v command given s (given ++ answer.node?.toList) s' := by
  -- all commands but the host's `append` leave the host the handles that it has
  have hgiven : ∀ answer s', answer.node? = none → s.step v command = .ok (answer, s') →
      Follows v command given s given s' →
      ∃ answer s', s.step v command = .ok (answer, s') ∧
        Follows v command given s (given ++ answer.node?.toList) s' := by
    intro answer s' hnone hstep hfollows
    refine ⟨answer, s', hstep, ?_⟩
    rw [hnone, Option.toList_none, List.append_nil]
    exact hfollows
  cases command with
  | append slot e => exact ⟨_, _, rfl, follows_append hs slot e rfl⟩
  | remove slot =>
    obtain ⟨isDone, s', hstep, hfollows⟩ := exists_remove (v := v) hs slot
    exact hgiven _ s' rfl hstep hfollows
  | inject slot menuId content =>
    obtain ⟨es, hes⟩ := hr content rfl
    obtain ⟨i, s', hstep, hfollows⟩ := exists_inject (v := v) hs slot menuId hes
    exact hgiven _ s' rfl hstep hfollows
  | drop slot => exact hgiven _ _ rfl rfl (follows_drop hs slot)
  | sync slot menuId content =>
    obtain ⟨changed, current, s', hsync, hfollows⟩ :=
      exists_sync (v := v) (.sync slot menuId content) hs menuId none (hr content rfl) rfl
        fun _ => rfl
    exact hgiven _ s' rfl hsync hfollows
  | clear slot => exact hgiven _ _ rfl rfl (follows_clear _ hs none rfl fun _ => rfl)
  | current slot => exact hgiven _ _ rfl rfl (.of_same_injector hs rfl rfl rfl)
  | unmount slot => exact hgiven _ _ rfl rfl (follows_unmount hs slot)
  | display slot selected =>
    obtain ⟨changed, current, page, s', hstep, hfollows⟩ := exists_display hs slot selected hr
    exact hgiven _ s' rfl hstep hfollows
  | tagged menuId =>
    refine hgiven _ _ rfl rfl (.of_same hs rfl rfl hs.injections hs.injectors ?_)
    intro o ho
    cases ho
  | elements =>
    refine hgiven _ _ rfl rfl (.of_same hs rfl rfl hs.injections hs.injectors ?_)
    intro o ho
    cases ho

/-- What a run comes to. -/
structure Ran (v : Viewer) (commands : List Command) (given : List NodeId) (s : Session)
    (given' : List NodeId) (s' : Session) : Prop where
  sound : s'.Sound given'
  grows : s.live.memory.Grows s'.live.memory
  /-- Each owner has what its own commands make of what it had. -/
  account_eq : ∀ o, s'.account given' o =
    (commands.filter fun c => c.owner? = some o).foldl (Account.step v) (s.account given o)

/-- **Runs, owner by owner.** Commands are carried out, if the scan does not give up on the content
of any of them, and each owner has what its own commands make of what it had. -/
theorem exists_run {commands : List Command} (hs : s.Sound given)
    (hr : ∀ command ∈ commands, command.Readable v) :
    ∃ seen s', s.run v commands = .ok (seen, s') ∧
      Ran v commands given s (given ++ handed seen) s' := by
  induction commands generalizing s given with
  | nil =>
    refine ⟨[], s, rfl, ?_⟩
    rw [show given ++ handed [] = given from List.append_nil given]
    exact ⟨hs, .refl _, fun _ => rfl⟩
  | cons command commands ih =>
    obtain ⟨answer, s₁, hstep, hfollows⟩ := exists_step hs (hr command List.mem_cons_self)
    -- a look at the head forgets what happened on it, and nothing else
    have hs₁ : s₁.snapshot.2.Sound (given ++ answer.node?.toList) :=
      ⟨hfollows.sound.shared, hfollows.sound.injections, hfollows.sound.injectors⟩
    obtain ⟨seen, s', hrun, hran⟩ := ih hs₁ fun c hc => hr c (List.mem_cons_of_mem command hc)
    refine ⟨(answer, s₁.snapshot.1) :: seen, s', ?_, ?_⟩
    · rw [run, hstep]
      show (s₁.snapshot.2.run v commands >>= fun r => _) = _
      rw [hrun]
      rfl
    · rw [append_handed_cons]
      refine ⟨hran.sound, hfollows.grows.trans hran.grows, fun o => ?_⟩
      rw [hran.account_eq o]
      show _ = List.foldl (Account.step v) _ _
      by_cases ho : command.owner? = some o
      · rw [List.filter_cons_of_pos (by simpa using ho), List.foldl_cons, ← hfollows.own o ho]
        rfl
      · rw [List.filter_cons_of_neg (by simpa using ho), ← hfollows.others o ho]
        rfl

end Session

/-! ## What an owner has after a run -/

namespace Account

variable {v : Viewer} {o o' : Owner}

/-- What an owner has that is alone at work. -/
def after (v : Viewer) (o : Owner) (commands : List Session.Command) : Account :=
  (commands.filter fun c => c.owner? = some o).foldl (step v) {}

theorem after_append_single {command : Session.Command} (howner : command.owner? = some o)
    (commands : List Session.Command) :
    after v o (commands ++ [command]) = (after v o commands).step v command := by
  have hlast : [command].filter (fun c => c.owner? = some o) = [command] :=
    List.filter_cons_of_pos (by simpa using howner)
  rw [after, List.filter_append, hlast, List.foldl_append]
  rfl

end Account

/-- After a run, each owner has what it would have if it were alone at work. -/
theorem Session.exists_run_after (v : Viewer) {commands : List Command}
    (hr : ∀ command ∈ commands, command.Readable v) :
    ∃ seen s, run v {} commands = .ok (seen, s) ∧ s.Sound (handed seen) ∧
      ∀ o, s.account (handed seen) o = .after v o commands := by
  obtain ⟨seen, s, hrun, hran⟩ := exists_run Sound.empty hr
  refine ⟨seen, s, hrun, hran.sound, fun o => (hran.account_eq o).trans ?_⟩
  cases o <;> rfl

end MenuPages
