import MenuPages.Proofs.Head.Runs

/-!
# Owners of one head do not affect each other

`Session.Independent` is what can be said at any point of a session about the owners at work on its
head: whose an element is, what each of them has, what becomes of the head when one of them takes
out what it has, and when all of them do. **The law** (`Session.run_independent`): so it is after
every run, in whatever order the owners take their turns.
-/

namespace MenuPages

/-! ## Taking out what several owners have -/

theorem Live.memory_foldl {α : Type} {drop : Live (Recorded MemoryHead NodeId) → α →
      Live (Recorded MemoryHead NodeId)} {nodes : α → List NodeId}
    (hdrop : ∀ p a, (drop p a).memory = p.memory.without (nodes a)) (as : List α)
    (p : Live (Recorded MemoryHead NodeId)) :
    (as.foldl drop p).memory = p.memory.without (as.flatMap nodes) := by
  induction as generalizing p with
  | nil => exact p.memory.without_nil.symm
  | cons a as ih =>
    rw [List.foldl_cons, ih, hdrop, MemoryHead.without_without, List.flatMap_cons]

namespace Account

variable {v : Viewer} {o o' : Owner}

theorem after_filter_owner (commands : List Session.Command) :
    after v o (commands.filter fun c => c.owner? = some o) = after v o commands := by
  rw [after, after, List.filter_filter]
  simp only [Bool.and_self]

/-- An owner that does nothing has nothing. -/
theorem after_filter_other (hne : o' ≠ o) (commands : List Session.Command) :
    after v o' (commands.filter fun c => c.owner? = some o) = {} := by
  have hnone : (commands.filter fun c => c.owner? = some o).filter
      (fun c => c.owner? = some o') = [] := by
    rw [List.filter_eq_nil_iff]
    intro command hmem howner
    have h : command.owner? = some o := by simpa using (List.mem_filter.1 hmem).2
    have h' : command.owner? = some o' := by simpa using howner
    exact hne (Option.some.inj (h'.symm.trans h))
  rw [after, hnone]
  rfl

end Account

namespace Session

variable {v : Viewer} {given : List NodeId} {s : Session} {commands : List Command}

/-- Whose elements a command takes out, if that is all that it does. -/
def Command.released? : Command → Option Owner
  | .drop slot => some (.injection slot)
  | .clear slot => some (.injector slot)
  | .unmount slot => some (.injector slot)
  | _ => none

/-- What can be said of the owners at work on a head, after a run of these commands. -/
structure Independent (v : Viewer) (commands : List Command) (given : List NodeId) (s : Session) :
    Prop where
  /-- Elements stand in the order of the numbers of their handles. -/
  ascending : s.live.memory.nodes.Pairwise fun a b => a.1.number < b.1.number
  /-- The number that comes next is above all others. -/
  number_lt : ∀ n ∈ s.live.memory.nodes, n.1.number < s.live.memory.next
  /-- Whatever is done from here on, what is in the head then is there now, or it has a number that
  is still to come. -/
  never_reused : ∀ later : List Command, (∀ command ∈ later, command.Readable v) →
    ∃ seen s', s.run v later = .ok (seen, s') ∧ s.live.memory.Grows s'.live.memory
  /-- Each element has exactly one owner. -/
  each_owned : s.EachOwned given
  /-- Each owner has the elements that it would have if its commands alone were run on an empty
  head. -/
  as_alone : ∀ o, ∃ seen alone,
    run v {} (commands.filter fun c => c.owner? = some o) = .ok (seen, alone) ∧
      s.elementsOf given o = alone.live.memory.elements
  /-- To drop or clear an owner takes out what this owner has and nothing else. -/
  released : ∀ command o, command.released? = some o → ∃ answer s',
    s.step v command = .ok (answer, s') ∧ s'.live.memory.nodes =
      s.live.memory.nodes.filter fun n => !(s.holdings given o).handles.contains n.1
  /-- Where there is no injection and no injector, there is only what the host has. -/
  host_left : s.injections = [] → s.injectors = [] →
    s.live.memory.elements = s.elementsOf given .host
  /-- When all injections and injectors are dropped, what the host has is left. -/
  closed : s.close.live.memory.nodes = s.live.memory.owned given

/-- An owner has the whole head if nobody else has any of it. -/
theorem Sound.elements_eq (hs : s.Sound given) {o : Owner}
    (hothers : ∀ o', o' ≠ o → (s.holdings given o').handles = []) :
    s.live.memory.elements = s.elementsOf given o := by
  have hall : s.live.memory.owned (s.holdings given o).handles = s.live.memory.nodes := by
    refine List.filter_eq_self.2 fun n hn => List.contains_iff_mem.2 ?_
    obtain ⟨o', ho'⟩ := hs.shared.exists_owner n hn
    by_cases heq : o' = o
    · rw [← heq]
      exact ho'
    · rw [hothers o' heq] at ho'
      cases ho'
  rw [elementsOf, hall]
  rfl

theorem exists_run_alone (o : Owner) (hr : ∀ command ∈ commands, command.Readable v)
    (haccount : s.account given o = .after v o commands) :
    ∃ seen alone, run v {} (commands.filter fun c => c.owner? = some o) = .ok (seen, alone) ∧
      s.elementsOf given o = alone.live.memory.elements := by
  obtain ⟨seen, alone, hrun, hsound, halone⟩ :=
    exists_run_after v (fun c hc => hr c (List.mem_filter.1 hc).1 :
      ∀ command ∈ commands.filter fun c => c.owner? = some o, command.Readable v)
  have hothers : ∀ o', o' ≠ o → (alone.holdings (handed seen) o').handles = [] := by
    intro o' hne
    have hcount : (alone.account (handed seen) o').count = 0 := by
      rw [halone, Account.after_filter_other hne]
    exact List.eq_nil_of_length_eq_zero hcount
  refine ⟨seen, alone, hrun, ?_⟩
  rw [hsound.elements_eq hothers, elementsOf_eq, elementsOf_eq, halone, haccount,
    Account.after_filter_owner]

theorem exists_step_released (given : List NodeId) (s : Session) {command : Command} {o : Owner}
    (hreleased : command.released? = some o) : ∃ answer s',
      s.step v command = .ok (answer, s') ∧ s'.live.memory.nodes =
        s.live.memory.nodes.filter fun n => !(s.holdings given o).handles.contains n.1 := by
  cases command with
  | append | remove | inject | sync | current | display | tagged | elements => cases hreleased
  | drop slot =>
    cases hreleased
    obtain ⟨live, hdrop, hmemory⟩ := s.dropInjection_eq given slot
    refine ⟨_, _, rfl, ?_⟩
    show (s.dropInjection slot).2.live.memory.nodes = _
    rw [hdrop, hmemory]
    rfl
  | clear slot =>
    cases hreleased
    refine ⟨_, _, rfl, ?_⟩
    show ((s.injector slot).clear s.live).2.2.memory.nodes = _
    rw [((s.injector slot).clear_eq s.live).2]
    rfl
  | unmount slot =>
    cases hreleased
    obtain ⟨live, hunmount, hmemory⟩ := s.unmount_eq slot
    refine ⟨_, _, rfl, ?_⟩
    show (s.unmount slot).2.live.memory.nodes = _
    rw [hunmount, hmemory]
    rfl

/-- The handles of all injections and injectors. -/
def dropped (s : Session) : List NodeId :=
  s.injections.flatMap (fun i => i.2.nodes) ++ s.injectors.flatMap fun j => j.2.nodes

theorem memory_close (s : Session) : s.close.live.memory = s.live.memory.without s.dropped := by
  rw [dropped, ← MemoryHead.without_without, ← Live.memory_foldl (fun p i => p.memory_drop i.2),
    ← Live.memory_foldl (fun p j => (j.2.clear_eq p).2)]
  rfl

theorem Sound.mem_dropped_iff (hs : s.Sound given) {node : NodeId} :
    node ∈ s.dropped ↔ ∃ o, o ≠ .host ∧ node ∈ (s.holdings given o).handles := by
  have hinjection {slot : Text} {i : Injection NodeId} (hget : s.injections.get? slot = some i) :
      (s.holdings given (.injection slot)).handles = i.nodes := by
    rw [holdings, hget]
    rfl
  have hinjector {slot : Text} {j : Injector NodeId} (hget : s.injectors.get? slot = some j) :
      (s.holdings given (.injector slot)).handles = j.nodes := by
    rw [holdings, injector, hget]
    rfl
  constructor
  · intro hin
    rcases List.mem_append.1 hin with hin | hin
    · obtain ⟨⟨slot, i⟩, hmem, hnode⟩ := List.mem_flatMap.1 hin
      refine ⟨.injection slot, by simp, ?_⟩
      rw [hinjection (Slots.get?_of_mem hs.injections hmem)]
      exact hnode
    · obtain ⟨⟨slot, j⟩, hmem, hnode⟩ := List.mem_flatMap.1 hin
      refine ⟨.injector slot, by simp, ?_⟩
      rw [hinjector (Slots.get?_of_mem hs.injectors hmem)]
      exact hnode
  · rintro ⟨o, hne, ho⟩
    cases o with
    | host => exact absurd rfl hne
    | injection slot =>
      cases hget : s.injections.get? slot with
      | none =>
        rw [holdings, hget] at ho
        cases ho
      | some i =>
        rw [hinjection hget] at ho
        exact List.mem_append_left _ (List.mem_flatMap.2 ⟨_, Slots.mem_of_get? hget, ho⟩)
    | injector slot =>
      cases hget : s.injectors.get? slot with
      | none =>
        rw [holdings, injector, hget] at ho
        cases ho
      | some j =>
        rw [hinjector hget] at ho
        exact List.mem_append_right _ (List.mem_flatMap.2 ⟨_, Slots.mem_of_get? hget, ho⟩)

/-- What is left in the end is what the host has. -/
theorem Sound.nodes_close (hs : s.Sound given) :
    s.close.live.memory.nodes = s.live.memory.owned given := by
  rw [memory_close]
  apply List.filter_congr
  intro n hn
  obtain ⟨o, ho⟩ := hs.shared.exists_owner n hn
  have hiff : n.1 ∈ s.dropped ↔ n.1 ∉ given := by
    rw [hs.mem_dropped_iff]
    constructor
    · rintro ⟨o', hne, ho'⟩ hhost
      exact hne (hs.shared.disjoint o' .host n.1 ho' hhost)
    · intro hhost
      refine ⟨o, ?_, ho⟩
      rintro rfl
      exact hhost ho
  by_cases hhost : n.1 ∈ given <;> simp [hiff, hhost]

/-- **Owners of one head do not affect each other.** In whatever order they take their turns,
commands are carried out unless the scan gives up on a content, and after them the owners are
independent. -/
theorem run_independent (v : Viewer) (commands : List Command)
    (hreadable : ∀ command ∈ commands, command.Readable v) :
    ∃ seen s, run v {} commands = .ok (seen, s) ∧ s.Independent v commands (handed seen) := by
  obtain ⟨seen, s, hrun, hsound, haccount⟩ := exists_run_after v hreadable
  refine ⟨seen, s, hrun, ?_⟩
  exact
    { ascending := hsound.shared.ascending
      number_lt := hsound.shared.number_lt
      never_reused := by
        intro later hlater
        obtain ⟨seen', s', hrun', hran⟩ := exists_run hsound hlater
        exact ⟨seen', s', hrun', hran.grows⟩
      each_owned := hsound.eachOwned
      as_alone := fun o => exists_run_alone o hreadable (haccount o)
      released := fun command o => exists_step_released (handed seen) s
      host_left := by
        intro hinjections hinjectors
        apply hsound.elements_eq
        intro o hne
        cases o with
        | host => exact absurd rfl hne
        | injection slot =>
          rw [holdings, hinjections]
          rfl
        | injector slot =>
          rw [holdings, injector, hinjectors]
          rfl
      closed := hsound.nodes_close }

/-- A host, an injection and an injector take turns. -/
theorem run_independent_links :
    let v : Viewer := ⟨"Sol".toList, [], .spanish⟩
    let commands : List Command := [.append "h".toList ⟨.link, [], []⟩,
      .inject "i".toList "m1".toList "<link a>".toList,
      .sync "j".toList "m1".toList "<link a>".toList, .remove "h".toList, .drop "i".toList]
    (∀ command ∈ commands, command.Readable v) ∧
      ∃ seen s, run v {} commands = .ok (seen, s) ∧ s.Independent v commands (handed seen) := by
  intro v commands
  have hlink : Head.elements "<link a>".toList = .ok [⟨.link, [⟨"a".toList, []⟩], []⟩] := by
    decide +kernel
  have hreadable : ∀ command ∈ commands, command.Readable v := by
    intro command hmem content hcontent
    have hsame : content = "<link a>".toList := by
      simp only [commands, List.mem_cons, List.not_mem_nil, or_false] at hmem
      rcases hmem with rfl | rfl | rfl | rfl | rfl <;> cases hcontent <;> rfl
    rw [hsame]
    exact ⟨_, hlink⟩
  exact ⟨hreadable, run_independent v commands hreadable⟩

end Session

end MenuPages
