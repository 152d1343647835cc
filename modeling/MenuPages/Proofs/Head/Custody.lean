import Mathlib.Data.List.Induction
import Mathlib.Logic.Function.Basic
import MenuPages.Head.Injection

/-!
# Custody of handles

Whoever puts elements into a head gets handles for them, and has to give each of them back: once,
and not to somebody else. Injections and injectors do so on any head, whatever handles it gives and
whatever else is done to it in the meantime.

`Guards` are the injections and injectors on one head, and an `Action` is what is done with one of
them. **The law** (`Guards.run_custody`) is about the calls that they make, not about what is then
in the head. It says that the calls and the reports of any run come from a history of deeds, each of
one guard, in which the elements of an injection are put in, or taken out. The history of a guard is
one of turns (`ByTurns`): it puts in, takes out just that, puts in again. So the handles that a guard
has removed, and those that it holds, are those that it was given, in the order in which it was given
them.

What carries a run is the law for one action (`Guards.exists_step`): it takes out what its guard
holds and then puts in what its guard holds from then on, or does nothing at all.
-/

namespace MenuPages

variable {σ ν : Type}

/-! ## Deeds -/

/-- What a guard does to a head in one go: it puts in the elements of an injection, or takes them
out. -/
inductive Deed (ν : Type) where
  | putIn (i : Injection ν)
  | takenOut (i : Injection ν)

namespace Deed

/-- The calls that a deed makes on the head, in order. -/
def calls : Deed ν → List (HeadCall ν)
  | putIn i => i.nodes.map .append
  | takenOut i => i.nodes.map .remove

/-- The message and the fields that a deed is reported with. -/
def report : Deed ν → Text × List (Text × FieldValue)
  | putIn i => ("Injected head elements".toList,
      [("menu_id".toList, .text i.menuId), ("count".toList, .number i.nodes.length)])
  | takenOut i => ("Removed injected head elements".toList, [("menu_id".toList, .text i.menuId)])

/-- The handles that a deed was given by the head. -/
def appended : Deed ν → List ν
  | putIn i => i.nodes
  | takenOut _ => []

/-- The handles that a deed gave back to the head. -/
def removed : Deed ν → List ν
  | putIn _ => []
  | takenOut i => i.nodes

/-- What takes out one injection, if there is one, and then puts in another, if there is one. -/
def exchange (held held' : Option (Injection ν)) : List (Deed ν) :=
  (held.map takenOut).toList ++ (held'.map putIn).toList

end Deed

/-- The deeds of a guard that puts in and takes out by turns, and what it holds in the end: it has
taken out each injection before it put in another, and the last one it holds. -/
def ByTurns (deeds : List (Deed ν)) (held : Option (Injection ν)) : Prop :=
  ∃ past : List (Injection ν),
    deeds = past.flatMap (fun i => [.putIn i, .takenOut i]) ++ (held.map .putIn).toList

namespace ByTurns

variable {deeds : List (Deed ν)} {held : Option (Injection ν)}

theorem exchange (h : ByTurns deeds held) (held' : Option (Injection ν)) :
    ByTurns (deeds ++ Deed.exchange held held') held' := by
  obtain ⟨past, rfl⟩ := h
  refine ⟨past ++ held.toList, ?_⟩
  rw [Deed.exchange, ← List.append_assoc]
  cases held with
  | none => simp
  | some i => simp

/-- A guard that puts in and takes out by turns has given back the handles in the order in which it
was given them, all but those that it holds. -/
theorem appended_eq (h : ByTurns deeds held) :
    deeds.flatMap Deed.appended = deeds.flatMap Deed.removed ++ held.elim [] Injection.nodes := by
  obtain ⟨past, rfl⟩ := h
  have hpast : (past.flatMap fun i => [Deed.putIn i, .takenOut i]).flatMap Deed.appended =
      (past.flatMap fun i => [Deed.putIn i, .takenOut i]).flatMap Deed.removed := by
    rw [List.flatMap_assoc, List.flatMap_assoc]
    rfl
  rw [List.flatMap_append, List.flatMap_append, hpast]
  cases held with
  | none => simp
  | some i => simp [Deed.appended, Deed.removed]

end ByTurns

/-! ## What is called and reported -/

/-- From one state of a head in use to another these deeds were done on it, and nothing else was
called or reported. -/
structure Live.Did (deeds : List (Deed ν)) (p p' : Live (Recorded σ ν)) : Prop where
  calls : p'.head.calls = p.head.calls ++ deeds.flatMap Deed.calls
  log : p'.log.map (fun e => (e.message, e.fields)) =
    p.log.map (fun e => (e.message, e.fields)) ++ deeds.map Deed.report

namespace Live

theorem Did.refl (p : Live (Recorded σ ν)) : Did [] p p := ⟨by simp, by simp⟩

theorem Did.trans {deeds deeds' : List (Deed ν)} {p p' p'' : Live (Recorded σ ν)}
    (h : Did deeds p p') (h' : Did deeds' p' p'') : Did (deeds ++ deeds') p p'' where
  calls := by rw [h'.calls, h.calls, List.flatMap_append, List.append_assoc]
  log := by rw [h'.log, h.log, List.map_append, List.append_assoc]

variable [DocumentHead σ ν] (p : Live (Recorded σ ν))

theorem calls_appendAll (es : List HeadElement) :
    (p.appendAll es).1.length = es.length ∧ (p.appendAll es).2.log = p.log ∧
      (p.appendAll es).2.head.calls = p.head.calls ++ (p.appendAll es).1.map .append := by
  induction es generalizing p with
  | nil => exact ⟨rfl, rfl, (List.append_nil _).symm⟩
  | cons e es ih =>
    obtain ⟨hlength, hlog, hcalls⟩ := ih (p.append e).2
    refine ⟨congrArg (· + 1) hlength, hlog, hcalls.trans ?_⟩
    show (p.head.calls ++ [.append (p.append e).1]) ++ _ = _
    rw [List.append_assoc]
    rfl

theorem calls_removeAll (nodes : List ν) :
    (p.removeAll nodes).log = p.log ∧
      (p.removeAll nodes).head.calls = p.head.calls ++ nodes.map .remove := by
  induction nodes generalizing p with
  | nil => exact ⟨rfl, (List.append_nil _).symm⟩
  | cons node nodes ih =>
    obtain ⟨hlog, hcalls⟩ := ih (p.remove node)
    refine ⟨hlog, hcalls.trans ?_⟩
    show (p.head.calls ++ [.remove node]) ++ _ = _
    rw [List.append_assoc]
    rfl

/-- An injection holds a handle for each element of its content. -/
theorem exists_did_inject (menuId : Text) {content : Text} {es : List HeadElement}
    (hes : Head.elements content = .ok es) :
    ∃ i p', p.inject menuId content = .ok (i, p') ∧ i.menuId = menuId ∧
      i.nodes.length = es.length ∧ Did [.putIn i] p p' := by
  let made := p.appendAll (es.map (HeadElement.marked menuId))
  obtain ⟨hlength, hlog, hcalls⟩ := p.calls_appendAll (es.map (HeadElement.marked menuId))
  rw [List.length_map] at hlength
  refine ⟨⟨menuId, made.1⟩, made.2.report (.injected menuId made.1.length), ?_, rfl, hlength, ?_⟩
  · rw [inject, hes]
    rfl
  · constructor
    · rw [List.flatMap_singleton]
      exact hcalls
    · show (made.2.log ++ [Event.injected menuId made.1.length]).map _ = _
      rw [hlog, List.map_append]
      rfl

theorem did_drop (i : Injection ν) : Did [.takenOut i] p (p.drop i) := by
  obtain ⟨hlog, hcalls⟩ := p.calls_removeAll i.nodes
  constructor
  · rw [List.flatMap_singleton]
    exact hcalls
  · show ((p.removeAll i.nodes).log ++ [Event.removed i.menuId]).map _ = _
    rw [hlog, List.map_append]
    rfl

end Live

/-! ## Injectors -/

namespace Injector

/-- The injection that an injector holds. -/
def held (j : Injector ν) : Option (Injection ν) := j.current.map (·.injection)

/-- The handles of the injection that an injector holds. -/
def handles (j : Injector ν) : List ν := j.held.elim [] Injection.nodes

variable [DocumentHead σ ν] {j : Injector ν} {p : Live (Recorded σ ν)} {menuId content : Text}

theorem did_clear (j : Injector ν) (p : Live (Recorded σ ν)) :
    (j.clear p).1 = !j.handles.isEmpty ∧ (j.clear p).2.1 = {} ∧
      Live.Did (Deed.exchange j.held none) p (j.clear p).2.2 := by
  obtain ⟨current⟩ := j
  cases current with
  | none => exact ⟨rfl, rfl, .refl p⟩
  | some c => exact ⟨rfl, rfl, p.did_drop c.injection⟩

/-- What comes of showing a content with these elements: whether it counts as a change, the injector,
and the head. -/
inductive Synced (j : Injector ν) (p : Live (Recorded σ ν)) (menuId content : Text)
    (es : List HeadElement) : Bool × Injector ν × Live (Recorded σ ν) → Prop
  /-- Nothing has to be done. -/
  | settled (hcurrent : j.isCurrent menuId (Slug.ofText content) = true) :
    Synced j p menuId content es (false, j, p)
  /-- What is held is taken out. -/
  | blank {p' : Live (Recorded σ ν)} (hcurrent : j.isCurrent menuId (Slug.ofText content) = false)
    (hblank : Text.allBlank content = true) (hdid : Live.Did (Deed.exchange j.held none) p p') :
    Synced j p menuId content es (!j.handles.isEmpty, {}, p')
  /-- What is held is taken out, and then the elements are put in. -/
  | shown {i : Injection ν} {p' : Live (Recorded σ ν)}
    (hcurrent : j.isCurrent menuId (Slug.ofText content) = false)
    (hblank : Text.allBlank content = false) (hmenu : i.menuId = menuId)
    (hcount : i.nodes.length = es.length)
    (hdid : Live.Did (Deed.exchange j.held (some i)) p p') :
    Synced j p menuId content es (true, ⟨some ⟨Slug.ofText content, i⟩⟩, p')

theorem exists_synced (j : Injector ν) (p : Live (Recorded σ ν)) (menuId : Text) {content : Text}
    {es : List HeadElement} (hes : Head.elements content = .ok es) :
    ∃ r, j.sync menuId content p = .ok r ∧ Synced j p menuId content es r := by
  cases hcurrent : j.isCurrent menuId (Slug.ofText content) with
  | true => exact ⟨_, by rw [sync, if_pos hcurrent], .settled hcurrent⟩
  | false =>
    obtain ⟨hflag, hcleared, hdid⟩ := j.did_clear p
    cases hblank : Text.allBlank content with
    | true =>
      refine ⟨_, ?_, .blank hcurrent hblank hdid⟩
      rw [sync, if_neg (by simp [hcurrent]), ← hflag, ← hcleared]
      simp only [hblank, if_true]
    | false =>
      obtain ⟨i, p', hinject, hmenu, hcount, hput⟩ := (j.clear p).2.2.exists_did_inject menuId hes
      have hboth := hdid.trans hput
      rw [Deed.exchange, Option.map_none, Option.toList_none, List.append_nil] at hboth
      refine ⟨_, ?_, .shown hcurrent hblank hmenu hcount hboth⟩
      rw [sync, if_neg (by simp [hcurrent])]
      simp only [hblank, Bool.false_eq_true, if_false, hinject, Except.map]

/-- An injector has nothing to do to show this content of this menu. -/
def Settled (σ : Type) [DocumentHead σ ν] (j : Injector ν) (menuId content : Text) : Prop :=
  ∀ p : Live (Recorded σ ν), j.sync menuId content p = .ok (false, j, p)

theorem settled_of_isCurrent (h : j.isCurrent menuId (Slug.ofText content) = true) :
    j.Settled σ menuId content := fun p => by
  rw [sync, if_pos h]

/-- An injector that shows a content does nothing, or takes out what it holds and puts in what it
holds from then on. Either way it has nothing to do to show this content again. -/
theorem exists_did_sync (j : Injector ν) (p : Live (Recorded σ ν)) (menuId : Text) {content : Text}
    (hreadable : ∃ es, Head.elements content = .ok es) :
    ∃ changed j' p', j.sync menuId content p = .ok (changed, j', p') ∧
      j'.Settled σ menuId content ∧ (∀ i ∈ j'.held, i.menuId = menuId) ∧
      (j' = j ∧ p' = p ∨ Live.Did (Deed.exchange j.held j'.held) p p') := by
  obtain ⟨es, hes⟩ := hreadable
  obtain ⟨⟨changed, j', p'⟩, hsync, h⟩ := j.exists_synced p menuId hes
  refine ⟨changed, j', p', hsync, ?_⟩
  cases h with
  | settled hcurrent =>
    refine ⟨settled_of_isCurrent hcurrent, ?_, Or.inl ⟨rfl, rfl⟩⟩
    intro i hi
    obtain ⟨c, hc, rfl⟩ := Option.map_eq_some_iff.1 hi
    rw [isCurrent, hc, Bool.and_eq_true] at hcurrent
    exact eq_of_beq hcurrent.1
  | blank hcurrent hblank hdid =>
    refine ⟨fun p' => ?_, nofun, Or.inr hdid⟩
    rw [sync, if_neg (by simp [isCurrent])]
    simp only [clear, hblank, if_true]
  | shown hcurrent hblank hmenu hcount hdid =>
    refine ⟨settled_of_isCurrent (by simp [isCurrent, hmenu]), ?_, Or.inr hdid⟩
    rintro _ ⟨⟩
    exact hmenu

end Injector

/-! ## Guards -/

/-- What holds injections: an injection itself, by the number that it was made as, or an injector. -/
inductive Guard where
  | injection (number : Nat)
  | injector (number : Nat)
  deriving DecidableEq

/-- The guards on one head. -/
structure Guards (σ ν : Type) where
  live : Live (Recorded σ ν)
  /-- The injections in the order in which they were made, and nothing for one that was dropped. -/
  injections : List (Option (Injection ν)) := []
  /-- The injectors. A new one has nothing. -/
  injectors : Nat → Injector ν := fun _ => {}

/-- What is done with a guard, or to the head. -/
inductive Action (σ : Type) where
  /-- An injection is made. -/
  | inject (menuId content : Text)
  /-- An injection is dropped. -/
  | drop (number : Nat)
  /-- An injector shows a content. -/
  | sync (number : Nat) (menuId content : Text)
  /-- An injector shows nothing. -/
  | clear (number : Nat)
  /-- An injector is dropped, and its number is free for a new one. -/
  | unmount (number : Nat)
  /-- Somebody else is at work on the head. -/
  | elsewhere (work : σ → σ)

namespace Guards

/-- A head on which no guard holds anything, and nothing was called or reported. -/
def start (head : σ) : Guards σ ν := { live := ⟨⟨head, []⟩, []⟩ }

/-- The injection that a guard holds. -/
def held (s : Guards σ ν) : Guard → Option (Injection ν)
  | .injection number => s.injections[number]?.join
  | .injector number => (s.injectors number).held

/-- The guards after an injector has worked. -/
def afterInjector (s : Guards σ ν) (number : Nat) (j : Injector ν) (live : Live (Recorded σ ν)) :
    Guards σ ν :=
  { s with live, injectors := Function.update s.injectors number j }

variable [DocumentHead σ ν]

/-- Carries out one action. -/
def step (s : Guards σ ν) : Action σ → Except ScanFault (Guards σ ν)
  | .inject menuId content =>
    (s.live.inject menuId content).map fun made =>
      { s with live := made.2, injections := s.injections ++ [some made.1] }
  | .drop number =>
    match s.injections[number]?.join with
    | none => .ok s
    | some i => .ok { s with live := s.live.drop i, injections := s.injections.set number none }
  | .sync number menuId content =>
    ((s.injectors number).sync menuId content s.live).map fun r =>
      s.afterInjector number r.2.1 r.2.2
  | .clear number =>
    let r := (s.injectors number).clear s.live
    .ok (s.afterInjector number r.2.1 r.2.2)
  | .unmount number =>
    .ok (s.afterInjector number {} ((s.injectors number).clear s.live).2.2)
  | .elsewhere work =>
    let head := { s.live.head with head := work s.live.head.head }
    .ok { s with live := { s.live with head } }

/-- Carries out actions on a head, one after the other. -/
def run (head : σ) (actions : List (Action σ)) : Except ScanFault (Guards σ ν) :=
  actions.foldlM step (start head)

end Guards

/-! ## What an action does -/

/-- The scan does not give up on the content of an action. -/
def Action.Readable : Action σ → Prop
  | .inject _ content => ∃ es, Head.elements content = .ok es
  | .sync _ _ content => ∃ es, Head.elements content = .ok es
  | _ => True

/-- The guard with which an action is done. An injection that is made gets the next number. -/
def Action.guard? (s : Guards σ ν) : Action σ → Option Guard
  | .inject .. => some (.injection s.injections.length)
  | .drop number => some (.injection number)
  | .sync number .. => some (.injector number)
  | .clear number => some (.injector number)
  | .unmount number => some (.injector number)
  | .elsewhere _ => none

/-- What the guard may hold after an action: a new injection has a handle for each element of its
content, and nothing is held by who was dropped or cleared. -/
def Action.Leaves : Action σ → Option (Injection ν) → Prop
  | .inject menuId content, held =>
    ∃ i es, held = some i ∧ i.menuId = menuId ∧ Head.elements content = .ok es ∧
      i.nodes.length = es.length
  | .sync _ menuId _, held => ∀ i ∈ held, i.menuId = menuId
  | .elsewhere _, _ => True
  | _, held => held = none

/-- The deeds of one guard in a history, in order. -/
def deedsOf (g : Guard) (history : List (Guard × Deed ν)) : List (Deed ν) :=
  (history.filter fun d => d.1 = g).map Prod.snd

/-- The menu and the content that an injector was given last, after an action more. -/
def shownAfter (number : Nat) (shown : Option (Text × Text)) : Action σ → Option (Text × Text)
  | .sync other menuId content => if other = number then some (menuId, content) else shown
  | .clear other => if other = number then none else shown
  | .unmount other => if other = number then none else shown
  | _ => shown

/-- The menu and the content that an injector was given last, unless it was cleared or dropped
since. -/
def shownLast (number : Nat) (actions : List (Action σ)) : Option (Text × Text) :=
  actions.foldl (shownAfter number) none

namespace Guards

/-- What an action does: its guard does nothing, or it takes out what it holds and then puts in what
it holds from then on. Nobody else does anything. -/
structure Turn (s : Guards σ ν) (a : Action σ) (done : List (Guard × Deed ν)) (s' : Guards σ ν) :
    Prop where
  own : ∀ g, a.guard? s = some g → a.Leaves (s'.held g) ∧
    (done = [] ∧ s'.held g = s.held g ∨
      done = (Deed.exchange (s.held g) (s'.held g)).map fun d => (g, d))
  others : ∀ g, a.guard? s ≠ some g → s'.held g = s.held g
  nobody : a.guard? s = none → done = []

/-- What is true of the history of a run: it accounts for all calls and reports, and for what all
guards hold. -/
structure Custody (history : List (Guard × Deed ν)) (s : Guards σ ν) : Prop where
  calls : s.live.head.calls = history.flatMap fun d => d.2.calls
  log : s.live.log.map (fun e => (e.message, e.fields)) = history.map fun d => d.2.report
  /-- An injection that was not made has done nothing. -/
  made : ∀ d ∈ history, ∀ number, d.1 = .injection number → number < s.injections.length
  by_turns : ∀ g, ByTurns (deedsOf g history) (s.held g)
  /-- A guard gives back handles in the order in which it was given them, all but those that it
  holds, and no others. -/
  in_order : ∀ g, (deedsOf g history).flatMap Deed.appended =
    (deedsOf g history).flatMap Deed.removed ++ (s.held g).elim [] Injection.nodes

variable {s s' : Guards σ ν} {history : List (Guard × Deed ν)} {g : Guard} {a : Action σ}

theorem deedsOf_append (g : Guard) (history more : List (Guard × Deed ν)) :
    deedsOf g (history ++ more) = deedsOf g history ++ deedsOf g more := by
  simp [deedsOf]

theorem deedsOf_own (g : Guard) (deeds : List (Deed ν)) :
    deedsOf g (deeds.map fun d => (g, d)) = deeds := by
  simp [deedsOf, List.filter_map, Function.comp_def]

theorem deedsOf_other {g o : Guard} (hne : o ≠ g) (deeds : List (Deed ν)) :
    deedsOf o (deeds.map fun d => (g, d)) = [] := by
  simp [deedsOf, List.filter_map, Function.comp_def, hne.symm]

theorem Custody.start (head : σ) : Custody (ν := ν) [] (.start head) := by
  have hturns (g : Guard) : ByTurns (deedsOf (ν := ν) g []) (held (Guards.start head) g) := by
    refine ⟨[], ?_⟩
    cases g <;> rfl
  refine ⟨rfl, rfl, ?_, hturns, fun g => (hturns g).appended_eq⟩
  intro d hd
  cases hd

/-- A history goes on with the deeds of one guard. -/
theorem Custody.extend (hc : Custody history s) {deeds : List (Deed ν)}
    (hdid : Live.Did deeds s.live s'.live)
    (hown : deeds = [] ∧ s'.held g = s.held g ∨ deeds = Deed.exchange (s.held g) (s'.held g))
    (hothers : ∀ o, o ≠ g → s'.held o = s.held o)
    (hmore : s.injections.length ≤ s'.injections.length)
    (hmade : ∀ number, g = .injection number → deeds ≠ [] → number < s'.injections.length) :
    Custody (history ++ deeds.map fun d => (g, d)) s' := by
  have hturns (o : Guard) :
      ByTurns (deedsOf o (history ++ deeds.map fun d => (g, d))) (s'.held o) := by
    rw [deedsOf_append]
    by_cases ho : o = g
    · subst ho
      rw [deedsOf_own]
      rcases hown with ⟨rfl, hsame⟩ | rfl
      · rw [List.append_nil, hsame]
        exact hc.by_turns o
      · exact (hc.by_turns o).exchange _
    · rw [deedsOf_other ho, List.append_nil, hothers o ho]
      exact hc.by_turns o
  refine ⟨?_, ?_, ?_, hturns, fun o => (hturns o).appended_eq⟩
  · rw [hdid.calls, hc.calls, List.flatMap_append, List.flatMap_map]
  · rw [hdid.log, hc.log, List.map_append, List.map_map]
    rfl
  · intro d hmem number hnumber
    rcases List.mem_append.1 hmem with hold | hnew
    · exact Nat.lt_of_lt_of_le (hc.made d hold number hnumber) hmore
    · obtain ⟨deed, hdeed, rfl⟩ := List.mem_map.1 hnew
      exact hmade number hnumber (List.ne_nil_of_mem hdeed)

/-- An action was carried out: what it did, and that the history goes on with it. -/
def Goes (history : List (Guard × Deed ν)) (s : Guards σ ν) (a : Action σ) (s' : Guards σ ν) :
    Prop :=
  ∃ done, s.Turn a done s' ∧ Custody (history ++ done) s'

/-- The deeds of the guard with which an action is done. -/
theorem Goes.of_own (hc : Custody history s) {deeds : List (Deed ν)}
    (hguard : a.guard? s = some g) (hleaves : a.Leaves (s'.held g))
    (hdid : Live.Did deeds s.live s'.live)
    (hown : deeds = [] ∧ s'.held g = s.held g ∨ deeds = Deed.exchange (s.held g) (s'.held g))
    (hothers : ∀ o, o ≠ g → s'.held o = s.held o)
    (hmore : s.injections.length ≤ s'.injections.length)
    (hmade : ∀ number, g = .injection number → deeds ≠ [] → number < s'.injections.length) :
    Goes history s a s' := by
  refine ⟨deeds.map fun d => (g, d), ⟨?_, ?_, ?_⟩, hc.extend hdid hown hothers hmore hmade⟩
  · intro o ho
    cases hguard.symm.trans ho
    refine ⟨hleaves, ?_⟩
    rcases hown with ⟨rfl, hsame⟩ | rfl
    · exact Or.inl ⟨rfl, hsame⟩
    · exact Or.inr rfl
  · intro o ho
    refine hothers o ?_
    rintro rfl
    exact ho hguard
  · intro hnone
    cases hguard.symm.trans hnone

/-- An injector has worked. -/
theorem Goes.of_injector (hc : Custody history s) {number : Nat} {j : Injector ν}
    {live : Live (Recorded σ ν)} {deeds : List (Deed ν)}
    (hguard : a.guard? s = some (.injector number)) (hleaves : a.Leaves j.held)
    (hdid : Live.Did deeds s.live live)
    (hown : deeds = [] ∧ j = s.injectors number ∨
      deeds = Deed.exchange (s.injectors number).held j.held) :
    Goes history s a (s.afterInjector number j live) := by
  have hheld : (s.afterInjector number j live).held (.injector number) = j.held := by
    simp only [held, afterInjector, Function.update_self]
  refine .of_own hc hguard (hheld ▸ hleaves) hdid ?_ ?_ (Nat.le_refl _) nofun
  · rw [hheld]
    refine hown.imp_left ?_
    rintro ⟨hnil, rfl⟩
    exact ⟨hnil, rfl⟩
  · intro o hne
    cases o with
    | injection other => rfl
    | injector other =>
      have hother : other ≠ number := by
        rintro rfl
        exact hne rfl
      simp only [held, afterInjector, Function.update_of_ne hother]

variable [DocumentHead σ ν]

theorem exists_inject (hc : Custody history s) (menuId : Text) {content : Text}
    (hreadable : ∃ es, Head.elements content = .ok es) :
    ∃ s', s.step (.inject menuId content) = .ok s' ∧
      Goes history s (.inject menuId content) s' := by
  obtain ⟨es, hes⟩ := hreadable
  obtain ⟨i, live, hinject, hmenu, hcount, hdid⟩ := s.live.exists_did_inject menuId hes
  let s' : Guards σ ν := { s with live, injections := s.injections ++ [some i] }
  have hbefore : s.held (.injection s.injections.length) = none := by simp [held]
  have hafter : s'.held (.injection s.injections.length) = some i := by simp [held, s']
  refine ⟨s', by rw [step, hinject]; rfl, .of_own hc rfl ?_ hdid (Or.inr ?_) ?_ ?_ ?_⟩
  · exact ⟨i, es, hafter, hmenu, hes, hcount⟩
  · rw [hbefore, hafter]
    rfl
  · intro o hne
    cases o with
    | injector other => rfl
    | injection other =>
      have hother : other ≠ s.injections.length := by
        rintro rfl
        exact hne rfl
      rcases Nat.lt_or_gt_of_ne hother with hlt | hgt
      · simp only [held, s', List.getElem?_append_left hlt]
      · have hbeyond : (s.injections ++ [some i]).length ≤ other := by
          rw [List.length_append]
          exact hgt
        simp only [held, s', List.getElem?_eq_none hbeyond,
          List.getElem?_eq_none (Nat.le_of_lt hgt)]
  · simp [s']
  · rintro number ⟨⟩ -
    simp [s']

theorem exists_drop (hc : Custody history s) (number : Nat) :
    ∃ s', s.step (.drop number) = .ok s' ∧ Goes history s (.drop number) s' := by
  cases hget : s.injections[number]?.join with
  | none =>
    exact ⟨s, by rw [step, hget],
      .of_own hc rfl hget (.refl s.live) (Or.inl ⟨rfl, rfl⟩) (fun _ _ => rfl) (Nat.le_refl _)
        (fun _ _ hne => absurd rfl hne)⟩
  | some i =>
    let s' : Guards σ ν :=
      { s with live := s.live.drop i, injections := s.injections.set number none }
    have hlt : number < s.injections.length := by
      by_contra hge
      rw [List.getElem?_eq_none (Nat.not_lt.1 hge)] at hget
      cases hget
    have hafter : s'.held (.injection number) = none := by simp [held, s', hlt]
    have hlength : s'.injections.length = s.injections.length := List.length_set
    refine ⟨s', by rw [step, hget], .of_own hc rfl hafter (s.live.did_drop i) (Or.inr ?_) ?_
      (Nat.le_of_eq hlength.symm) ?_⟩
    · rw [hafter, held, hget]
      rfl
    · intro o hne
      cases o with
      | injector other => rfl
      | injection other =>
        have hother : number ≠ other := by
          rintro rfl
          exact hne rfl
        simp only [held, s', List.getElem?_set_ne hother]
    · rintro _ ⟨⟩ -
      exact hlength ▸ hlt

/-- **An action is carried out**, if the scan does not give up on its content. -/
theorem exists_step (hc : Custody history s) (hr : a.Readable) :
    ∃ s', s.step a = .ok s' ∧ Goes history s a s' := by
  cases a with
  | inject menuId content => exact exists_inject hc menuId hr
  | drop number => exact exists_drop hc number
  | sync number menuId content =>
    obtain ⟨changed, j, live, hsync, -, hmenu, hdid⟩ :=
      (s.injectors number).exists_did_sync s.live menuId hr
    refine ⟨_, by rw [step, hsync]; rfl, ?_⟩
    rcases hdid with ⟨rfl, rfl⟩ | hdid
    · exact .of_injector hc rfl hmenu (.refl _) (Or.inl ⟨rfl, rfl⟩)
    · exact .of_injector hc rfl hmenu hdid (Or.inr rfl)
  | clear number =>
    obtain ⟨-, hcleared, hdid⟩ := (s.injectors number).did_clear s.live
    refine ⟨_, rfl, ?_⟩
    rw [hcleared]
    exact .of_injector hc rfl rfl hdid (Or.inr rfl)
  | unmount number =>
    obtain ⟨-, -, hdid⟩ := (s.injectors number).did_clear s.live
    exact ⟨_, rfl, .of_injector hc rfl rfl hdid (Or.inr rfl)⟩
  | elsewhere work =>
    refine ⟨_, rfl, [], ⟨nofun, fun o _ => by cases o <;> rfl, fun _ => rfl⟩, ?_⟩
    rw [List.append_nil]
    refine ⟨hc.calls, hc.log, hc.made, fun o => ?_, fun o => ?_⟩
    · cases o
      · exact hc.by_turns _
      · exact hc.by_turns _
    · cases o
      · exact hc.in_order _
      · exact hc.in_order _

/-- An injector that was given a content last has nothing to do for it, and an action with another
guard leaves it so. -/
theorem settled_step (hr : a.Readable) (hstep : s.step a = .ok s') (number : Nat)
    {shown : Option (Text × Text)}
    (h : ∀ menuId content, shown = some (menuId, content) →
      (s.injectors number).Settled σ menuId content) :
    ∀ menuId content, shownAfter number shown a = some (menuId, content) →
      (s'.injectors number).Settled σ menuId content := by
  have hother {other : Nat} (hne : other ≠ number) (j : Injector ν)
      (live : Live (Recorded σ ν)) :
      (s.afterInjector other j live).injectors number = s.injectors number := by
    simp only [afterInjector, Function.update_of_ne hne.symm]
  cases a with
  | inject menuId content =>
    rw [step] at hstep
    cases hinject : s.live.inject menuId content with
    | error fault =>
      rw [hinject] at hstep
      cases hstep
    | ok made =>
      rw [hinject] at hstep
      cases hstep
      exact h
  | drop dropped =>
    rw [step] at hstep
    split at hstep
    · cases hstep
      exact h
    · cases hstep
      exact h
  | elsewhere work =>
    cases hstep
    exact h
  | sync other menuId content =>
    obtain ⟨changed, j, live, hsync, hsettled, -⟩ :=
      (s.injectors other).exists_did_sync s.live menuId hr
    rw [step, hsync] at hstep
    cases hstep
    by_cases heq : other = number
    · subst heq
      rw [shownAfter, if_pos rfl]
      rintro _ _ ⟨⟩
      simp only [afterInjector, Function.update_self]
      exact hsettled
    · rw [shownAfter, if_neg heq, hother heq]
      exact h
  | clear other =>
    cases hstep
    rw [shownAfter]
    split
    next => nofun
    next hne =>
      rw [hother hne]
      exact h
  | unmount other =>
    cases hstep
    rw [shownAfter]
    split
    next => nofun
    next hne =>
      rw [hother hne]
      exact h

theorem run_append_single {head : σ} {actions : List (Action σ)} (hrun : run head actions = .ok s)
    (a : Action σ) : run head (actions ++ [a]) = s.step a := by
  rw [run, List.foldlM_append]
  show (run head actions).bind _ = _
  rw [hrun]
  show (s.step a).bind _ = _
  cases s.step a <;> rfl

/-- Actions are carried out, if the scan does not give up on a content. -/
theorem exists_run (head : σ) {actions : List (Action σ)} (hreadable : ∀ a ∈ actions, a.Readable) :
    ∃ history s, run head actions = .ok s ∧ Custody (ν := ν) history s ∧
      ∀ number menuId content, shownLast number actions = some (menuId, content) →
        (s.injectors number).Settled σ menuId content := by
  induction actions using List.reverseRecOn with
  | nil => exact ⟨[], .start head, rfl, .start head, nofun⟩
  | append_singleton actions a ih =>
    obtain ⟨history, s, hrun, hc, hsettled⟩ :=
      ih fun b hb => hreadable b (List.mem_append_left _ hb)
    have hr := hreadable a (List.mem_append_right _ List.mem_cons_self)
    obtain ⟨s', hstep, done, -, hc'⟩ := exists_step hc hr
    refine ⟨history ++ done, s', (run_append_single hrun a).trans hstep, hc', fun number => ?_⟩
    rw [shownLast, List.foldl_append]
    exact settled_step hr hstep number (hsettled number)

/-- **Handles are given back once.** On any head, and whatever else is done to it, actions are
carried out unless the scan gives up on a content. What was called and reported is then accounted for
by a history, in which each guard has put in and taken out by turns, and has given back its handles
in order, all but those that it holds. To show a content again that an injector was given last is to
do nothing. Any further action goes on with this history: its guard takes out what it holds, and then
puts in what it holds from then on. -/
theorem run_custody (head : σ) (actions : List (Action σ))
    (hreadable : ∀ a ∈ actions, a.Readable) :
    ∃ (history : List (Guard × Deed ν)) (s : Guards σ ν),
      run head actions = .ok s ∧ Custody history s ∧
      (∀ number menuId content, shownLast number actions = some (menuId, content) →
        s.step (.sync number menuId content) = .ok s) ∧
      ∀ a : Action σ, a.Readable → ∃ done s',
        s.step a = .ok s' ∧ s.Turn a done s' ∧ Custody (history ++ done) s' := by
  obtain ⟨history, s, hrun, hc, hsettled⟩ := exists_run (ν := ν) head hreadable
  refine ⟨history, s, hrun, hc, ?_, ?_⟩
  · intro number menuId content hshown
    rw [step, hsettled number menuId content hshown]
    simp only [Except.map, afterInjector, Function.update_eq_self]
  · intro a hr
    obtain ⟨s', hstep, done, hturn, hc'⟩ := exists_step hc hr
    exact ⟨done, s', hstep, hturn, hc'⟩

/-- An injection and an injector on a head in memory, which somebody else empties in the meantime. -/
theorem run_custody_emptied :
    let actions : List (Action MemoryHead) := [.inject "m1".toList "<link a>".toList,
      .sync 0 "m1".toList "<link a>".toList, .elsewhere fun _ => {}, .drop 0,
      .sync 0 "m2".toList "<link a>".toList]
    (∀ a ∈ actions, a.Readable) ∧ ∃ (history : List (Guard × Deed NodeId)) (s : Guards _ _),
      run {} actions = .ok s ∧ Custody history s ∧
        s.step (.sync 0 "m2".toList "<link a>".toList) = .ok s := by
  intro actions
  have hlink : ∃ es, Head.elements "<link a>".toList = .ok es := by
    refine ⟨[⟨.link, [⟨"a".toList, []⟩], []⟩], ?_⟩
    decide +kernel
  have hreadable : ∀ a ∈ actions, a.Readable := by
    intro a hmem
    simp only [actions, List.mem_cons, List.not_mem_nil, or_false] at hmem
    rcases hmem with rfl | rfl | rfl | rfl | rfl
    · exact hlink
    · exact hlink
    · trivial
    · trivial
    · exact hlink
  obtain ⟨history, s, hrun, hc, hsettled, -⟩ := run_custody {} actions hreadable
  exact ⟨hreadable, history, s, hrun, hc, hsettled 0 _ _ rfl⟩

end Guards

end MenuPages
