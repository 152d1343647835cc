import MenuPages.Proofs.Head.Custody
import MenuPages.Proofs.Head.Scanning

/-!
# Whether a head was changed

An injector tells of each call whether it changed the head. It does not look at the head for that:
it tells from what it holds, and from whether there is anything in the content but white space.

**The law** (`Injector.changed_iff`), for any head, and whatever the injector holds: when nothing is
to be shown, it tells a change if and only if an element was taken out. When a content is to be
shown, it tells a change if an element was taken out or put in, and in one case more. A content that
is not blank and has no elements, shown where nothing was held, is told as a change, although no
call was made on the head (`Injector.sync_changed_text`).
-/

namespace MenuPages

variable {σ ν : Type}

/-- Between two states of a head in use these calls were made on it. -/
def Live.Called (calls : List (HeadCall ν)) (p p' : Live (Recorded σ ν)) : Prop :=
  p'.head.calls = p.head.calls ++ calls

/-- Some element was put in. -/
def HeadCall.SomeAppended (calls : List (HeadCall ν)) : Prop := ∃ node, append node ∈ calls

/-- Some element was taken out. -/
def HeadCall.SomeRemoved (calls : List (HeadCall ν)) : Prop := ∃ node, remove node ∈ calls

open HeadCall (SomeAppended SomeRemoved)

/-- What is taken out and what is put in, in terms of the handles. -/
theorem Deed.calls_exchange (held held' : Option (Injection ν)) :
    (exchange held held').flatMap calls =
      (held.elim [] Injection.nodes).map .remove ++ (held'.elim [] Injection.nodes).map .append := by
  cases held <;> cases held' <;> simp [exchange, calls]

theorem HeadCall.someRemoved_iff {gone new : List ν} :
    SomeRemoved (gone.map .remove ++ new.map .append) ↔ gone ≠ [] := by
  cases gone <;> simp [SomeRemoved]

theorem HeadCall.someAppended_iff {gone new : List ν} :
    SomeAppended (gone.map .remove ++ new.map .append) ↔ new ≠ [] := by
  cases new <;> simp [SomeAppended]

namespace Injector

variable [DocumentHead σ ν]

/-- **An injector tells whether it changed the head**, except that it tells a change as well when it
shows a content without elements that is not blank, and has nothing to take out. -/
theorem changed_iff (j : Injector ν) (p : Live (Recorded σ ν)) :
    (∃ calls, Live.Called calls p (j.clear p).2.2 ∧
      ((j.clear p).1 = true ↔ SomeRemoved calls)) ∧
    ∀ (menuId content : Text) (es : List HeadElement), Head.elements content = .ok es →
      ∃ changed j' p' calls, j.sync menuId content p = .ok (changed, j', p') ∧
        Live.Called calls p p' ∧
        (changed = true ↔ SomeAppended calls ∨ SomeRemoved calls ∨
          j.isCurrent menuId (Slug.ofText content) = false ∧ Text.allBlank content = false ∧
            es = [] ∧ j.handles = []) := by
  constructor
  · obtain ⟨hflag, -, hdid⟩ := j.did_clear p
    refine ⟨_, hdid.calls, ?_⟩
    rw [hflag, Deed.calls_exchange]
    refine Iff.trans ?_ HeadCall.someRemoved_iff.symm
    simp [handles]
  · intro menuId content es hes
    obtain ⟨⟨changed, j', p'⟩, hsync, h⟩ := j.exists_synced p menuId hes
    cases h with
    | settled hcurrent =>
      refine ⟨_, _, _, [], hsync, (List.append_nil _).symm, ?_⟩
      simp [SomeAppended, SomeRemoved, hcurrent]
    | blank hcurrent hblank hdid =>
      refine ⟨_, _, _, _, hsync, hdid.calls, ?_⟩
      rw [Deed.calls_exchange, HeadCall.someAppended_iff, HeadCall.someRemoved_iff]
      simp [hblank, handles]
    | @shown i p' hcurrent hblank hmenu hcount hdid =>
      refine ⟨_, _, _, _, hsync, hdid.calls, ?_⟩
      rw [Deed.calls_exchange, HeadCall.someAppended_iff, HeadCall.someRemoved_iff]
      -- what is put in has as many elements as the content
      have hnone : i.nodes = [] ↔ es = [] := by
        rw [← List.length_eq_zero_iff, hcount, List.length_eq_zero_iff]
      simp only [Option.elim, ne_eq, hnone, hcurrent, hblank, true_and, true_iff]
      by_cases hes : es = []
      · by_cases hheld : j.handles = []
        · exact Or.inr (Or.inr ⟨hes, hheld⟩)
        · exact Or.inr (Or.inl hheld)
      · exact Or.inl hes

/-- An injector that holds a link goes over to another menu and a content without elements, and is
then cleared. -/
theorem changed_iff_link :
    let j : Injector NodeId := ⟨some ⟨Slug.ofText [], "m1".toList, [⟨0⟩]⟩⟩
    let p : Live (Recorded MemoryHead NodeId) := ⟨⟨⟨[(⟨0⟩, ⟨.link, [], []⟩)], 1⟩, []⟩, []⟩
    (∃ calls, Live.Called calls p (j.clear p).2.2 ∧
      ((j.clear p).1 = true ↔ SomeRemoved calls)) ∧
    Head.elements "x".toList = .ok [] ∧
      ∃ changed j' p' calls, j.sync "m2".toList "x".toList p = .ok (changed, j', p') ∧
        Live.Called calls p p' ∧ (changed = true ↔ SomeAppended calls ∨ SomeRemoved calls) := by
  intro j p
  have hnone : Head.elements "x".toList = .ok [] := Head.elements_of_lt_notMem (by decide)
  obtain ⟨hclear, hsync⟩ := changed_iff j p
  obtain ⟨changed, j', p', calls, hdone, hcalls, hchanged⟩ := hsync "m2".toList "x".toList [] hnone
  refine ⟨hclear, hnone, changed, j', p', calls, hdone, hcalls, hchanged.trans ?_⟩
  simp [handles, held, j]

/-- A text is shown on an empty head: nothing is called, and a change is told. -/
theorem sync_changed_text :
    let p : Live (Recorded MemoryHead NodeId) := ⟨⟨{}, []⟩, []⟩
    Head.elements "x".toList = .ok [] ∧
      ∃ j' p', ({} : Injector NodeId).sync "m1".toList "x".toList p = .ok (true, j', p') ∧
        Live.Called [] p p' ∧ p'.head.head.elements = [] := by
  intro p
  have hnone : Head.elements "x".toList = .ok [] := Head.elements_of_lt_notMem (by decide)
  refine ⟨hnone, ⟨some ⟨Slug.ofText "x".toList, "m1".toList, []⟩⟩,
    p.report (.injected "m1".toList 0), ?_, rfl, rfl⟩
  rw [sync, if_neg (by simp [isCurrent]), clear]
  simp only [Live.inject, hnone]
  rfl

end Injector

end MenuPages
