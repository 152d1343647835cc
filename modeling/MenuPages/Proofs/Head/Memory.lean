import Mathlib.Data.List.Nodup
import MenuPages.Head.Injection

/-!
# What is done to a head in memory

Whatever is done to a head in memory, handles are taken out of it (`MemoryHead.without`) and
elements are put in at its end (`MemoryHead.adding`), which get the numbers that come next
(`MemoryHead.upcoming`). There is one law here for each operation of a head, an injection and an
injector: which handles, and which elements.
-/

namespace MenuPages

namespace MemoryHead

/-- The handles that come next. -/
def upcoming (h : MemoryHead) (count : Nat) : List NodeId :=
  (List.range' h.next count).map NodeId.mk

/-- The head with elements put in at the end, in order. -/
def adding (h : MemoryHead) (es : List HeadElement) : MemoryHead :=
  ⟨h.nodes ++ (h.upcoming es.length).zip es, h.next + es.length⟩

/-- The head with the elements of handles taken out. -/
def without (h : MemoryHead) (gone : List NodeId) : MemoryHead :=
  { h with nodes := h.nodes.filter fun n => !gone.contains n.1 }

variable (h : MemoryHead)

@[simp] theorem next_adding (es : List HeadElement) : (h.adding es).next = h.next + es.length := rfl

@[simp] theorem length_upcoming (count : Nat) : (h.upcoming count).length = count := by
  simp [upcoming]

theorem mem_upcoming {count : Nat} {node : NodeId} :
    node ∈ h.upcoming count ↔ h.next ≤ node.number ∧ node.number < h.next + count := by
  obtain ⟨number⟩ := node
  simp [upcoming, List.mem_range'_1]

theorem nodup_upcoming (count : Nat) : (h.upcoming count).Nodup :=
  List.Nodup.map (fun _ _ => NodeId.mk.inj) List.nodup_range'

@[simp] theorem adding_nil : h.adding [] = h := by simp [adding]

theorem adding_adding (es fs : List HeadElement) :
    (h.adding es).adding fs = h.adding (es ++ fs) := by
  have hup : h.upcoming (es ++ fs).length =
      h.upcoming es.length ++ (h.adding es).upcoming fs.length := by
    simp only [upcoming, next_adding, List.length_append, ← List.map_append,
      List.range'_append_1]
  have hlen : (h.upcoming es.length).length = es.length := h.length_upcoming es.length
  rw [adding, adding, adding, hup, List.zip_append hlen, List.append_assoc, List.length_append,
    Nat.add_assoc]
  rfl

@[simp] theorem without_nil : h.without [] = h := by simp [without]

theorem without_without (gone more : List NodeId) :
    (h.without gone).without more = h.without (gone ++ more) := by
  simp only [without, List.filter_filter]
  congr 2
  funext n
  simp [Bool.and_comm]

/-- What is put in later is not taken out with what was there before. -/
theorem without_adding {gone : List NodeId} (hgone : ∀ node ∈ gone, node.number < h.next)
    (es : List HeadElement) : (h.adding es).without gone = (h.without gone).adding es := by
  have hkeep : ((h.upcoming es.length).zip es).filter (fun n => !gone.contains n.1) =
      (h.upcoming es.length).zip es := by
    apply List.filter_eq_self.2
    intro n hn
    obtain ⟨hid, -⟩ := List.of_mem_zip hn
    have hnot : n.1 ∉ gone := fun hin => Nat.not_lt.2 (h.mem_upcoming.1 hid).1 (hgone n.1 hin)
    simpa using hnot
  simp only [without, adding, List.filter_append, hkeep]
  rfl

theorem remove_eq_without (node : NodeId) : h.remove node = h.without [node] := by
  simp only [remove, without, List.contains_cons, List.contains_nil, Bool.or_false]
  rfl

end MemoryHead

/-! ## Marks -/

theorem HeadElement.setIn_eq_append {name : Text} {as : List Attribute}
    (h : ∀ a ∈ as, a.name ≠ name) (value : Text) : setIn name value as = as ++ [⟨name, value⟩] := by
  induction as with
  | nil => rfl
  | cons a as ih =>
    rw [setIn, if_neg (h a List.mem_cons_self), ih fun b hb => h b (List.mem_cons_of_mem a hb)]
    rfl

/-- A marked element carries the mark once, as its last attribute. -/
theorem HeadElement.marked_eq (menuId : Text) (e : HeadElement) :
    e.marked menuId = { e with
      attributes := e.attributes.filter (fun a => a.name != menuMarker) ++
        [⟨menuMarker, menuId⟩] } := by
  rw [marked, setAttribute, dropAttribute, setIn_eq_append]
  intro a ha
  simpa using (List.mem_filter.1 ha).2

/-! ## The calls of a page in use -/

namespace Live

/-- The head in memory under a record of the calls. -/
def memory (p : Live (Recorded MemoryHead NodeId)) : MemoryHead := p.head.head

variable (p : Live (Recorded MemoryHead NodeId))

theorem memory_append (e : HeadElement) :
    (p.append e).1 = ⟨p.memory.next⟩ ∧ (p.append e).2.memory = p.memory.adding [e] :=
  ⟨rfl, rfl⟩

theorem memory_remove (node : NodeId) : (p.remove node).memory = p.memory.without [node] :=
  p.memory.remove_eq_without node

theorem memory_appendAll (es : List HeadElement) :
    (p.appendAll es).1 = p.memory.upcoming es.length ∧
      (p.appendAll es).2.memory = p.memory.adding es := by
  induction es generalizing p with
  | nil => exact ⟨rfl, (p.memory.adding_nil).symm⟩
  | cons e es ih =>
    obtain ⟨hnodes, hmem⟩ := ih (p.append e).2
    rw [(p.memory_append e).2] at hnodes hmem
    constructor
    · show (p.append e).1 :: ((p.append e).2.appendAll es).1 = _
      rw [hnodes]
      rfl
    · show ((p.append e).2.appendAll es).2.memory = _
      rw [hmem, MemoryHead.adding_adding]
      rfl

theorem memory_removeAll (nodes : List NodeId) :
    (p.removeAll nodes).memory = p.memory.without nodes := by
  induction nodes generalizing p with
  | nil => exact (p.memory.without_nil).symm
  | cons node nodes ih =>
    show ((p.remove node).removeAll nodes).memory = _
    rw [ih, memory_remove, MemoryHead.without_without]
    rfl

theorem memory_drop (i : Injection NodeId) : (p.drop i).memory = p.memory.without i.nodes :=
  p.memory_removeAll i.nodes

/-- An injection holds the handles of the elements of its content, in order. -/
theorem inject_eq (menuId : Text) {content : Text} {es : List HeadElement}
    (hes : Head.elements content = .ok es) :
    ∃ p', p.inject menuId content = .ok (⟨menuId, p.memory.upcoming es.length⟩, p') ∧
      p'.memory = p.memory.adding (es.map (HeadElement.marked menuId)) := by
  let made := p.appendAll (es.map (HeadElement.marked menuId))
  obtain ⟨hnodes, hmem⟩ := p.memory_appendAll (es.map (HeadElement.marked menuId))
  rw [List.length_map] at hnodes
  refine ⟨made.2.report (.injected menuId made.1.length), ?_, hmem⟩
  rw [inject, hes, ← hnodes]
  rfl

end Live

/-! ## What an injector does -/

namespace Injector

/-- The handles of what an injector has put in. -/
def nodes (j : Injector NodeId) : List NodeId := j.current.elim [] (·.injection.nodes)

variable (j : Injector NodeId) (p : Live (Recorded MemoryHead NodeId))

theorem clear_eq :
    (j.clear p).2.1 = {} ∧ (j.clear p).2.2.memory = p.memory.without j.nodes := by
  obtain ⟨current⟩ := j
  cases current with
  | none => exact ⟨rfl, (p.memory.without_nil).symm⟩
  | some c => exact ⟨rfl, p.memory_drop c.injection⟩

variable {j} {menuId content : Text}

theorem sync_of_isCurrent (h : j.isCurrent menuId (Slug.ofText content) = true) :
    j.sync menuId content p = .ok (false, j, p) := by
  rw [sync, if_pos h]

theorem sync_of_allBlank (h : j.isCurrent menuId (Slug.ofText content) = false)
    (hblank : Text.allBlank content = true) :
    ∃ changed p', j.sync menuId content p = .ok (changed, {}, p') ∧
      p'.memory = p.memory.without j.nodes := by
  obtain ⟨hcleared, hmem⟩ := j.clear_eq p
  refine ⟨(j.clear p).1, (j.clear p).2.2, ?_, hmem⟩
  rw [sync, if_neg (by simp [h]), ← hcleared]
  simp only [hblank, if_true]

theorem sync_of_content (h : j.isCurrent menuId (Slug.ofText content) = false)
    (hblank : Text.allBlank content = false) {es : List HeadElement}
    (hes : Head.elements content = .ok es) :
    ∃ p', j.sync menuId content p =
        .ok (true, ⟨some ⟨Slug.ofText content, menuId, p.memory.upcoming es.length⟩⟩, p') ∧
      p'.memory = (p.memory.without j.nodes).adding (es.map (HeadElement.marked menuId)) := by
  obtain ⟨-, hmem⟩ := j.clear_eq p
  obtain ⟨p', hinject, hmem'⟩ := (j.clear p).2.2.inject_eq menuId hes
  rw [hmem] at hinject hmem'
  refine ⟨p', ?_, hmem'⟩
  rw [sync, if_neg (by simp [h])]
  simp only [hblank, Bool.false_eq_true, if_false, hinject, Except.map]
  rfl

end Injector

end MenuPages
