import MenuPages.Head.Session
import MenuPages.Proofs.Head.Memory

/-!
# Owners of one head

A head does not know whose its elements are. Its owners do: each holds the handles that it was
given. `Holding` is what an owner knows, and `MemoryHead.Shared` what is true of a head and the
holdings of all its owners, whatever they do.

**Turns.** Whatever one owner does in one go is a `MemoryHead.Turn`: it takes out handles of its
own, and puts in elements. A turn keeps a head shared (`MemoryHead.Shared.of_turn`), leaves all
others what they have (`MemoryHead.Turn.account_of_ne`), and does to what its owner has what it
would do on any other head: in an `Account` handles are told apart by when their owner was given
them, not by their numbers.
-/

namespace MenuPages

/-- Who puts elements into a head. Injections and injectors go by the name they are kept under. -/
inductive Owner where
  | host
  | injection (slot : Text)
  | injector (slot : Text)
  deriving DecidableEq

/-- What an owner knows of a head. -/
structure Holding where
  /-- The handles of what it has put in, oldest first. -/
  handles : List NodeId := []
  /-- The handles that it keeps under names. -/
  slots : Slots NodeId := []
  /-- The slug of the content that it shows, and the menu. -/
  shown : Option (Text × Text) := none

/-- What an owner has in a head, with handles as their places among those of the owner. -/
@[ext] structure Account where
  nodes : List (Nat × HeadElement) := []
  /-- How many handles the owner holds. -/
  count : Nat := 0
  slots : Slots Nat := []
  shown : Option (Text × Text) := none

/-- The account of an owner that has just put in elements, and has nothing else. -/
def Account.anew (es : List HeadElement) (shown : Option (Text × Text)) : Account where
  nodes := (List.range' 0 es.length).zip es
  count := es.length
  shown := shown

theorem Account.map_snd_nodes_anew (es : List HeadElement) (shown : Option (Text × Text)) :
    (anew es shown).nodes.map Prod.snd = es :=
  List.map_snd_zip (by simp)

namespace MemoryHead

/-- The part of a head that has these handles. -/
def owned (h : MemoryHead) (handles : List NodeId) : List (NodeId × HeadElement) :=
  h.nodes.filter fun n => handles.contains n.1

theorem held_of_mem_owned {h : MemoryHead} {handles : List NodeId} {n : NodeId × HeadElement}
    (hn : n ∈ h.owned handles) : n.1 ∈ handles :=
  List.contains_iff_mem.1 (List.mem_filter.1 hn).2

/-- What an owner has in a head. -/
def account (h : MemoryHead) (holding : Holding) : Account where
  nodes := (h.owned holding.handles).map (Prod.map holding.handles.idxOf id)
  count := holding.handles.length
  slots := holding.slots.map (Prod.map id holding.handles.idxOf)
  shown := holding.shown

theorem map_snd_account_nodes (h : MemoryHead) (holding : Holding) :
    (h.account holding).nodes.map Prod.snd = (h.owned holding.handles).map Prod.snd := by
  rw [account, List.map_map]
  rfl

/-- What is true of a head and the holdings of its owners. -/
structure Shared (h : MemoryHead) (holdings : Owner → Holding) : Prop where
  /-- Elements stand in the order of the numbers of their handles. -/
  ascending : h.nodes.Pairwise fun a b => a.1.number < b.1.number
  /-- A handle that is still to come is held by nobody. -/
  below : ∀ o, ∀ node ∈ (holdings o).handles, node.number < h.next
  /-- No handle is held by two owners. -/
  disjoint : ∀ o o' node, node ∈ (holdings o).handles → node ∈ (holdings o').handles → o = o'
  /-- Each element has an owner. -/
  exists_owner : ∀ n ∈ h.nodes, ∃ o, n.1 ∈ (holdings o).handles
  /-- Only handles that an owner holds are kept under names. -/
  slots_held : ∀ o, ∀ kept ∈ (holdings o).slots, kept.2 ∈ (holdings o).handles

/-- What one owner does in one go: it takes out the handles `gone`, puts in the elements `es`, and
holds on to the handles `kept`. -/
structure Turn (o : Owner) (gone kept : List NodeId) (es : List HeadElement)
    (h : MemoryHead) (holdings : Owner → Holding)
    (h' : MemoryHead) (holdings' : Owner → Holding) : Prop where
  memory : h' = (h.without gone).adding es
  handles : (holdings' o).handles = kept ++ h.upcoming es.length
  others : ∀ o', o' ≠ o → holdings' o' = holdings o'
  gone_held : ∀ node ∈ gone, node ∈ (holdings o).handles
  kept_held : ∀ node ∈ kept, node ∈ (holdings o).handles
  kept_or_gone : ∀ node ∈ (holdings o).handles, node ∈ kept ∨ node ∈ gone
  slots_held : ∀ kept ∈ (holdings' o).slots, kept.2 ∈ (holdings' o).handles

/-- What a head may have become later on: numbers are never used again. -/
structure Grows (h h' : MemoryHead) : Prop where
  next_le : h.next ≤ h'.next
  /-- What is in the head was there before, or has a handle that was still to come. -/
  mem_or_next_le : ∀ n ∈ h'.nodes, n ∈ h.nodes ∨ h.next ≤ n.1.number

theorem Grows.refl (h : MemoryHead) : h.Grows h := ⟨Nat.le_refl _, fun _ hn => Or.inl hn⟩

theorem Grows.trans {h h' h'' : MemoryHead} (h₁ : h.Grows h') (h₂ : h'.Grows h'') :
    h.Grows h'' := by
  refine ⟨Nat.le_trans h₁.next_le h₂.next_le, fun n hn => ?_⟩
  rcases h₂.mem_or_next_le n hn with hold | hnew
  · exact h₁.mem_or_next_le n hold
  · exact Or.inr (Nat.le_trans h₁.next_le hnew)

variable {h h' : MemoryHead} {holdings holdings' : Owner → Holding} {o o' : Owner}
  {gone kept : List NodeId} {es : List HeadElement}

theorem Shared.number_lt (hs : Shared h holdings) : ∀ n ∈ h.nodes, n.1.number < h.next := by
  intro n hn
  obtain ⟨o, ho⟩ := hs.exists_owner n hn
  exact hs.below o n.1 ho

/-- A handle that is held is not one of those that come next. -/
theorem Shared.notMem_upcoming (hs : Shared h holdings) {node : NodeId}
    (hnode : node ∈ (holdings o).handles) (count : Nat) : node ∉ h.upcoming count := by
  intro hup
  exact Nat.not_lt.2 (h.mem_upcoming.1 hup).1 (hs.below o node hnode)

namespace Turn

variable (ht : Turn o gone kept es h holdings h' holdings')

include ht

theorem nodes_eq : h'.nodes =
    (h.nodes.filter fun n => !gone.contains n.1) ++ (h.upcoming es.length).zip es := by
  rw [ht.memory]
  rfl

theorem grows : h.Grows h' := by
  constructor
  · rw [ht.memory]
    exact Nat.le_add_right h.next es.length
  · intro n hn
    rw [ht.nodes_eq, List.mem_append] at hn
    rcases hn with hold | hnew
    · exact Or.inl (List.mem_filter.1 hold).1
    · obtain ⟨hup, -⟩ := List.of_mem_zip hnew
      exact Or.inr (h.mem_upcoming.1 hup).1

theorem held_or_upcoming {node : NodeId} (hnode : node ∈ (holdings' o).handles) :
    node ∈ (holdings o).handles ∨ node ∈ h.upcoming es.length := by
  rw [ht.handles, List.mem_append] at hnode
  exact hnode.imp_left (ht.kept_held node)

/-- After a turn, nobody else holds a handle of its owner: the handles that are new were still to
come. -/
theorem notMem_others (hs : Shared h holdings) (hne : o' ≠ o) {node : NodeId}
    (hnode : node ∈ (holdings' o).handles) : node ∉ (holdings' o').handles := by
  intro hother
  rw [ht.others o' hne] at hother
  rcases ht.held_or_upcoming hnode with hold | hnew
  · exact hne (hs.disjoint o' o node hother hold)
  · exact hs.notMem_upcoming hother es.length hnew

theorem exists_owner (hs : Shared h holdings) :
    ∀ n ∈ h'.nodes, ∃ o, n.1 ∈ (holdings' o).handles := by
  intro n hn
  rw [ht.nodes_eq, List.mem_append] at hn
  rcases hn with hold | hnew
  · obtain ⟨hmem, hstays⟩ := List.mem_filter.1 hold
    have hgone : n.1 ∉ gone := by simpa using hstays
    obtain ⟨o', ho'⟩ := hs.exists_owner n hmem
    refine ⟨o', ?_⟩
    by_cases heq : o' = o
    · subst heq
      rw [ht.handles]
      exact List.mem_append_left _ ((ht.kept_or_gone n.1 ho').resolve_right hgone)
    · rw [ht.others o' heq]
      exact ho'
  · obtain ⟨hup, -⟩ := List.of_mem_zip hnew
    refine ⟨o, ?_⟩
    rw [ht.handles]
    exact List.mem_append_right _ hup

end Turn

/-- The handles that come next are ascending. -/
theorem pairwise_zip_upcoming (h : MemoryHead) (es : List HeadElement) :
    ((h.upcoming es.length).zip es).Pairwise fun a b => a.1.number < b.1.number := by
  have hfst : ((h.upcoming es.length).zip es).map Prod.fst = h.upcoming es.length :=
    List.map_fst_zip (by simp)
  have hup : (h.upcoming es.length).Pairwise fun a b => a.number < b.number :=
    List.pairwise_map.2 List.pairwise_lt_range'
  rw [← hfst, List.pairwise_map] at hup
  exact hup

/-- What is true of the owners of a head is still true after any of them had a turn. -/
theorem Shared.of_turn (hs : Shared h holdings) (ht : Turn o gone kept es h holdings h' holdings') :
    Shared h' holdings' where
  ascending := by
    rw [ht.nodes_eq, List.pairwise_append]
    refine ⟨hs.ascending.filter _, h.pairwise_zip_upcoming es, ?_⟩
    intro a ha b hb
    obtain ⟨hup, -⟩ := List.of_mem_zip hb
    exact Nat.lt_of_lt_of_le (hs.number_lt a (List.mem_filter.1 ha).1) (h.mem_upcoming.1 hup).1
  below := by
    intro o' node hnode
    have hle := ht.grows.next_le
    by_cases heq : o' = o
    · subst heq
      rcases ht.held_or_upcoming hnode with hold | hnew
      · exact Nat.lt_of_lt_of_le (hs.below o' node hold) hle
      · rw [ht.memory]
        exact (h.mem_upcoming.1 hnew).2
    · rw [ht.others o' heq] at hnode
      exact Nat.lt_of_lt_of_le (hs.below o' node hnode) hle
  disjoint := by
    intro o₁ o₂ node h₁ h₂
    by_cases heq₁ : o₁ = o
    · subst heq₁
      by_contra hne
      exact ht.notMem_others hs (Ne.symm hne) h₁ h₂
    · by_cases heq₂ : o₂ = o
      · subst heq₂
        exact absurd h₁ (ht.notMem_others hs heq₁ h₂)
      · rw [ht.others o₁ heq₁] at h₁
        rw [ht.others o₂ heq₂] at h₂
        exact hs.disjoint o₁ o₂ node h₁ h₂
  exists_owner := ht.exists_owner hs
  slots_held := by
    intro o' slot hslot
    by_cases heq : o' = o
    · subst heq
      exact ht.slots_held slot hslot
    · rw [ht.others o' heq] at hslot ⊢
      exact hs.slots_held o' slot hslot

/-! ## What a turn does to accounts -/

/-- A turn takes from no other owner, and gives it nothing. -/
theorem Turn.owned_of_ne (ht : Turn o gone kept es h holdings h' holdings')
    (hs : Shared h holdings) (hne : o' ≠ o) :
    h'.owned (holdings' o').handles = h.owned (holdings o').handles := by
  have hnew : ((h.upcoming es.length).zip es).filter
      (fun n => (holdings o').handles.contains n.1) = [] := by
    rw [List.filter_eq_nil_iff]
    intro n hn hcontains
    obtain ⟨hup, -⟩ := List.of_mem_zip hn
    exact hs.notMem_upcoming (List.contains_iff_mem.1 hcontains) es.length hup
  rw [owned, owned, ht.others o' hne, ht.nodes_eq, List.filter_append, hnew, List.append_nil,
    List.filter_filter]
  apply List.filter_congr
  intro n hn
  by_cases hheld : n.1 ∈ (holdings o').handles
  · have hgone : n.1 ∉ gone := fun hin =>
      hne (hs.disjoint o' o n.1 hheld (ht.gone_held n.1 hin))
    simp [hheld, hgone]
  · simp [hheld]

theorem Turn.account_of_ne (ht : Turn o gone kept es h holdings h' holdings')
    (hs : Shared h holdings) (hne : o' ≠ o) :
    h'.account (holdings' o') = h.account (holdings o') := by
  rw [account, account, ht.owned_of_ne hs hne, ht.others o' hne]

/-- A turn leaves its owner what it did not take out, and what it put in. -/
theorem Turn.owned_eq (ht : Turn o gone kept es h holdings h' holdings')
    (hs : Shared h holdings) :
    h'.owned (holdings' o).handles =
      ((h.owned (holdings o).handles).filter fun n => !gone.contains n.1) ++
        (h.upcoming es.length).zip es := by
  have hnew : ((h.upcoming es.length).zip es).filter
      (fun n => (holdings' o).handles.contains n.1) = (h.upcoming es.length).zip es := by
    apply List.filter_eq_self.2
    intro n hn
    obtain ⟨hup, -⟩ := List.of_mem_zip hn
    rw [List.contains_iff_mem, ht.handles]
    exact List.mem_append_right _ hup
  rw [owned, owned, ht.nodes_eq, List.filter_append, hnew, List.filter_filter, List.filter_filter]
  congr 1
  apply List.filter_congr
  intro n hn
  by_cases hgone : n.1 ∈ gone
  · simp [hgone]
  · have hiff : n.1 ∈ (holdings' o).handles ↔ n.1 ∈ (holdings o).handles := by
      constructor
      · intro hin
        refine (ht.held_or_upcoming hin).resolve_right fun hup => ?_
        exact Nat.not_lt.2 (h.mem_upcoming.1 hup).1 (hs.number_lt n hn)
      · intro hin
        rw [ht.handles]
        exact List.mem_append_left _ ((ht.kept_or_gone n.1 hin).resolve_right hgone)
    simp [hgone, hiff]

/-- The places of the handles that come next, behind those of the handles that are kept. -/
theorem map_idxOf_zip_upcoming (h : MemoryHead) (es : List HeadElement) (kept : List NodeId)
    (hkept : ∀ node ∈ kept, node ∉ h.upcoming es.length) :
    ((h.upcoming es.length).zip es).map (Prod.map (kept ++ h.upcoming es.length).idxOf id) =
      (List.range' kept.length es.length).zip es := by
  have hplaces : (h.upcoming es.length).map (kept ++ h.upcoming es.length).idxOf =
      List.range' kept.length es.length := by
    refine List.ext_getElem (by simp) fun i hi _ => ?_
    have hi' : i < (h.upcoming es.length).length := by simpa using hi
    have hnot : (h.upcoming es.length)[i] ∉ kept := fun hin =>
      hkept _ hin (List.getElem_mem hi')
    rw [List.getElem_map, List.idxOf_append, if_neg hnot,
      (h.nodup_upcoming es.length).idxOf_getElem i hi', List.getElem_range']
    omega
  rw [← List.zip_map, hplaces, List.map_id]

/-- Handles that are still held stand where they stood, also before others. -/
theorem map_idxOf_owned_filter (h : MemoryHead) {handles gone : List NodeId}
    (hgone : ∀ node ∈ gone, node ∈ handles) (more : List NodeId) :
    ((h.owned handles).filter fun n => !gone.contains n.1).map
        (Prod.map (handles ++ more).idxOf id) =
      ((h.owned handles).map (Prod.map handles.idxOf id)).filter
        fun n => !(gone.map handles.idxOf).contains n.1 := by
  have hgone' (node : NodeId) : handles.idxOf node ∈ gone.map handles.idxOf ↔ node ∈ gone := by
    constructor
    · intro hin
      obtain ⟨other, hother, heq⟩ := List.mem_map.1 hin
      rw [← (List.idxOf_inj (hgone other hother)).1 heq]
      exact hother
    · exact List.mem_map_of_mem
  have hfilter : (h.owned handles).filter (fun n => !gone.contains n.1) =
      (h.owned handles).filter fun n => !(gone.map handles.idxOf).contains (handles.idxOf n.1) := by
    apply List.filter_congr
    intro n _
    simp only [List.contains_eq_mem, hgone']
  rw [List.filter_map, hfilter]
  apply List.map_congr_left
  intro n hn
  have hheld := held_of_mem_owned (List.mem_filter.1 hn).1
  simp only [Prod.map, List.idxOf_append, if_pos hheld]

/-- An owner that holds on to all of its handles has what it did not take out, each at its place,
and behind that what it put in. -/
theorem Turn.account_nodes_of_keeps
    (ht : Turn o gone (holdings o).handles es h holdings h' holdings') (hs : Shared h holdings) :
    (h'.account (holdings' o)).nodes =
      ((h.account (holdings o)).nodes.filter fun n =>
        !(gone.map (holdings o).handles.idxOf).contains n.1) ++
        (List.range' (holdings o).handles.length es.length).zip es := by
  have hnew : ∀ node ∈ (holdings o).handles, node ∉ h.upcoming es.length := fun node hnode =>
    hs.notMem_upcoming hnode es.length
  simp only [account]
  rw [ht.owned_eq hs, ht.handles, List.map_append, h.map_idxOf_owned_filter ht.gone_held,
    h.map_idxOf_zip_upcoming es _ hnew]

/-- An owner that holds on to nothing has what it put in. -/
theorem Turn.account_eq_anew (ht : Turn o gone [] es h holdings h' holdings')
    (hs : Shared h holdings) (hslots : (holdings' o).slots = []) :
    h'.account (holdings' o) = .anew es (holdings' o).shown := by
  have hnone : (h.owned (holdings o).handles).filter (fun n => !gone.contains n.1) = [] := by
    rw [List.filter_eq_nil_iff]
    intro n hn hstays
    rcases ht.kept_or_gone n.1 (held_of_mem_owned hn) with hkept | hgone
    · cases hkept
    · simp [hgone] at hstays
  have hplaces : ((h.upcoming es.length).zip es).map (Prod.map (h.upcoming es.length).idxOf id) =
      (List.range' 0 es.length).zip es := h.map_idxOf_zip_upcoming es [] (by simp)
  rw [account, ht.owned_eq hs, ht.handles, hnone, hslots, Account.anew, ← hplaces]
  simp only [List.nil_append, length_upcoming, List.map_nil]

end MemoryHead

end MenuPages
