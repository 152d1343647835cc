import Mathlib.Data.List.Nodup
import MenuPages.Head.Session

/-!
# Things under names

The laws of a list of named things: what is found under a name after something was put there or
taken away, and that no name is used twice.
-/

namespace MenuPages.Slots

variable {α β : Type} {slots : Slots α} {slot other : Text} {a : α}

/-- No name is used twice. -/
def Distinct (slots : Slots α) : Prop := (slots.map Prod.fst).Nodup

/-! ## What is found under a name -/

theorem mem_of_get? (h : slots.get? slot = some a) : (slot, a) ∈ slots := by
  obtain ⟨s, hfind, rfl⟩ := Option.map_eq_some_iff.1 h
  have hslot : s.1 = slot := by simpa using List.find?_some hfind
  rw [← hslot]
  exact List.mem_of_find?_eq_some hfind

theorem get?_of_mem (hd : slots.Distinct) (h : (slot, a) ∈ slots) : slots.get? slot = some a := by
  induction slots with
  | nil => cases h
  | cons s slots ih =>
    obtain ⟨hnot, hd⟩ := List.nodup_cons.1 hd
    rw [get?, List.find?_cons]
    rcases List.mem_cons.1 h with rfl | hmem
    · simp
    · have hne : s.1 ≠ slot := by
        intro heq
        exact hnot (List.mem_map.2 ⟨_, hmem, heq.symm⟩)
      rw [beq_eq_false_iff_ne.2 hne]
      exact ih hd hmem

theorem get?_append (slots more : Slots α) (slot : Text) :
    Slots.get? (slots ++ more) slot = (slots.get? slot).or (more.get? slot) := by
  rw [get?, List.find?_append]
  simp only [get?]
  cases slots.find? fun s => s.1 == slot <;> rfl

theorem get?_single (slot other : Text) (a : α) :
    Slots.get? [(slot, a)] other = if other = slot then some a else none := by
  rw [get?, List.find?_singleton]
  by_cases h : other = slot
  · simp [h]
  · simp [h, Ne.symm h]

theorem get?_eq_none_of_any (h : ¬ (slots.any fun s => s.1 == slot) = true) :
    slots.get? slot = none := by
  rw [get?, Option.map_eq_none_iff, List.find?_eq_none]
  intro s hs hkey
  exact h (List.any_eq_true.2 ⟨s, hs, hkey⟩)

theorem get?_erase (slots : Slots α) (slot other : Text) :
    (slots.erase slot).get? other = if other = slot then none else slots.get? other := by
  rw [get?, erase, List.find?_filter]
  by_cases h : other = slot
  · subst h
    simp
  · rw [if_neg h, get?]
    congr 2
    funext s
    by_cases hs : s.1 = other
    · simp [hs, h]
    · simp [hs]

theorem erase_eq_self (h : slots.get? slot = none) : slots.erase slot = slots := by
  apply List.filter_eq_self.2
  intro s hs
  have := List.find?_eq_none.1 (Option.map_eq_none_iff.1 h) s hs
  simpa using this

theorem get?_map (f : α → β) (slots : Slots α) (slot : Text) :
    Slots.get? (slots.map (Prod.map id f)) slot = (slots.get? slot).map f := by
  rw [get?, get?, List.find?_map, Option.map_map, Option.map_map]
  rfl

theorem get?_put (slots : Slots α) (slot other : Text) (a : α) :
    (slots.put slot a).get? other = if other = slot then some a else slots.get? other := by
  rw [put]
  split
  next hany =>
    have hkeys : ((fun s : Text × α => s.1 == other) ∘
        fun s => if s.1 == slot then (slot, a) else s) = fun s => s.1 == other := by
      funext s
      by_cases hs : s.1 = slot <;> simp [hs]
    rw [get?, List.find?_map, hkeys]
    by_cases h : other = slot
    · subst h
      obtain ⟨s, hs, hkey⟩ := List.any_eq_true.1 hany
      have hsome : (slots.find? fun s => s.1 == other).isSome := List.find?_isSome.2 ⟨s, hs, hkey⟩
      obtain ⟨found, hfind⟩ := Option.isSome_iff_exists.1 hsome
      have hfound : found.1 = other := by simpa using List.find?_some hfind
      simp [hfind, hfound]
    · rw [if_neg h, get?]
      cases hfind : slots.find? fun s => s.1 == other with
      | none => rfl
      | some found =>
        have hfound : found.1 = other := by simpa using List.find?_some hfind
        simp [hfound, h]
  next hany =>
    rw [get?_append, get?_single]
    by_cases h : other = slot
    · subst h
      rw [get?_eq_none_of_any hany, if_pos rfl]
      rfl
    · rw [if_neg h, Option.or_none, if_neg h]

/-- To make anew what is under a name is to put it there. -/
theorem get?_erase_append (slots : Slots α) (slot other : Text) (a : α) :
    Slots.get? (slots.erase slot ++ [(slot, a)]) other =
      if other = slot then some a else slots.get? other := by
  rw [get?_append, get?_erase, get?_single]
  by_cases h : other = slot
  · simp [h]
  · simp [h]

/-! ## Putting and taking away -/

theorem mem_put {s : Text × α} (h : s ∈ slots.put slot a) : s = (slot, a) ∨ s ∈ slots := by
  rw [put] at h
  split at h
  · obtain ⟨t, ht, rfl⟩ := List.mem_map.1 h
    split
    · exact Or.inl rfl
    · exact Or.inr ht
  · rcases List.mem_append.1 h with hold | hnew
    · exact Or.inr hold
    · exact Or.inl (List.mem_singleton.1 hnew)

theorem map_put (f : α → β) (slots : Slots α) (slot : Text) (a : α) :
    (slots.put slot a).map (Prod.map id f) =
      Slots.put (slots.map (Prod.map id f)) slot (f a) := by
  have hany : (List.any (slots.map (Prod.map id f)) fun s => s.1 == slot) =
      slots.any fun s => s.1 == slot := by
    rw [List.any_map]
    rfl
  rw [put, put, hany]
  split
  · rw [List.map_map, List.map_map]
    apply List.map_congr_left
    intro s _
    by_cases hs : s.1 = slot <;> simp [hs]
  · simp

theorem distinct_erase (hd : slots.Distinct) (slot : Text) : (slots.erase slot).Distinct :=
  (List.filter_sublist.map Prod.fst).nodup hd

theorem distinct_append_single (hd : slots.Distinct) (hnone : slots.get? slot = none) (a : α) :
    Distinct (slots ++ [(slot, a)]) := by
  have hnot : slot ∉ slots.map Prod.fst := by
    intro hmem
    obtain ⟨s, hs, rfl⟩ := List.mem_map.1 hmem
    exact List.find?_eq_none.1 (Option.map_eq_none_iff.1 hnone) s hs (by simp)
  rw [Distinct, List.map_append]
  exact List.nodup_append.2 ⟨hd, List.nodup_singleton _, by
    rintro key hkey other hother rfl
    rw [List.mem_singleton.1 hother] at hkey
    exact hnot hkey⟩

theorem distinct_put (hd : slots.Distinct) (slot : Text) (a : α) : (slots.put slot a).Distinct := by
  rw [put]
  split
  · have hkeys : (slots.map fun s => if s.1 == slot then (slot, a) else s).map Prod.fst =
        slots.map Prod.fst := by
      rw [List.map_map]
      apply List.map_congr_left
      intro s _
      by_cases hs : s.1 = slot <;> simp [hs]
    rw [Distinct, hkeys]
    exact hd
  next hany => exact distinct_append_single hd (get?_eq_none_of_any hany) a

end MenuPages.Slots
