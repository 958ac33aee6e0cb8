import Mathlib

/-! Tables with finitely many slots, each empty or holding a value. A value may be held by
several slots; filling or clearing one slot changes the number of its slots by one and
leaves all other values alone. -/
namespace DarkSilk
namespace SlotTable

variable {ι α : Type*} [Fintype ι] [DecidableEq ι] [DecidableEq α]

def held (t : ι → Option α) (a : α) : Finset ι := Finset.univ.filter fun i => t i = some a

variable {t : ι → Option α} {i : ι} {a b : α}

omit [DecidableEq ι] in
@[simp] theorem mem_held : i ∈ held t a ↔ t i = some a := by simp [held]

omit [DecidableEq ι] in
theorem held_eq_empty : held t a = ∅ ↔ ∀ i, t i ≠ some a := by
  simp [Finset.eq_empty_iff_forall_notMem]

omit [DecidableEq ι] in
theorem card_held_pos (h : t i = some a) : 0 < (held t a).card :=
  Finset.card_pos.mpr ⟨i,mem_held.mpr h⟩

omit [DecidableEq ι] in
theorem exists_of_card_held (h : 0 < (held t a).card) : ∃ i, t i = some a := by
  obtain ⟨i,hi⟩ := Finset.card_pos.mp h
  exact ⟨i,mem_held.mp hi⟩

theorem card_held_put (h : t i = none) :
    (held (Function.update t i (some a)) b).card = (held t b).card+if a = b then 1 else 0 := by
  by_cases hab : a = b
  · have hset : held (Function.update t i (some a)) b = insert i (held t b) := by
      ext j
      by_cases hj : j = i <;> simp [hj,hab]
    rw [hset,Finset.card_insert_of_notMem (by simp [h]),if_pos hab]
  · have hset : held (Function.update t i (some a)) b = held t b := by
      ext j
      by_cases hj : j = i <;> simp [hj,hab,h]
    rw [hset,if_neg hab,Nat.add_zero]

theorem card_held_clear (h : t i = some a) :
    (held (Function.update t i none) b).card+(if a = b then 1 else 0) = (held t b).card := by
  have hput := card_held_put (t := Function.update t i none) (i := i) (a := a) (b := b) (by simp)
  rw [← hput,Function.update_idem,← h,Function.update_eq_self]

omit [DecidableEq ι] in
theorem card_held_lt {β : Type*} [DecidableEq β] {t' : ι → Option β} {b : β}
    (hsub : ∀ j, t j = some a → t' j = some b)
    (h : t i ≠ some a) (h' : t' i = some b) : (held t a).card < (held t' b).card := by
  refine Finset.card_lt_card (Finset.ssubset_iff_of_subset ?_ |>.mpr
    ⟨i,mem_held.mpr h',fun hi => h (mem_held.mp hi)⟩)
  exact fun j hj => mem_held.mpr (hsub j (mem_held.mp hj))

omit [DecidableEq ι] in
theorem card_le_of_held (s : Finset α) (h : ∀ a ∈ s, (held t a).Nonempty) :
    s.card ≤ Fintype.card ι := by
  have hsub : s ⊆ Finset.univ.biUnion fun i => (t i).toFinset := by
    intro a ha
    obtain ⟨i,hi⟩ := h a ha
    simpa using ⟨i,mem_held.mp hi⟩
  calc s.card ≤ (Finset.univ.biUnion fun i => (t i).toFinset).card := Finset.card_le_card hsub
    _ ≤ Fintype.card ι*1 := Finset.card_biUnion_le_card_mul _ _ _ fun i _ => by cases t i <;> simp
    _ = Fintype.card ι := Nat.mul_one _

end SlotTable
end DarkSilk
