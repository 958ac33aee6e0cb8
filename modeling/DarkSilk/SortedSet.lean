import Mathlib

/-! Sets of records that are ordered by a key, kept as strictly sorted lists. A record whose
key is there already is not put in again. The keys alone determine the order. -/
namespace DarkSilk

open List

structure SortedSet (α : Type) {K : Type} [LinearOrder K] (key : α → K) where
  toList : List α
  sorted : toList.Pairwise fun a b => key a < key b

namespace SortedSet

variable {α K : Type} [LinearOrder K] {key : α → K}

def insertSorted (key : α → K) (a : α) : List α → List α
  | [] => [a]
  | b::l => if key a < key b then a::b::l else if key a = key b then b::l else b::insertSorted key a l

theorem map_insertSorted (a : α) (l) (k : K) :
    k ∈ (insertSorted key a l).map key ↔ k = key a ∨ k ∈ l.map key := by
  induction l with
  | nil => simp [insertSorted]
  | cons b l ih =>
    rw [insertSorted]
    split_ifs with hlt heq
    · simp
    · simp [heq]
    · rw [map_cons,mem_cons,ih,map_cons,mem_cons]
      tauto

variable {a x : α} {l : List α} {s : SortedSet α key} {k : K}

theorem mem_insertSorted (hx : x ∈ insertSorted key a l) : x = a ∨ x ∈ l := by
  induction l with
  | nil => exact .inl (mem_singleton.mp hx)
  | cons b l ih =>
    rw [insertSorted] at hx
    split_ifs at hx with hlt heq
    · exact mem_cons.mp hx
    · exact .inr hx
    · rcases mem_cons.mp hx with rfl | hx
      · exact .inr mem_cons_self
      · exact (ih hx).imp_right (mem_cons_of_mem b)

theorem length_insertSorted_le (a : α) (l) : (insertSorted key a l).length ≤ l.length+1 := by
  induction l with
  | nil => exact le_rfl
  | cons b l ih =>
    rw [insertSorted]
    split_ifs <;> simp [ih]

theorem pairwise_insertSorted (a : α) (h : l.Pairwise fun a b => key a < key b) :
    (insertSorted key a l).Pairwise fun a b => key a < key b := by
  induction l with
  | nil => exact pairwise_singleton _ _
  | cons b l ih =>
    obtain ⟨hb,hl⟩ := pairwise_cons.mp h
    rw [insertSorted]
    split_ifs with hlt heq
    · refine pairwise_cons.mpr ⟨fun x hx => ?_,h⟩
      rcases mem_cons.mp hx with rfl | hx
      · exact hlt
      · exact hlt.trans (hb x hx)
    · exact h
    · refine pairwise_cons.mpr ⟨fun x hx => ?_,ih hl⟩
      rcases mem_insertSorted hx with rfl | hx
      · exact lt_of_le_of_ne (not_lt.mp hlt) (Ne.symm heq)
      · exact hb x hx

def empty : SortedSet α key := ⟨[],List.Pairwise.nil⟩

def insert (s : SortedSet α key) (a : α) : SortedSet α key :=
  ⟨insertSorted key a s.toList,pairwise_insertSorted a s.sorted⟩

def find? (s : SortedSet α key) (k : K) : Option α := s.toList.find? fun a => key a = k

def contains (s : SortedSet α key) (k : K) : Bool := (s.find? k).isSome

theorem contains_iff (s : SortedSet α key) (k : K) : s.contains k ↔ k ∈ s.toList.map key := by
  rw [contains,find?,find?_isSome,mem_map]
  simp

theorem contains_insert (s : SortedSet α key) (a : α) (k : K) :
    (s.insert a).contains k ↔ k = key a ∨ s.contains k := by
  rw [contains_iff,contains_iff]
  exact map_insertSorted a s.toList k

theorem mem_insert (hx : x ∈ (s.insert a).toList) : x = a ∨ x ∈ s.toList :=
  mem_insertSorted hx

def eraseKey (s : SortedSet α key) (k : K) : SortedSet α key :=
  ⟨s.toList.eraseP fun a => key a = k,s.sorted.sublist List.eraseP_sublist⟩

theorem mem_eraseKey (hx : x ∈ (s.eraseKey k).toList) : x ∈ s.toList :=
  mem_of_mem_eraseP hx

theorem length_eraseKey (ha : a ∈ s.toList) :
    (s.eraseKey (key a)).toList.length = s.toList.length-1 :=
  length_eraseP_of_mem ha (by simp)

/-- The first record whose key is not less. -/
def lowerBound (s : SortedSet α key) (k : K) : Option α := s.toList.find? fun a => k ≤ key a

theorem mem_lowerBound (h : s.lowerBound k = some a) : a ∈ s.toList :=
  mem_of_find?_eq_some h

/-- Two sets with the same keys list them in the same order. -/
theorem map_key_eq {t : SortedSet α key} (h : ∀ k, s.contains k ↔ t.contains k) :
    s.toList.map key = t.toList.map key := by
  have hs : (s.toList.map key).Pairwise (· < ·) := pairwise_map.mpr s.sorted
  have ht : (t.toList.map key).Pairwise (· < ·) := pairwise_map.mpr t.sorted
  apply hs.eq_of_mem_iff ht
  intro k
  rw [← contains_iff,← contains_iff]
  exact h k

end SortedSet
end DarkSilk
