import DarkSilk.NetAddress

/-! The time of the network. Peers tell how far their clocks are off, and the node takes the
median of what it hears first. -/
namespace DarkSilk.TimeData

open List

structure CMedianFilter where
  vValues : List Int64
  nSize : ℕ

namespace CMedianFilter

variable (f : CMedianFilter)

def input (value : Int64) : CMedianFilter :=
  { f with vValues := (if f.vValues.length = f.nSize then f.vValues.tail else f.vValues)++[value] }

def sorted : List Int64 := f.vValues.insertionSort (· ≤ ·)

def median : Int64 :=
  let size := f.sorted.length
  if size % 2 = 1 then f.sorted.getD (size/2) 0
  else (f.sorted.getD (size/2-1) 0+f.sorted.getD (size/2) 0)/2

end CMedianFilter

def abs64 (n : Int64) : Int64 := if 0 ≤ n then n else -n

structure State where
  setKnown : Finset CNetAddr
  vTimeOffsets : CMedianFilter
  nTimeOffset : Int64
  fDone : Bool

def addTimeData (s : State) (ip : CNetAddr) (nOffsetSample : Int64) : State :=
  if s.setKnown.card = 200 || ip ∈ s.setKnown then s
  else
    let vTimeOffsets := s.vTimeOffsets.input nOffsetSample
    let size := vTimeOffsets.vValues.length
    ⟨insert ip s.setKnown,vTimeOffsets,
      if 5 ≤ size ∧ size % 2 = 1 then
        if abs64 vTimeOffsets.median < 70*60 then vTimeOffsets.median else 0
      else s.nTimeOffset,
      s.fDone || 5 ≤ size && size % 2 = 1 && 70*60 ≤ abs64 vTimeOffsets.median &&
        vTimeOffsets.sorted.all fun nOffset => nOffset = 0 || 5*60 ≤ abs64 nOffset⟩

def run (calls : List (CNetAddr × Int64)) : State :=
  calls.foldl (fun s c => addTimeData s c.1 c.2) ⟨∅,⟨[0],200⟩,0,false⟩

/-- The middle of an odd number of values is where more than half of them are. -/
theorem median_mem {f : CMedianFilter} (hodd : f.vValues.length % 2 = 1)
    (h : 2*f.vValues.countP (fun x => x < a || b < x) < f.vValues.length) :
    a ≤ f.median ∧ f.median ≤ b := by
  have hperm := perm_insertionSort (· ≤ ·) f.vValues
  have hsorted := pairwise_insertionSort (· ≤ ·) f.vValues
  rw [← hperm.length_eq] at hodd h
  rw [← hperm.countP_eq] at h
  rw [CMedianFilter.median,CMedianFilter.sorted,if_pos hodd]
  generalize f.vValues.insertionSort (· ≤ ·) = l at *
  have hk : l.length/2 < l.length := by omega
  have hl : l.take (l.length/2)++l[l.length/2]::l.drop (l.length/2+1) = l := by
    rw [← drop_eq_getElem_cons,take_append_drop]
  have hcount := congrArg (countP fun x => x < a || b < x) hl
  rw [countP_append,countP_cons] at hcount
  rw [← hl] at hsorted
  obtain ⟨-,hright,hleft⟩ := pairwise_append.mp hsorted
  rw [getD_eq_getElem l 0 hk]
  constructor
  · by_contra hlt
    rw [Int64.not_le] at hlt
    rw [countP_eq_length.mpr fun x hx =>
      by simp [Int64.lt_of_le_of_lt (hleft x hx _ mem_cons_self) hlt]] at hcount
    simp [hlt] at hcount
    omega
  · by_contra hlt
    rw [Int64.not_le] at hlt
    rw [countP_eq_length (l := l.drop _) |>.mpr fun x hx => by
      simp [Int64.lt_of_lt_of_le hlt ((pairwise_cons.mp hright).1 x hx)]] at hcount
    simp [hlt] at hcount
    omega

theorem run_concat (calls c) : run (calls++[c]) = addTimeData (run calls) c.1 c.2 := foldl_concat ..

/-- As long as more than half of the values are near enough, the clock of the node is. -/
theorem timeOffset_of_majority (ha : a ≤ 0) (hb : 0 ≤ b) (calls) (h : ∀ l ∈ calls.inits,
      2*(run l).vTimeOffsets.vValues.countP (fun x => x < a || b < x) <
        (run l).vTimeOffsets.vValues.length) :
    a ≤ (run calls).nTimeOffset ∧ (run calls).nTimeOffset ≤ b := by
  induction calls using reverseRecOn with
  | nil => exact ⟨ha,hb⟩
  | append_singleton calls c ih =>
    have hprev := ih fun l hl => h l ((mem_inits ..).mpr (((mem_inits ..).mp hl).trans (prefix_append ..)))
    have hlast := h _ ((mem_inits ..).mpr prefix_rfl)
    rw [run_concat,addTimeData] at hlast ⊢
    split_ifs at hlast ⊢
    · exact hprev
    · dsimp only at hlast ⊢
      split_ifs with hodd
      · exact median_mem hodd.2 hlast
      · exact ⟨ha,hb⟩
      · exact hprev

theorem timeOffset_of_majority_four : -10 ≤ (run [(1,3),(2,5),(3,-4),(4,9000)]).nTimeOffset ∧
      (run [(1,3),(2,5),(3,-4),(4,9000)]).nTimeOffset ≤ 10 :=
  timeOffset_of_majority (by decide) (by decide) _ (by decide)

theorem length_values (calls) : (run calls).vTimeOffsets.nSize = 200 ∧
      (run calls).vTimeOffsets.vValues.length = min 200 ((run calls).setKnown.card+1) := by
  induction calls using reverseRecOn with
  | nil => decide
  | append_singleton calls c ih =>
    rw [run_concat,addTimeData]
    split_ifs with hskip
    · exact ih
    · simp only [Bool.or_eq_true,decide_eq_true_eq,not_or] at hskip
      rw [Finset.card_insert_of_notMem hskip.2,CMedianFilter.input,length_append,ih.1]
      refine ⟨rfl,?_⟩
      split_ifs <;> simp <;> omega

/-- After 199 peers no other one changes the clock. -/
theorem timeOffset_frozen (calls later) : (run calls).setKnown.card < 199 ∨
      199 ≤ (run (calls++later)).setKnown.card ∧
      (run (calls++later)).nTimeOffset = (run calls).nTimeOffset := by
  induction later using reverseRecOn with
  | nil =>
    rw [append_nil]
    exact (Nat.lt_or_ge _ _).imp_right fun h => ⟨h,rfl⟩
  | append_singleton later c ih =>
    refine ih.imp_right fun ⟨hcard,heq⟩ => ?_
    have hfull := length_values (calls++later++[c])
    rw [← append_assoc]
    rw [run_concat,addTimeData] at hfull ⊢
    split_ifs at hfull ⊢ with hskip
    · exact ⟨hcard,heq⟩
    · have hle := hcard.trans (Finset.card_le_card (Finset.subset_insert c.1 _))
      refine ⟨hle,?_⟩
      dsimp only at hfull ⊢
      rw [hfull.2,if_neg (by omega)]
      exact heq

end DarkSilk.TimeData
