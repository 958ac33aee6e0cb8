import DarkSilk.StormnodePings
import DarkSilk.StormnodeRank

/-! The choice of a stormnode of the list by a random number, with some excluded. The number
counts down over the entries that may be chosen, and the first of them is chosen for zero and
for one. -/

namespace DarkSilk

open List

namespace Stormnode

open DarkSilk.Stormnode.Sample

namespace CStormnodeMan

variable (E : Env) (man : CStormnodeMan) (vecToExclude : List CTxIn) (protocolVersion : ℤ)

/-- The list after the checks that counting makes, each entry with its place. -/
def checked : List (CStormnode × ℕ) := (man.vStormnodes.map (CStormnode.check E false)).zipIdx

def serves (sn : CStormnode) : Bool :=
  !(sn.protocolVersion < (if protocolVersion = -1 then E.minStormnodePaymentsProto
    else protocolVersion) || !sn.isEnabled)

def countEnabled : ℕ := (man.checked E).countP fun x => serves E protocolVersion x.1

/-- The difference of an int and a size, as a size. -/
def notExcluded : ℕ := (((man.countEnabled E protocolVersion : ℤ)-vecToExclude.length)%2^64).toNat

def toInt32 (n : ℤ) : ℤ := (n+2^31)%2^32-2^31

/-- How many numbers GetRandInt may draw; a maximum of zero gives the number zero. -/
def draws : ℕ := max ((toInt32 (man.notExcluded E vecToExclude protocolVersion))%2^64).toNat 1

def isEligible (sn : CStormnode) : Bool :=
  serves E protocolVersion sn && !vecToExclude.any fun usedVin => sn.vin.prevout = usedVin.prevout

/-- The loop, which counts down over the entries that may be chosen. -/
def pick : List (CStormnode × ℕ) → ℤ → Option ℕ
  | [], _ => none
  | (sn,i)::l, rand =>
    if !isEligible E vecToExclude protocolVersion sn then pick l rand
    else if rand-1 < 1 then some i
    else pick l (rand-1)

/-- The place of the stormnode that is chosen for a drawn number. -/
def findRandomNotInVec (drawn : ℕ) : Option ℕ :=
  if man.notExcluded E vecToExclude protocolVersion < 1 then none
  else pick E vecToExclude protocolVersion (man.checked E) (toInt32 drawn)

variable (V : List CTxIn) (v : ℤ)

/-- The places that may be chosen. -/
def eligible : List ℕ := ((man.checked E).filter fun x => isEligible E V v x.1).map Prod.snd

/-- The numbers for which a place is chosen. -/
def drawnFor (i : ℕ) : Finset ℕ :=
  (Finset.range (man.draws E V v)).filter fun n => man.findRandomNotInVec E V v n = some i

/-- There is a choice for every number if there can be one, it is an eligible one, and all of
these are chosen for equally many numbers. -/
def FairChoice : Prop :=
  (∀ n < man.draws E V v, man.findRandomNotInVec E V v n = none → man.eligible E V v = []) ∧
  (∀ n i, man.findRandomNotInVec E V v n = some i → i ∈ man.eligible E V v) ∧
  ∀ i ∈ man.eligible E V v, ∀ j ∈ man.eligible E V v,
    (man.drawnFor E V v i).card = (man.drawnFor E V v j).card

variable {E man V v}

theorem pick_eq (l rand) :
    pick E V v l rand = ((l.filter fun x =>
      isEligible E V v x.1).map Prod.snd)[(rand-1).toNat]? := by
  induction l generalizing rand with
  | nil => simp [pick]
  | cons x l ih =>
    obtain ⟨sn,i⟩ := x
    rw [pick]
    cases hsn : isEligible E V v sn with
    | false => simp [hsn,ih]
    | true =>
      by_cases hlast : rand-1 < 1
      · have hzero : (rand-1).toNat = 0 := by omega
        simp [hsn,hlast,hzero]
      · have hsucc : (rand-1).toNat = (rand-1-1).toNat+1 := by omega
        rw [filter_cons_of_pos (p := fun x : CStormnode × ℕ => isEligible E V v x.1) hsn,map_cons,
          hsucc,getElem?_cons_succ,← ih]
        simp [hlast]

theorem findRandomNotInVec_eq (h : 1 ≤ man.notExcluded E V v) (n) :
    man.findRandomNotInVec E V v n = (man.eligible E V v)[(toInt32 n-1).toNat]? := by
  rw [findRandomNotInVec,if_neg (by omega),pick_eq,eligible]

theorem nodup_eligible : (man.eligible E V v).Nodup := by
  refine Nodup.sublist (filter_sublist.map Prod.snd) ?_
  rw [checked,zipIdx_map_snd]
  exact nodup_range'

/-- The first of two eligible stormnodes is chosen for one more number than the second: the
numbers zero and one are both for it. -/
theorem card_drawnFor_lt (h : 1 ≤ man.notExcluded E V v) {i j l}
    (hl : man.eligible E V v = i::j::l) :
    (man.drawnFor E V v j).card < (man.drawnFor E V v i).card := by
  have hfirst : ∀ n < man.draws E V v, toInt32 n ≤ 1 → n ∈ man.drawnFor E V v i := by
    intro n hn hle
    have hzero : (toInt32 n-1).toNat = 0 := by omega
    exact Finset.mem_filter.mpr ⟨Finset.mem_range.mpr hn,by rw [findRandomNotInVec_eq h,hl,hzero]; rfl⟩
  have hsecond : ∀ n ∈ man.drawnFor E V v j, n < man.draws E V v ∧ toInt32 n = 2 := by
    intro n hn
    obtain ⟨hn,heq⟩ := Finset.mem_filter.mp hn
    rw [findRandomNotInVec_eq h,hl] at heq
    have hone := (getElem?_inj (by simp) (hl ▸ nodup_eligible)).mp
        ((rfl : (i::j::l)[1]? = some j).trans heq.symm)
    exact ⟨Finset.mem_range.mp hn,by omega⟩
  have hpos : 0 < man.draws E V v := Nat.lt_of_lt_of_le Nat.zero_lt_one (le_max_right _ _)
  have hle : (man.drawnFor E V v j).card ≤ ((man.drawnFor E V v i).erase 0).card := by
    refine Finset.card_le_card_of_injOn (fun n => n-1) (fun n hn => ?_) fun n hn m hm heq => ?_
    · obtain ⟨hlt,htwo⟩ := hsecond n hn
      unfold toInt32 at htwo
      have hpred : n-1 ∈ man.drawnFor E V v i := hfirst (n-1) (by omega) (by unfold toInt32; omega)
      exact Finset.mem_erase.mpr ⟨show n-1 ≠ 0 by omega,hpred⟩
    · have htwo := (hsecond n hn).2
      have htwo' := (hsecond m hm).2
      unfold toInt32 at htwo htwo'
      dsimp only at heq
      omega
  exact hle.trans_lt (Finset.card_erase_lt_of_mem (hfirst 0 hpos (by decide)))

/-- The choice is fair exactly if there is no eligible stormnode, or one and at most two
numbers are drawn from. -/
theorem fairChoice_iff (E : Env) (man : CStormnodeMan) (vecToExclude : List CTxIn)
    (protocolVersion : ℤ) :
    man.FairChoice E vecToExclude protocolVersion ↔
      man.eligible E vecToExclude protocolVersion = [] ∨
      (man.eligible E vecToExclude protocolVersion).length = 1 ∧
      1 ≤ man.notExcluded E vecToExclude protocolVersion ∧
        man.draws E vecToExclude protocolVersion ≤ 2 := by
  have hpos : 0 < man.draws E vecToExclude protocolVersion :=
    Nat.lt_of_lt_of_le Nat.zero_lt_one (le_max_right _ _)
  have hmem : ∀ n i, man.findRandomNotInVec E vecToExclude protocolVersion n = some i →
      i ∈ man.eligible E vecToExclude protocolVersion := by
    intro n i hi
    by_cases h : 1 ≤ man.notExcluded E vecToExclude protocolVersion
    · rw [findRandomNotInVec_eq h] at hi
      exact mem_of_getElem? hi
    · rw [findRandomNotInVec,if_pos (by omega)] at hi
      cases hi
  constructor
  · rintro ⟨hnull,-,hequal⟩
    by_contra hcond
    obtain ⟨hne,hcond⟩ := not_or.mp hcond
    have h : 1 ≤ man.notExcluded E vecToExclude protocolVersion := by
      by_contra hlt
      exact hne (hnull 0 hpos (if_pos (by omega)))
    match hl : man.eligible E vecToExclude protocolVersion with
    | [] => exact hne hl
    | [i] =>
      have htwo : 2 < man.draws E vecToExclude protocolVersion := by
        by_contra hle
        exact hcond ⟨by rw [hl]; rfl,h,by omega⟩
      refine hne (hnull 2 htwo ?_)
      rw [findRandomNotInVec_eq h,hl]
      rfl
    | i::j::l => exact (card_drawnFor_lt h hl).ne (hequal j (by simp [hl]) i (by simp [hl]))
  · rintro (hnil | ⟨hone,h,hle⟩)
    · exact ⟨fun _ _ _ => hnil,hmem,fun i hi => by simp [hnil] at hi⟩
    · obtain ⟨i,hl⟩ := length_eq_one_iff.mp hone
      refine ⟨fun n hn hnone => ?_,hmem,fun a ha b hb => ?_⟩
      · have hzero : (toInt32 n-1).toNat = 0 := by
          unfold toInt32
          omega
        rw [findRandomNotInVec_eq h,hl,hzero] at hnone
        cases hnone
      · rw [hl,mem_singleton] at ha hb
        rw [ha,hb]

theorem fairChoice_iff_one : (listed 0 1000).FairChoice (envAt 1100) [] (-1) :=
  (fairChoice_iff (envAt 1100) (listed 0 1000) [] (-1)).mpr (by decide +kernel)

/-- Of two enabled stormnodes the second is never chosen; and one stormnode is not chosen if an
unknown one is excluded. -/
theorem choice_not_fair :
    (let man : CStormnodeMan := ⟨[entry 0 1000,{ entry 0 1000 with vin := ⟨⟨6,0⟩,[],0⟩ }],∅,∅⟩;
      man.eligible (envAt 1100) [] (-1) = [0,1] ∧ man.draws (envAt 1100) [] (-1) = 2 ∧
      man.findRandomNotInVec (envAt 1100) [] (-1) 0 = some 0 ∧
      man.findRandomNotInVec (envAt 1100) [] (-1) 1 = some 0) ∧
    (listed 0 1000).eligible (envAt 1100) [⟨⟨6,0⟩,[],0⟩] (-1) = [0] ∧
      (listed 0 1000).findRandomNotInVec (envAt 1100) [⟨⟨6,0⟩,[],0⟩] (-1) 0 = none := by
  decide +kernel

end CStormnodeMan

section

open CStormnodeMan

variable (E : Env) (man : CStormnodeMan) (v : ℤ)

/-- An entry as the ranking reads it. -/
def CStormnode.ranked (sn : CStormnode) : RankedStormnode :=
  ⟨sn.vin.prevout,sn.protocolVersion,(sn.check E false).isEnabled⟩

theorem serves_check (sn : CStormnode) : serves E v (sn.check E false) =
    takesPart (if v = -1 then E.minStormnodePaymentsProto else v) true (sn.ranked E) := by
  have hproto := congrArg CStormnodeBroadcast.protocolVersion (toCStormnodeBroadcast_check E false sn)
  simp only [serves,takesPart,CStormnode.ranked,hproto,Bool.not_or,Bool.not_not,Bool.not_true,
    Bool.false_or]
  rfl

/-- The stormnodes that are counted are those that take part in the ranking. -/
theorem countEnabled_eq : man.countEnabled E v = (man.vStormnodes.map (CStormnode.ranked E)).countP
    (takesPart (if v = -1 then E.minStormnodePaymentsProto else v) true) := by
  have hzip (l : List CStormnode) : l.zipIdx.countP (fun x => serves E v x.1) = l.countP (serves E v) := by
    conv_rhs => rw [← zipIdx_map_fst 0 l]
    rw [countP_map]
    rfl
  rw [countEnabled,checked,hzip,countP_map,countP_map]
  exact countP_congr fun sn _ => by simp [serves_check]

end

end Stormnode

end DarkSilk
