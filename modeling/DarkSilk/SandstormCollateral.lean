import DarkSilk.SandstormSigs

/-! What a collateral transaction costs. The check adds up machine numbers, takes every
mention of an input for another output, and never asks for the sign of an output. -/
namespace DarkSilk

open List

theorem toInt_foldl_add (l : List CAmount) (a : CAmount) :
    (l.foldl (fun v x => v+x) a).toInt = (a.toInt+(l.map Int64.toInt).sum).bmod (2^64) := by
  induction l generalizing a with
  | nil =>
    rw [foldl_nil,map_nil,sum_nil,add_zero]
    exact (Int.bmod_eq_of_le (Int64.le_toInt a) (Int64.toInt_lt a)).symm
  | cons x l ih =>
    rw [foldl_cons,ih,Int64.toInt_add,map_cons,sum_cons,Int.bmod_add_bmod,add_assoc]

variable (E : PoolEnv)

def outputValue (o : COutPoint) : ℤ :=
  ((E.getTransaction o.hash).bind fun tx => tx.vout[o.n.toNat]?).elim 0 fun out => out.nValue.toInt

/-- What the transaction spends, each output once, and what it pays out. -/
def spentValue (tx : CTransaction) : ℤ := ((tx.vin.map CTxIn.prevout).dedup.map (outputValue E)).sum

def paidValue (tx : CTransaction) : ℤ := (tx.vout.map fun o => o.nValue.toInt).sum

structure CostsCollateral (tx : CTransaction) : Prop where
  nonneg : ∀ o ∈ tx.vout, 0 ≤ o.nValue.toInt
  cost : SANDSTORM_COLLATERAL.toInt ≤ spentValue E tx-paidValue tx

def CTransaction.inputsOnce (tx : CTransaction) : CTransaction :=
  { tx with vin := tx.vin.pwFilter fun i j => i.prevout ≠ j.prevout }

variable {E} {tx : CTransaction}

theorem CTransaction.prevouts_inputsOnce (tx : CTransaction) :
    tx.inputsOnce.vin.map CTxIn.prevout = (tx.vin.map CTxIn.prevout).dedup := by
  rw [inputsOnce,dedup,pwFilter_map]

theorem toInt_valueIn (E) (vin : List CTxIn) :
    (valueIn E vin).toInt = (((vin.map CTxIn.prevout).map (outputValue E)).sum).bmod (2^64) := by
  rw [valueIn,toInt_foldl_add,map_map,map_map,Int64.toInt_zero,zero_add]
  congr 3
  funext i
  simp only [Function.comp_apply,outputValue]
  cases (E.getTransaction i.prevout.hash).bind fun tx => tx.vout[i.prevout.n.toNat]? <;> rfl

theorem toInt_valueOut (tx : CTransaction) :
    (valueOut tx.vout).toInt = (paidValue tx).bmod (2^64) := by
  have hmap : valueOut tx.vout = (tx.vout.map CTxOut.nValue).foldl (fun v x => v+x) 0 := by
    rw [valueOut,foldl_map]
  rw [hmap,toInt_foldl_add,map_map,Int64.toInt_zero,zero_add]
  rfl

theorem isCollateralValid_iff : isCollateralValid E tx ↔
    (0 < tx.vout.length ∧ tx.nLockTime = 0 ∧
      (tx.vout.all fun o => Script.isNormalPaymentScript o.scriptPubKey) ∧
      missingTx E tx.vin = false) ∧
    SANDSTORM_COLLATERAL.toInt ≤ (((tx.vin.map CTxIn.prevout).map (outputValue E)).sum-paidValue
      tx).bmod (2^64) := by
  have hbalance : valueIn E tx.vin-valueOut tx.vout < SANDSTORM_COLLATERAL ↔
      ¬ SANDSTORM_COLLATERAL.toInt ≤ (((tx.vin.map CTxIn.prevout).map (outputValue E)).sum-paidValue tx).bmod (2^64) := by
    rw [Int64.lt_iff_toInt_lt,Int64.toInt_sub,toInt_valueIn,toInt_valueOut,Int.bmod_sub_bmod,
      Int.sub_bmod_bmod,not_le]
  unfold isCollateralValid
  split_ifs with h1 h2 h3 h4 h5
  · exact iff_of_false not_false fun h => absurd h.1.1 (by omega)
  · exact iff_of_false not_false fun h => h2 h.1.2.1
  · exact iff_of_false not_false fun h => by simp [h.1.2.2.1] at h3
  · exact iff_of_false not_false fun h => by simp [h.1.2.2.2] at h4
  · exact iff_of_false not_false fun h => hbalance.mp h5 h.2
  · simp only [true_iff]
    refine ⟨⟨by omega,not_not.mp h2,by simpa using h3,by simpa using h4⟩,?_⟩
    exact not_not.mp fun h => h5 (hbalance.mpr h)

theorem inputsOnce_vin_subset (tx : CTransaction) : tx.inputsOnce.vin ⊆ tx.vin := pwFilter_subset _

/-- An accepted transaction is accepted with each input named once, if the machine number of what
it costs then is large enough. -/
theorem isCollateralValid_inputsOnce_iff (h : isCollateralValid E tx) :
    isCollateralValid E tx.inputsOnce ↔
      SANDSTORM_COLLATERAL.toInt ≤ (spentValue E tx-paidValue tx).bmod (2^64) := by
  obtain ⟨⟨hvout,hlock,hscripts,hmissing⟩,-⟩ := isCollateralValid_iff.mp h
  have hfound : missingTx E tx.inputsOnce.vin = false := by
    rw [missingTx,any_eq_false] at hmissing ⊢
    exact fun i hi => hmissing i (inputsOnce_vin_subset tx hi)
  rw [isCollateralValid_iff,CTransaction.prevouts_inputsOnce]
  exact and_iff_right ⟨hvout,hlock,hscripts,hfound⟩

/-- The cost of an accepted transaction: no output may be negative, and the machine numbers
must be right for the transaction with each input named once. -/
theorem costsCollateral_iff (E : PoolEnv) (tx : CTransaction) (h : isCollateralValid E tx = true) :
    CostsCollateral E tx ↔ (∀ o ∈ tx.vout, 0 ≤ o.nValue) ∧ -2^63 ≤ spentValue E tx-paidValue tx ∧
      (2^63 ≤ spentValue E tx-paidValue tx ∨ isCollateralValid E tx.inputsOnce = true) := by
  have hnonneg : (∀ o ∈ tx.vout, 0 ≤ o.nValue.toInt) ↔ ∀ o ∈ tx.vout, 0 ≤ o.nValue :=
    forall₂_congr fun o _ => by rw [Int64.le_iff_toInt_le,Int64.toInt_zero]
  have hcollateral : SANDSTORM_COLLATERAL.toInt = 1000000 := rfl
  rw [isCollateralValid_inputsOnce_iff h]
  constructor
  · intro hcost
    have hle := hcost.cost
    refine ⟨hnonneg.mp hcost.nonneg,by omega,?_⟩
    by_cases hlarge : 2^63 ≤ spentValue E tx-paidValue tx
    · exact .inl hlarge
    · rw [Int.bmod_eq_of_le (by omega) (by omega)]
      exact .inr hle
  · rintro ⟨hout,hlow,hhigh | hvalid⟩
    · exact ⟨hnonneg.mpr hout,by omega⟩
    · refine ⟨hnonneg.mpr hout,?_⟩
      by_cases hlarge : 2^63 ≤ spentValue E tx-paidValue tx
      · omega
      · rwa [Int.bmod_eq_of_le (by omega) (by omega)] at hvalid

namespace Sample

/-- Two inputs of one output, an output of a negative value, and outputs whose values add up
to 2^64-2. -/
def sameInputTwice : CTransaction := payment 150 [⟨1,0⟩,⟨1,0⟩] [⟨150000000,p2pkh⟩]
def negativeOutput : CTransaction := payment 150 [⟨1,0⟩] [⟨200000000,p2pkh⟩,⟨-150000000,p2pkh⟩]
def hugeOutputs : CTransaction :=
  payment 150 [⟨1,0⟩] [⟨9223372036854775807,p2pkh⟩,⟨9223372036854775807,p2pkh⟩]

end Sample

open Sample

theorem costsCollateral_iff_plain : CostsCollateral poolEnv (poolCollateral 1) :=
  (costsCollateral_iff poolEnv (poolCollateral 1) (by decide +kernel)).mpr (by decide +kernel)

/-- All three are accepted, and none of them costs its owner anything. -/
theorem collateral_for_free : (isCollateralValid poolEnv sameInputTwice = true ∧
      spentValue poolEnv sameInputTwice-paidValue sameInputTwice < 0) ∧
    (isCollateralValid poolEnv negativeOutput = true ∧ ¬ ∀ o ∈ negativeOutput.vout, 0 ≤ o.nValue) ∧
    isCollateralValid poolEnv hugeOutputs = true ∧
      spentValue poolEnv hugeOutputs-paidValue hugeOutputs < 0 := by decide +kernel

end DarkSilk
