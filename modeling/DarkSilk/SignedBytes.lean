import DarkSilk.SignatureHash

/-! What the bytes under a signature commit to. Two transactions with script codes give the
same bytes, for an input and a hash type, exactly if they agree in all that the hash type
does not leave open. -/
namespace DarkSilk

open PrefixCode Script List Option

namespace Consensus

def signedBytes (scriptCode : CScript) (txTo : CTransaction) (nIn nHashType : ℕ) : List UInt8 :=
  (signedTx scriptCode txTo nIn nHashType).serialize++leBytes 4 nHashType

theorem signatureHash_eq_hash (P scriptCode) {txTo nIn nHashType}
    (h : ¬ NothingToSign txTo nIn nHashType) :
    signatureHash P scriptCode txTo nIn nHashType =
      P.hash (signedBytes scriptCode txTo nIn nHashType) := by
  rw [NothingToSign,not_or] at h
  rw [signatureHash,if_neg h.1,if_neg h.2]
  rfl

variable {code code₁ code₂ : CScript} {tx tx₁ tx₂ : CTransaction} {nIn nHashType : ℕ}

def withoutSeparators (scriptCode : CScript) : CScript :=
  findAndDelete [UInt8.ofNat OP_CODESEPARATOR] scriptCode

/-- None or one of the outputs is signed, and the other inputs may change their sequence numbers. -/
def IsOpen (nHashType : ℕ) : Prop :=
  nHashType &&& 0x1f = SIGHASH_NONE ∨ nHashType &&& 0x1f = SIGHASH_SINGLE

instance (nHashType : ℕ) : Decidable (IsOpen nHashType) := inferInstanceAs (Decidable (_ ∨ _))

/-- Two transactions with script codes agree in what a hash type signs at an input. -/
structure SameSigned (code₁ code₂ : CScript) (tx₁ tx₂ : CTransaction) (nIn nHashType : ℕ) :
    Prop where
  nVersion : tx₁.nVersion = tx₂.nVersion
  nTime : tx₁.nTime = tx₂.nTime
  nLockTime : tx₁.nLockTime = tx₂.nLockTime
  prevout : (tx₁.vin[nIn]?).map CTxIn.prevout = (tx₂.vin[nIn]?).map CTxIn.prevout
  nSequence : (tx₁.vin[nIn]?).map CTxIn.nSequence = (tx₂.vin[nIn]?).map CTxIn.nSequence
  scriptCode : withoutSeparators code₁ = withoutSeparators code₂
  otherPrevouts : nHashType &&& SIGHASH_ANYONECANPAY = 0 →
    ∀ i ≠ nIn, (tx₁.vin[i]?).map CTxIn.prevout = (tx₂.vin[i]?).map CTxIn.prevout
  otherSequences : nHashType &&& SIGHASH_ANYONECANPAY = 0 → ¬ IsOpen nHashType →
    ∀ i ≠ nIn, (tx₁.vin[i]?).map CTxIn.nSequence = (tx₂.vin[i]?).map CTxIn.nSequence
  outputs : ¬ IsOpen nHashType → tx₁.vout = tx₂.vout
  output : nHashType &&& 0x1f = SIGHASH_SINGLE → tx₁.vout[nIn]? = tx₂.vout[nIn]?

def signedIn (scriptCode : CScript) (nIn nHashType i : ℕ) (txin : CTxIn) : CTxIn :=
  if i = nIn then { txin with scriptSig := withoutSeparators scriptCode }
  else ⟨txin.prevout,[],if IsOpen nHashType then 0 else txin.nSequence⟩

theorem signedVin_eq (code tx nIn nHashType) : signedVin code tx nIn nHashType =
      if nHashType &&& SIGHASH_ANYONECANPAY ≠
        0 then ((tx.vin.mapIdx (signedIn code nIn nHashType))[nIn]?).toList
      else tx.vin.mapIdx (signedIn code nIn nHashType) := by
  have hopen : (decide (nHashType &&& 0x1f = SIGHASH_NONE) || decide (nHashType &&& 0x1f = SIGHASH_SINGLE)) =
      decide (IsOpen nHashType) := (Bool.decide_or _ _).symm
  simp only [signedVin,hopen,decide_eq_true_eq]
  rfl

theorem getElem?_mapIdx_signedIn (code) (tx : CTransaction) (nIn nHashType i) :
    (tx.vin.mapIdx (signedIn code nIn nHashType))[i]? =
      (tx.vin[i]?).map (signedIn code nIn nHashType i) :=
  getElem?_mapIdx

theorem toList_inj {α : Type} {a b : Option α} : a.toList = b.toList ↔ a = b := by
  cases a <;> cases b <;> simp

theorem signedVin_eq_iff : signedVin code₁ tx₁ nIn nHashType = signedVin code₂ tx₂ nIn nHashType ↔
      (tx₁.vin[nIn]?).map (signedIn code₁ nIn nHashType nIn) =
        (tx₂.vin[nIn]?).map (signedIn code₂ nIn nHashType nIn) ∧
      (nHashType &&& SIGHASH_ANYONECANPAY = 0 → ∀ i ≠ nIn,
        (tx₁.vin[i]?).map (signedIn code₁ nIn nHashType i) =
          (tx₂.vin[i]?).map (signedIn code₂ nIn nHashType i)) := by
  rw [signedVin_eq,signedVin_eq]
  by_cases hany : nHashType &&& SIGHASH_ANYONECANPAY = 0
  · rw [if_neg (not_not.mpr hany),if_neg (not_not.mpr hany),List.ext_getElem?_iff]
    simp only [getElem?_mapIdx_signedIn]
    constructor
    · exact fun h => ⟨h nIn,fun _ i _ => h i⟩
    · rintro ⟨hin,hothers⟩ i
      by_cases hi : i = nIn
      · rw [hi]
        exact hin
      · exact hothers hany i hi
  · rw [if_pos hany,if_pos hany,toList_inj,getElem?_mapIdx_signedIn,getElem?_mapIdx_signedIn]
    exact ⟨fun h => ⟨h,fun h0 => absurd h0 hany⟩,fun h => h.1⟩

theorem map_signedIn_self_iff (h1 : nIn < tx₁.vin.length) :
    (tx₁.vin[nIn]?).map (signedIn code₁ nIn nHashType nIn) =
      (tx₂.vin[nIn]?).map (signedIn code₂ nIn nHashType nIn) ↔
      (tx₁.vin[nIn]?).map CTxIn.prevout = (tx₂.vin[nIn]?).map CTxIn.prevout ∧
      (tx₁.vin[nIn]?).map CTxIn.nSequence = (tx₂.vin[nIn]?).map CTxIn.nSequence ∧
      ((tx₂.vin[nIn]?).isSome → withoutSeparators code₁ = withoutSeparators code₂) := by
  rw [getElem?_eq_getElem h1]
  cases tx₂.vin[nIn]? with
  | none => simp
  | some txin =>
    simp only [signedIn,if_true,map_some,some.injEq,CTxIn.mk.injEq,isSome_some,true_implies]
    tauto

theorem map_signedIn_other_iff {i} (hi : i ≠ nIn) :
    (tx₁.vin[i]?).map (signedIn code₁ nIn nHashType i) =
      (tx₂.vin[i]?).map (signedIn code₂ nIn nHashType i) ↔
      (tx₁.vin[i]?).map CTxIn.prevout = (tx₂.vin[i]?).map CTxIn.prevout ∧
      (¬ IsOpen nHashType → (tx₁.vin[i]?).map CTxIn.nSequence =
        (tx₂.vin[i]?).map CTxIn.nSequence) := by
  cases tx₁.vin[i]? with
  | none => cases tx₂.vin[i]? <;> simp
  | some txin₁ =>
    cases tx₂.vin[i]? with
    | none => simp
    | some txin₂ =>
      by_cases hopen : IsOpen nHashType
      · simp [signedIn,hi,hopen]
      · simp [signedIn,hi,hopen]

theorem take_one_drop {α : Type} (l : List α) (n) : (l.drop n).take 1 = (l[n]?).toList := by
  rw [take_one,head?_drop]

theorem none_ne_single : SIGHASH_NONE ≠ SIGHASH_SINGLE := by decide

theorem signedVout_eq_iff : signedVout tx₁ nIn nHashType = signedVout tx₂ nIn nHashType ↔
      (¬ IsOpen nHashType → tx₁.vout = tx₂.vout) ∧
      (nHashType &&& 0x1f = SIGHASH_SINGLE → tx₁.vout[nIn]? = tx₂.vout[nIn]?) := by
  rw [signedVout,signedVout]
  by_cases hnone : nHashType &&& 0x1f = SIGHASH_NONE
  · rw [if_pos hnone,if_pos hnone]
    refine iff_of_true rfl ⟨fun h => absurd (.inl hnone) h,fun h => ?_⟩
    exact absurd (hnone.symm.trans h) none_ne_single
  · by_cases hsingle : nHashType &&& 0x1f = SIGHASH_SINGLE
    · rw [if_neg hnone,if_neg hnone,if_pos hsingle,if_pos hsingle,append_cancel_left_eq,
        take_one_drop,take_one_drop,
        toList_inj]
      exact ⟨fun h => ⟨fun hopen => absurd (.inr hsingle) hopen,fun _ => h⟩,fun h => h.2 hsingle⟩
    · rw [if_neg hnone,if_neg hnone,if_neg hsingle,if_neg hsingle]
      have hopen : ¬ IsOpen nHashType := not_or.mpr ⟨hnone,hsingle⟩
      exact ⟨fun h => ⟨fun _ => h,fun h' => absurd h' hsingle⟩,fun h => h.1 hopen⟩

theorem length_deleteLoop_le (b fuel pc) : (deleteLoop b fuel pc).length ≤ pc.length := by
  induction fuel generalizing pc with
  | zero => exact le_rfl
  | succ fuel ih =>
    rw [deleteLoop]
    split_ifs with hprefix
    · refine (ih _).trans ?_
      rw [length_drop]
      omega
    · cases pc with
      | nil => simp [getOp2]
      | cons c pc =>
        dsimp only
        split_ifs
        · have hrest := ih (getOp2 (c::pc)).rest
          have hle := length_rest_getOp2 c pc
          rw [length_append,length_take,length_cons]
          omega
        · exact le_rfl

theorem length_withoutSeparators_le (code) : (withoutSeparators code).length ≤ code.length := by
  rw [withoutSeparators,findAndDelete,if_neg (by simp)]
  exact length_deleteLoop_le _ _ _

theorem sized_signedTx (h : tx.Sized) (hcode : code.length < 2^64)
    (hsign : ¬ NothingToSign tx nIn nHashType) :
    (signedTx code tx nIn nHashType).Sized := by
  have hclean := (length_withoutSeparators_le code).trans_lt hcode
  have hin : ∀ txin ∈ tx.vin.mapIdx (signedIn code nIn nHashType), txin.scriptSig.length < 2^64 := by
    intro txin hmem
    obtain ⟨i,hi,rfl⟩ := mem_mapIdx.mp hmem
    by_cases hnIn : i = nIn
    · rw [signedIn,if_pos hnIn]
      exact hclean
    · rw [signedIn,if_neg hnIn]
      exact Nat.two_pow_pos 64
  refine ⟨?_,?_,?_,?_⟩
  · show (signedVin code tx nIn nHashType).length < 2^64
    rw [signedVin_eq]
    split_ifs
    · refine lt_of_le_of_lt length_toList_le (by norm_num)
    · rw [length_mapIdx]
      exact h.vin
  · show (signedVout tx nIn nHashType).length < 2^64
    rw [NothingToSign,not_or] at hsign
    rw [signedVout]
    split_ifs with hnone hsingle
    · simp
    · have hlt : nIn < tx.vout.length := not_le.mp fun hle => hsign.2 ⟨hsingle,hle⟩
      rw [length_append,length_replicate,length_take]
      have hvout := h.vout
      omega
    · exact h.vout
  · show ∀ txin ∈ signedVin code tx nIn nHashType, txin.scriptSig.length < 2^64
    rw [signedVin_eq]
    split_ifs
    · exact fun txin hmem => hin txin (mem_of_getElem? (mem_toList.mp hmem))
    · exact hin
  · show ∀ txout ∈ signedVout tx nIn nHashType, txout.scriptPubKey.length < 2^64
    rw [signedVout]
    split_ifs
    · simp
    · intro txout hmem
      rcases mem_append.mp hmem with hmem | hmem
      · rw [(mem_replicate.mp hmem).2]
        simp
      · exact h.scriptPubKey txout (mem_of_mem_drop (mem_of_mem_take hmem))
    · exact h.scriptPubKey

theorem signedTx_eq_iff : signedTx code₁ tx₁ nIn nHashType = signedTx code₂ tx₂ nIn nHashType ↔
      tx₁.nVersion = tx₂.nVersion ∧ tx₁.nTime = tx₂.nTime ∧
        signedVin code₁ tx₁ nIn nHashType = signedVin code₂ tx₂ nIn nHashType ∧
        signedVout tx₁ nIn nHashType = signedVout tx₂ nIn nHashType ∧
        tx₁.nLockTime = tx₂.nLockTime := by
  rw [signedTx,signedTx,CTransaction.mk.injEq]

theorem signedTx_eq_iff_same (h1 : nIn < tx₁.vin.length) (h2 : nIn < tx₂.vin.length) :
    signedTx code₁ tx₁ nIn nHashType = signedTx code₂ tx₂ nIn nHashType ↔
      SameSigned code₁ code₂ tx₁ tx₂ nIn nHashType := by
  have hsome : (tx₂.vin[nIn]?).isSome := by rw [getElem?_eq_getElem h2]; rfl
  rw [signedTx_eq_iff,signedVin_eq_iff,signedVout_eq_iff,map_signedIn_self_iff h1]
  constructor
  · rintro ⟨hversion,htime,⟨⟨hprev,hseq,hcode⟩,hothers⟩,⟨houts,hout⟩,hlock⟩
    refine ⟨hversion,htime,hlock,hprev,hseq,hcode hsome,fun hany i hi => ?_,fun hany hopen i hi => ?_,houts,hout⟩
    · exact ((map_signedIn_other_iff hi).mp (hothers hany i hi)).1
    · exact ((map_signedIn_other_iff hi).mp (hothers hany i hi)).2 hopen
  · intro h
    refine ⟨h.nVersion,h.nTime,⟨⟨h.prevout,h.nSequence,fun _ => h.scriptCode⟩,fun hany i hi => ?_⟩,
      ⟨h.outputs,h.output⟩,
      h.nLockTime⟩
    exact (map_signedIn_other_iff hi).mpr ⟨h.otherPrevouts hany i hi,
      fun hopen => h.otherSequences hany hopen i hi⟩

end Consensus

open Consensus

/-- Where there is something to sign, the bytes under a signature are the same exactly if the
transactions and the script codes agree in what the hash type signs. All vectors have
lengths that can be written in full. -/
theorem signedBytes_eq_iff {code₁ code₂ : CScript} {tx₁ tx₂ : CTransaction} (nIn nHashType : ℕ)
    (hsized₁ : tx₁.Sized) (hsized₂ : tx₂.Sized) (hcode₁ : code₁.length < 2^64)
    (hcode₂ : code₂.length < 2^64)
    (hsign₁ : ¬ NothingToSign tx₁ nIn nHashType) (hsign₂ : ¬ NothingToSign tx₂ nIn nHashType) :
    signedBytes code₁ tx₁ nIn nHashType = signedBytes code₂ tx₂ nIn nHashType ↔
      SameSigned code₁ code₂ tx₁ tx₂ nIn nHashType := by
  have hin₁ : nIn < tx₁.vin.length := not_le.mp fun hle => hsign₁ (.inl hle)
  have hin₂ : nIn < tx₂.vin.length := not_le.mp fun hle => hsign₂ (.inl hle)
  rw [signedBytes,signedBytes,append_cancel_right_eq,← signedTx_eq_iff_same hin₁ hin₂]
  refine ⟨fun heq => ?_,fun heq => by rw [heq]⟩
  exact prefixFreeOn_transaction.injOn (sized_signedTx hsized₁ hcode₁ hsign₁)
    (sized_signedTx hsized₂ hcode₂ hsign₂) heq

namespace Sample

/-- Two transactions that differ in the sequence number of an input and in an output. -/
def twoIn : CTransaction := ⟨1,100,[⟨⟨3,0⟩,[],7⟩,⟨⟨4,0⟩,[1],8⟩],[⟨5,[0x51]⟩,⟨6,[0x52]⟩],0⟩
def twoIn' : CTransaction := ⟨1,100,[⟨⟨3,0⟩,[9],7⟩,⟨⟨4,0⟩,[],1⟩],[⟨5,[0x51]⟩,⟨2,[0x53]⟩],0⟩

theorem sized_twoIn : twoIn.Sized ∧ twoIn'.Sized := by
  constructor <;> exact ⟨by decide,by decide,by decide,by decide⟩

end Sample

open Sample

theorem signedBytes_eq_iff_twoIn :
    (signedBytes [0x51,0xab] twoIn 0 SIGHASH_SINGLE = signedBytes [0x51] twoIn' 0 SIGHASH_SINGLE ↔
        SameSigned [0x51,0xab] [0x51] twoIn twoIn' 0 SIGHASH_SINGLE) ∧
      signedBytes [0x51,0xab] twoIn 0 SIGHASH_SINGLE = signedBytes [0x51] twoIn' 0 SIGHASH_SINGLE ∧
      signedBytes [0x51,0xab] twoIn 0 SIGHASH_ALL ≠ signedBytes [0x51] twoIn' 0 SIGHASH_ALL := by
  obtain ⟨hsized,hsized'⟩ := sized_twoIn
  exact ⟨signedBytes_eq_iff 0 SIGHASH_SINGLE hsized hsized' (by decide) (by decide) (by decide) (by decide),
    by decide +kernel,by decide +kernel⟩

end DarkSilk
