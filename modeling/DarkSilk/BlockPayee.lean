import DarkSilk.Argmax
import DarkSilk.CoinStake

/-! What a block pays beside its miner: the outputs that the node fills into the coinbase
of its own blocks, and those that it asks of the coinbase of a block. -/
namespace DarkSilk

open Argmax List CTransaction CFinalizedBudget
open Option hiding any_eq_true

namespace CFinalizedBudget

def covers (nBlockHeight : ℤ) (b : CFinalizedBudget) : Bool :=
  nBlockHeight ≥ b.nBlockStart && nBlockHeight ≤ b.getBlockEnd

def isTransactionValid (b : CFinalizedBudget) (txNew : CTransaction) (nBlockHeight : ℤ) : Bool :=
  if nBlockHeight-b.nBlockStart < 0 then false
  else match b.vecBudgetPayments[(nBlockHeight-b.nBlockStart).toNat]? with
    | none => false
    | some (payee,nAmount) => txNew.vout.any fun out => payee = out.scriptPubKey && nAmount = out.nValue

variable {b : CFinalizedBudget} {h : ℤ}

theorem covers_iff :
    b.covers h ↔ b.nBlockStart ≤ h ∧ h ≤ b.nBlockStart+(b.vecBudgetPayments.length-1) := by
  simp only [covers,Bool.and_eq_true,decide_eq_true_eq,ge_iff_le]
  rw [getBlockEnd]

theorem getPayeeAndAmount_of_covers (hb : b.covers h) :
    ∃ payee nAmount, b.getPayeeAndAmount h = some (payee,nAmount) := by
  rw [covers_iff] at hb
  have hlt : (h-b.nBlockStart).toNat < b.vecBudgetPayments.length := by omega
  rw [getPayeeAndAmount,if_neg (by omega),getElem?_eq_getElem hlt]
  exact ⟨_,_,rfl⟩

theorem isTransactionValid_iff {txNew} : b.isTransactionValid txNew h ↔
      ∃ payee nAmount, b.getPayeeAndAmount h = some (payee,nAmount) ∧
      ⟨nAmount,payee⟩ ∈ txNew.vout := by
  unfold isTransactionValid getPayeeAndAmount
  split
  · simp
  · cases b.vecBudgetPayments[(h-b.nBlockStart).toNat]? with
    | none => simp
    | some x =>
      obtain ⟨payee,nAmount⟩ := x
      simp only [any_eq_true,Bool.and_eq_true,decide_eq_true_eq,some.injEq,Prod.mk.injEq]
      constructor
      · rintro ⟨out,hout,rfl,rfl⟩
        exact ⟨_,_,⟨rfl,rfl⟩,hout⟩
      · rintro ⟨_,_,⟨rfl,rfl⟩,hout⟩
        exact ⟨_,hout,rfl,rfl⟩

end CFinalizedBudget

variable (E : StakeEnv) (nBlockHeight : ℤ)

def nHighestCount (n : ℤ) : ℤ :=
  E.mapFinalizedBudgets.foldl (fun (nHighestCount : ℤ) b =>
    if b.nVoteCount > nHighestCount && nBlockHeight ≥ b.nBlockStart && nBlockHeight ≤ b.getBlockEnd
    then b.nVoteCount else nHighestCount) n

/-- The finalized budget that the node pays: the first one with the most votes. -/
def Leads (b : CFinalizedBudget) : Prop :=
  0 < b.nVoteCount ∧ Winner (CFinalizedBudget.covers nBlockHeight) (fun b => (b.nVoteCount : ℤ)) E.mapFinalizedBudgets b

variable {E nBlockHeight}

theorem nHighestCount_cases (E nBlockHeight n) :
    (nHighestCount E nBlockHeight n = n ∧ ∀ b ∈ E.mapFinalizedBudgets, b.covers nBlockHeight →
      (b.nVoteCount : ℤ) ≤ n) ∨
      ∃ b, Winner (covers nBlockHeight) (fun b => (b.nVoteCount : ℤ)) E.mapFinalizedBudgets b ∧
        n < b.nVoteCount ∧ nHighestCount E nBlockHeight n = b.nVoteCount := by
  refine foldl_cases _ (fun b : CFinalizedBudget => (b.nVoteCount : ℤ)) id _ (fun _ => rfl) (fun x b => ?_) n _
  simp [covers,and_comm,and_left_comm,and_assoc]

theorem highestBudget_step (x) (b : CFinalizedBudget) :
    (if b.nVoteCount > x.1 && nBlockHeight ≥ b.nBlockStart && nBlockHeight ≤ b.getBlockEnd then
      match b.getPayeeAndAmount nBlockHeight with
      | some (payee,nAmount) => (b.nVoteCount,payee,nAmount)
      | none => x
    else x) = if b.covers nBlockHeight && (x.1 : ℤ) < b.nVoteCount then
      (b.nVoteCount,(b.getPayeeAndAmount nBlockHeight).getD ([],0)) else x := by
  have hcond : (b.nVoteCount > x.1 && nBlockHeight ≥ b.nBlockStart && nBlockHeight ≤ b.getBlockEnd) =
      (b.covers nBlockHeight && (x.1 : ℤ) < b.nVoteCount) := by
    simp [covers,Bool.and_comm,Bool.and_left_comm,Bool.and_assoc]
  rw [hcond]
  split
  · rename_i hb
    obtain ⟨payee,nAmount,hpay⟩ := getPayeeAndAmount_of_covers (Bool.and_eq_true_iff.mp hb).1
    simp [hpay]
  · rfl

theorem highestBudget_cases (E) (nBlockHeight : ℤ) :
    (highestBudget E nBlockHeight = (0,[],0) ∧ ∀ b, ¬ Leads E nBlockHeight b) ∨
      ∃ b, Leads E nBlockHeight b ∧ (highestBudget E nBlockHeight).1 = b.nVoteCount ∧
        b.getPayeeAndAmount nBlockHeight = some (highestBudget E nBlockHeight).2 := by
  rcases foldl_cases (covers nBlockHeight) (fun b => (b.nVoteCount : ℤ)) (fun x => (x.1 : ℤ))
    (fun b => (b.nVoteCount,(b.getPayeeAndAmount nBlockHeight).getD ([],0))) (fun _ => rfl) highestBudget_step (0,[],0) E.mapFinalizedBudgets with ⟨heq,hle⟩ | ⟨b,hwin,hlt,heq⟩
  · refine .inl ⟨heq,fun b hb => ?_⟩
    have h1 : (b.nVoteCount : ℤ) ≤ ((0 : ℕ) : ℤ) := hle b hb.2.mem hb.2.eligible
    have h2 := hb.1
    omega
  · have hlt : ((0 : ℕ) : ℤ) < b.nVoteCount := hlt
    obtain ⟨payee,nAmount,hpay⟩ := getPayeeAndAmount_of_covers hwin.eligible
    have heq : highestBudget E nBlockHeight =
        (b.nVoteCount,(b.getPayeeAndAmount nBlockHeight).getD ([],0)) := heq
    exact .inr ⟨b,⟨by omega,hwin⟩,by rw [heq],by rw [heq,hpay,getD_some]⟩

theorem isBudgetPaymentBlock_iff :
    isBudgetPaymentBlock E nBlockHeight ↔
      E.countEnabled.tdiv 20 < nHighestCount E nBlockHeight (-1) := by
  rw [isBudgetPaymentBlock,decide_eq_true_eq]
  rfl

theorem nHighestCount_of_leads {b} (hb : Leads E nBlockHeight b) {n} (hn : n ≤ 0) :
    nHighestCount E nBlockHeight n = b.nVoteCount := by
  have hpos := hb.1
  rcases nHighestCount_cases E nBlockHeight n with ⟨-,hle⟩ | ⟨c,hc,-,heq⟩
  · have := hle b hb.2.mem hb.2.eligible
    omega
  · rw [heq,hc.unique hb.2]

variable {tip : Tip}

def CBudgetManager.isTransactionValid (E : StakeEnv) (txNew : CTransaction) (nBlockHeight : ℤ) :
    Bool :=
  let nHighestCount := nHighestCount E nBlockHeight 0
  if nHighestCount < E.countEnabled.tdiv 20 then false
  else E.mapFinalizedBudgets.any fun b =>
    b.nVoteCount > nHighestCount-E.countEnabled.tdiv 10 &&
      (nBlockHeight ≥ b.nBlockStart && nBlockHeight ≤ b.getBlockEnd) && b.isTransactionValid txNew nBlockHeight

theorem CBudgetManager.isTransactionValid_iff {txNew h} :
    CBudgetManager.isTransactionValid E txNew h ↔ E.countEnabled.tdiv 20 ≤ nHighestCount E h 0 ∧
      ∃ b ∈ E.mapFinalizedBudgets, nHighestCount E h 0-E.countEnabled.tdiv 10 < b.nVoteCount ∧
        b.covers h ∧ b.isTransactionValid txNew h := by
  simp only [CBudgetManager.isTransactionValid,covers]
  split_ifs with hlow
  · simp [hlow]
  · simp [not_lt.mp hlow,and_assoc]

theorem length_resize (n vout) : (resize n vout).length = n := by
  simp [resize]
  omega

theorem CBudgetManager.mem_fillBlockPayee {b payee nAmount}
    (hb : Leads E (tip.pindexBest.nHeight+1) b)
    (hpay : b.getPayeeAndAmount (tip.pindexBest.nHeight+1) = some (payee,nAmount)) (txNew nFees) :
    ⟨nAmount,payee⟩ ∈ (CBudgetManager.fillBlockPayee E tip txNew nFees).vout := by
  rcases highestBudget_cases E (tip.pindexBest.nHeight+1) with ⟨-,hnone⟩ | ⟨c,hc,hvotes,hx⟩
  · exact absurd hb (hnone b)
  · rw [hc.2.unique hb.2,hpay,some.injEq] at hx
    have hpos := hc.1
    rw [CBudgetManager.fillBlockPayee,if_pos (by omega),← hx]
    exact mem_set (by rw [length_resize]; decide) _

/-- The validator asks for more votes than the highest count less a tenth of the stormnodes.
With fewer than ten of them not even the leading budget has that many. -/
theorem budget_coinbase_valid_iff (hblock : isBudgetPaymentBlock E (tip.pindexBest.nHeight+1))
    (txNew : CTransaction) (nFees : CAmount) :
    CBudgetManager.isTransactionValid E (CBudgetManager.fillBlockPayee E tip txNew nFees)
      (tip.pindexBest.nHeight+1) ↔ 10 ≤ E.countEnabled := by
  rw [isBudgetPaymentBlock_iff] at hblock
  rw [CBudgetManager.isTransactionValid_iff]
  constructor
  · rintro ⟨-,b,hmem,hlt,hcov,-⟩
    have hle : (b.nVoteCount : ℤ) ≤ nHighestCount E (tip.pindexBest.nHeight+1) 0 := by
      rcases nHighestCount_cases E (tip.pindexBest.nHeight+1) 0 with ⟨heq,hle⟩ | ⟨c,hc,-,heq⟩
      · rw [heq]
        exact hle b hmem hcov
      · rw [heq]
        exact hc.le hmem hcov
    have htenth := tdiv_between E.countEnabled (show (0 : ℤ) < 10 by decide)
    omega
  · intro hn
    have htenth : 0 < E.countEnabled.tdiv 10 := by
      rw [Int.tdiv_eq_ediv_of_nonneg (by omega)]
      omega
    have hzero := (tdiv_between E.countEnabled (show (0 : ℤ) < 20 by decide)).1 (by omega)
    obtain ⟨b,hwin,heq⟩ : ∃ b, Leads E (tip.pindexBest.nHeight+1) b ∧
        nHighestCount E (tip.pindexBest.nHeight+1) (-1) = b.nVoteCount := by
      rcases nHighestCount_cases E (tip.pindexBest.nHeight+1) (-1) with ⟨heq,-⟩ | ⟨b,hb,-,heq⟩
      · omega
      · exact ⟨b,⟨by omega,hb⟩,heq⟩
    obtain ⟨payee,nAmount,hpay⟩ := getPayeeAndAmount_of_covers hwin.2.eligible
    rw [nHighestCount_of_leads hwin le_rfl]
    refine ⟨by omega,b,hwin.2.mem,by omega,hwin.2.eligible,?_⟩
    exact isTransactionValid_iff.mpr
      ⟨payee,nAmount,hpay,CBudgetManager.mem_fillBlockPayee hwin hpay txNew nFees⟩

/-! A finalized budget with one vote, for the first block of a payment cycle of the test network. -/
namespace Sample

def budgetEnv (superblocksActive : Bool) (countEnabled : ℤ) : StakeEnv :=
  { stakeEnv [] with
    superblocksActive := superblocksActive
    mapFinalizedBudgets := [⟨50,[([0x51],10000)],1⟩]
    countEnabled := countEnabled }

def budgetTip : Tip :=
  ⟨⟨genesis,List.replicate 49 genesis⟩,49,by rw [CBlockIndex.nHeight,List.length_replicate]; rfl⟩

def coinbaseNew : CTransaction := ⟨1,1000,[⟨⟨0,0xFFFFFFFF⟩,[0],0xFFFFFFFF⟩],[⟨-1,[0x52]⟩],0⟩

end Sample

open Sample

theorem budget_coinbase_valid_ten : isBudgetPaymentBlock (budgetEnv true 10) 50 ∧
      CBudgetManager.isTransactionValid (budgetEnv true 10)
        (CBudgetManager.fillBlockPayee (budgetEnv true 10) budgetTip coinbaseNew 0) 50 :=
  have hblock : isBudgetPaymentBlock (budgetEnv true 10) (budgetTip.pindexBest.nHeight+1) := by
    decide +kernel
  ⟨hblock,(budget_coinbase_valid_iff hblock coinbaseNew 0).mpr (by decide)⟩

/-- Five stormnodes: the block is a budget block, and the coinbase that the node itself fills is
not valid. -/
theorem budget_coinbase_rejected : isBudgetPaymentBlock (budgetEnv true 5) 50 = true ∧
      (CBudgetManager.fillBlockPayee (budgetEnv true 5) budgetTip coinbaseNew 0).vout =
        [⟨COIN,[0x52]⟩,⟨10000,[0x51]⟩] ∧
      CBudgetManager.isTransactionValid (budgetEnv true 5)
        (CBudgetManager.fillBlockPayee (budgetEnv true 5) budgetTip coinbaseNew 0) 50 = false := by
  decide +kernel

def SNPAYMENTS_SIGNATURES_REQUIRED : ℤ := 10

/-- The payees of a block with their votes. The total of the outputs may be out of range. -/
def CStormnodeBlockPayees.isTransactionValid (vecPayments : List (CScript × ℤ))
    (txNew : CTransaction) : Option Bool :=
  txNew.getValueOut.map fun nValueOut =>
    let stormnodePayment := getStormnodePayment nValueOut
    let nMaxSignatures := vecPayments.foldl (fun nMaxSignatures payee =>
      if payee.2 ≥ nMaxSignatures && payee.2 ≥ SNPAYMENTS_SIGNATURES_REQUIRED then payee.2 else nMaxSignatures) 0
    if nMaxSignatures < SNPAYMENTS_SIGNATURES_REQUIRED then true
    else vecPayments.any fun payee => payee.2 ≥ SNPAYMENTS_SIGNATURES_REQUIRED &&
      txNew.vout.any fun out => payee.1 = out.scriptPubKey && stormnodePayment = out.nValue

def CStormnodePayments.isTransactionValid (E : StakeEnv) (txNew : CTransaction) (nBlockHeight : ℤ) :
    Option Bool :=
  match E.mapStormnodeBlocks nBlockHeight with
  | some vecPayments => CStormnodeBlockPayees.isTransactionValid vecPayments txNew
  | none => some true

theorem getPayee_cases (vecPayments) : (getPayee vecPayments = none ∧ ∀ p ∈ vecPayments, p.2 ≤ -1) ∨
      ∃ p ∈ vecPayments, getPayee vecPayments = some p.1 ∧ ∀ q ∈ vecPayments, q.2 ≤ p.2 := by
  rcases foldl_cases (f := fun (x : Option CScript × ℤ) p =>
    if p.2 > x.2 then (some p.1,p.2) else x) (fun _ => true)
    Prod.snd Prod.snd (fun p => (some p.1,p.2)) (fun _ => rfl) (fun x p => by simp) (none,-1) vecPayments with ⟨heq,hle⟩ | ⟨p,hp,-,heq⟩
  · exact .inl ⟨congrArg Prod.fst heq,fun p hp => hle p hp rfl⟩
  · exact .inr ⟨p,hp.mem,congrArg Prod.fst heq,fun q hq => hp.le hq rfl⟩

theorem exists_of_nMaxSignatures (vecPayments : List (CScript × ℤ)) {n}
    (hn : n < SNPAYMENTS_SIGNATURES_REQUIRED) (h : ¬ vecPayments.foldl (fun nMaxSignatures payee =>
      if payee.2 ≥ nMaxSignatures &&
        payee.2 ≥ SNPAYMENTS_SIGNATURES_REQUIRED then payee.2 else nMaxSignatures) n <
        SNPAYMENTS_SIGNATURES_REQUIRED) : ∃ p ∈ vecPayments, SNPAYMENTS_SIGNATURES_REQUIRED ≤
          p.2 := by
  induction vecPayments generalizing n with
  | nil => exact absurd hn h
  | cons p l ih =>
    by_cases hp : SNPAYMENTS_SIGNATURES_REQUIRED ≤ p.2
    · exact ⟨p,by simp,hp⟩
    · rw [foldl_cons,if_neg (by simp; omega)] at h
      obtain ⟨q,hq,hle⟩ := ih hn h
      exact ⟨q,mem_cons_of_mem p hq,hle⟩

theorem CStormnodePayments.isTransactionValid_of_paid {tx h v} (hv : tx.getValueOut = some v)
    (hpaid : ∀ payee, getBlockPayee E h = some payee → ⟨getStormnodePayment v,payee⟩ ∈ tx.vout) :
    CStormnodePayments.isTransactionValid E tx h = some true := by
  unfold CStormnodePayments.isTransactionValid getBlockPayee at *
  cases hvec : E.mapStormnodeBlocks h with
  | none => rfl
  | some vecPayments =>
    simp only [hvec,bind_some,CStormnodeBlockPayees.isTransactionValid,hv,map_some,some.injEq] at hpaid ⊢
    split_ifs with hfew
    · rfl
    · obtain ⟨q,hq,hten⟩ := exists_of_nMaxSignatures vecPayments (by decide) hfew
      rcases getPayee_cases vecPayments with ⟨-,hle⟩ | ⟨p,hp,hpay,hle⟩
      · have := hle q hq
        rw [SNPAYMENTS_SIGNATURES_REQUIRED] at hten
        omega
      · simp only [any_eq_true,Bool.and_eq_true,decide_eq_true_eq]
        exact ⟨p,hp,hten.trans (hle q hq),_,hpaid p.1 hpay,rfl,rfl⟩

variable {nFees : CAmount} {tx txNew : CTransaction}

/-- The coinbase keeps to the reward, and ConnectBlock finds that too in every block that
begins with it and has these fees. -/
structure WithinReward (tip : Tip) (nFees : CAmount) (tx : CTransaction) : Prop where
  total : valueSum tx.vout ≤ (getProofOfWorkReward tip nFees).toInt
  nonneg : ∀ o ∈ tx.vout, 0 ≤ o.nValue.toInt
  connects : ∀ (b : CBlock) (t : Tally), b.isProofOfWork → b.vtx.head? = some tx → t.nFees = nFees →
    checkReward tip b t = .ok ()

theorem withinReward_iff :
    WithinReward tip nFees tx ↔ ∃ v, tx.getValueOut = some v ∧
      v ≤ getProofOfWorkReward tip nFees := by
  constructor
  · intro h
    have hc := h.connects ⟨⟨1,0,0,0,0,0⟩,[tx],[]⟩ { Tally.zero with nFees := nFees } rfl rfl rfl
    simp only [checkReward,andThen_eq_ok] at hc
    cases hv : tx.getValueOut with
    | none => simp [CBlock.isProofOfWork,CBlock.isProofOfStake,hv] at hc
    | some v => exact ⟨v,rfl,by simpa [CBlock.isProofOfWork,CBlock.isProofOfStake,hv] using hc⟩
  · rintro ⟨v,hv,hle⟩
    obtain ⟨hsum,-,hrange⟩ := getValueOut_toInt hv
    refine ⟨by rwa [← hsum,← Int64.le_iff_toInt_le],fun o ho => ((moneyRange_iff _).mp (hrange o ho)).1,?_⟩
    intro b t hw hhead hfees
    have hs : b.isProofOfStake = false := by simpa [CBlock.isProofOfWork] using hw
    simp [checkReward,andThen_eq_ok,hw,hs,hhead,hv,hfees,hle]

theorem addValueOut_one (a s) : addValueOut 0 [⟨a,s⟩] = if moneyRange a then some a else none := by
  simp [addValueOut]

theorem addValueOut_two (a b s s') : addValueOut 0 [⟨a,s⟩,⟨b,s'⟩] =
      if moneyRange a ∧ moneyRange b ∧ moneyRange (a+b) then some (a+b) else none := by
  by_cases ha : moneyRange a <;> simp [addValueOut,ha]

theorem moneyRange_split {v} (h : moneyRange v) :
    moneyRange (v-getStormnodePayment v) ∧ moneyRange (getStormnodePayment v) := by
  have hdiv := getStormnodePayment_toInt v
  have hv := (moneyRange_iff v).mp h
  have hfifth := (tdiv_between v.toInt (show (0 : ℤ) < 5 by decide)).1 hv.1
  have hsub : (v-getStormnodePayment v).toInt = v.toInt-v.toInt.tdiv 5 := by
    rw [Int64.toInt_sub,hdiv,Int.bmod_eq_of_le] <;> omega
  rw [moneyRange_iff,moneyRange_iff,hsub,hdiv]
  omega

variable {o : CTxOut} {payee : CScript}

theorem CStormnodePayments.fillBlockPayee_getValueOut (hout : txNew.vout = [o]) (E tip nFees) :
    (CStormnodePayments.fillBlockPayee E tip txNew nFees).getValueOut =
      if moneyRange (getProofOfWorkReward tip nFees) then some (getProofOfWorkReward tip nFees)
        else none := by
  unfold CStormnodePayments.fillBlockPayee getValueOut
  generalize getProofOfWorkReward tip nFees = v
  dsimp only
  rw [hout]
  split
  · exact addValueOut_one v _
  · rename_i payee _
    refine (addValueOut_two (v-getStormnodePayment v) (getStormnodePayment v) _ payee).trans ?_
    rw [Int64.sub_add_cancel]
    by_cases hv : moneyRange v
    · rw [if_pos hv,if_pos ⟨(moneyRange_split hv).1,(moneyRange_split hv).2,hv⟩]
    · rw [if_neg hv,if_neg fun h => hv h.2.2]

theorem CStormnodePayments.mem_fillBlockPayee (hout : txNew.vout = [o])
    (hpay : getBlockPayee E (tip.pindexBest.nHeight+1) = some payee) :
    ⟨getStormnodePayment (getProofOfWorkReward tip nFees),payee⟩ ∈
      (CStormnodePayments.fillBlockPayee E tip txNew nFees).vout := by
  unfold CStormnodePayments.fillBlockPayee
  simp [hpay,hout,resize]

/-- A superblock pays the leading budget on top of the reward. -/
theorem CBudgetManager.fillBlockPayee_getValueOut (hout : txNew.vout = [o]) {b nAmount}
    (hb : Leads E (tip.pindexBest.nHeight+1) b)
    (hpay : b.getPayeeAndAmount (tip.pindexBest.nHeight+1) = some (payee,nAmount)) :
    (CBudgetManager.fillBlockPayee E tip txNew nFees).getValueOut =
      if moneyRange (getProofOfWorkReward tip nFees) ∧ moneyRange nAmount ∧
          moneyRange (getProofOfWorkReward tip nFees+nAmount) then
        some (getProofOfWorkReward tip nFees+nAmount) else none := by
  rcases highestBudget_cases E (tip.pindexBest.nHeight+1) with ⟨-,hnone⟩ | ⟨c,hc,hvotes,hx⟩
  · exact absurd hb (hnone b)
  · rw [hc.2.unique hb.2,hpay,some.injEq] at hx
    have hpos := hc.1
    rw [CBudgetManager.fillBlockPayee,if_pos (by omega),← hx,hout]
    exact addValueOut_two _ nAmount _ payee

theorem CBudgetManager.fillBlockPayee_getValueOut_of_none (hout : txNew.vout = [o])
    (hx : highestBudget E (tip.pindexBest.nHeight+1) = (0,[],0)) :
    (CBudgetManager.fillBlockPayee E tip txNew nFees).getValueOut =
      if moneyRange (getProofOfWorkReward tip nFees) then some (getProofOfWorkReward tip nFees)
        else none := by
  rw [CBudgetManager.fillBlockPayee,if_neg (by simp [hx]),hout]
  exact addValueOut_one _ _

theorem add_le_self_iff {a b} (ha : moneyRange a) (hb : moneyRange b) : a+b ≤ a ↔ b = 0 := by
  have hzero : (0 : CAmount).toInt = 0 := by decide
  rw [Int64.le_iff_toInt_le,toInt_add_of_moneyRange ha hb,← Int64.toInt_inj,hzero]
  have := (moneyRange_iff b).mp hb
  omega

def superblock (E : StakeEnv) (tip : Tip) : Bool :=
  E.superblocksActive && isBudgetPaymentBlock E (tip.pindexBest.nHeight+1)

/-- A coinbase of one output, filled: it passes unless the reward is no amount of money,
or the node pays a budget, which ConnectBlock knows nothing of. -/
theorem filled_coinbase_passes_iff {o : CTxOut} (hout : txNew.vout = [o]) (E : StakeEnv) (tip : Tip)
    (nFees : CAmount) :
    (WithinReward tip nFees (fillBlockPayee E tip txNew nFees) ∧
      (superblock E tip = false → CStormnodePayments.isTransactionValid E
        (fillBlockPayee E tip txNew nFees)
        (tip.pindexBest.nHeight+1) = some true)) ↔
      moneyRange (getProofOfWorkReward tip nFees) ∧ (superblock E tip → ∀ b payee nAmount,
        Leads E (tip.pindexBest.nHeight+1) b →
          b.getPayeeAndAmount (tip.pindexBest.nHeight+1) = some (payee,nAmount) → nAmount = 0) := by
  rw [withinReward_iff]
  cases hs : superblock E tip with
  | false =>
    have hfill : fillBlockPayee E tip txNew nFees = CStormnodePayments.fillBlockPayee E tip txNew nFees := by
      rw [fillBlockPayee,if_neg (by rw [← superblock,hs]; decide)]
    rw [hfill]
    have hv := CStormnodePayments.fillBlockPayee_getValueOut hout E tip nFees
    by_cases hR : moneyRange (getProofOfWorkReward tip nFees) = true
    · rw [if_pos hR] at hv
      have hvalid := CStormnodePayments.isTransactionValid_of_paid hv fun payee hpay =>
        CStormnodePayments.mem_fillBlockPayee hout hpay
      exact iff_of_true ⟨⟨_,hv,Int64.le_refl _⟩,fun _ => hvalid⟩ ⟨hR,by simp⟩
    · rw [if_neg hR] at hv
      exact iff_of_false (by simp [hv]) fun h => hR h.1
  | true =>
    have hfill : fillBlockPayee E tip txNew nFees = CBudgetManager.fillBlockPayee E tip txNew nFees := by
      rw [fillBlockPayee,if_pos (by rw [← superblock,hs])]
    rw [hfill]
    rcases highestBudget_cases E (tip.pindexBest.nHeight+1) with ⟨hx,hnone⟩ | ⟨b,hb,-⟩
    · rw [CBudgetManager.fillBlockPayee_getValueOut_of_none hout hx]
      by_cases hR : moneyRange (getProofOfWorkReward tip nFees) = true
      · exact iff_of_true ⟨⟨_,if_pos hR,Int64.le_refl _⟩,by simp⟩ ⟨hR,fun _ b _ _ hb => absurd hb (hnone b)⟩
      · exact iff_of_false (by simp [hR]) fun h => hR h.1
    · obtain ⟨payee,nAmount,hpay⟩ := getPayeeAndAmount_of_covers hb.2.eligible
      rw [CBudgetManager.fillBlockPayee_getValueOut hout hb hpay]
      constructor
      · rintro ⟨⟨v,hv,hle⟩,-⟩
        obtain ⟨⟨hR,ha,-⟩,hv⟩ := ite_none_right_eq_some.mp hv
        rw [← some.inj hv] at hle
        refine ⟨hR,fun _ c payee' nAmount' hc hpay' => ?_⟩
        rw [hc.2.unique hb.2,hpay,some.injEq,Prod.mk.injEq] at hpay'
        rw [← hpay'.2]
        exact (add_le_self_iff hR ha).mp hle
      · rintro ⟨hR,hzero⟩
        rw [hzero rfl b payee nAmount hb hpay,Int64.add_zero,if_pos ⟨hR,by decide,hR⟩]
        exact ⟨⟨_,rfl,Int64.le_refl _⟩,by simp⟩

theorem filled_coinbase_passes_stormnode :
    WithinReward budgetTip 7 (fillBlockPayee (budgetEnv false 20) budgetTip coinbaseNew 7) ∧
      CStormnodePayments.isTransactionValid (budgetEnv false 20)
        (fillBlockPayee (budgetEnv false 20) budgetTip coinbaseNew 7) 50 = some true := by
  have hout : coinbaseNew.vout = [⟨-1,[0x52]⟩] := rfl
  have h := (filled_coinbase_passes_iff hout (budgetEnv false 20) budgetTip 7).mpr
    ⟨by decide +kernel,fun hs => absurd hs (by decide +kernel)⟩
  exact ⟨h.1,h.2 rfl⟩

/-- With superblocks the coinbase of the node pays 10000 more than the reward, and ConnectBlock
refuses the block that begins with it. -/
theorem superblock_exceeds_reward :
    valueSum (fillBlockPayee (budgetEnv true 5) budgetTip coinbaseNew 0).vout =
        (getProofOfWorkReward budgetTip 0).toInt+10000 ∧
      checkReward budgetTip ⟨⟨1,0,0,0,0,0⟩,
        [fillBlockPayee (budgetEnv true 5) budgetTip coinbaseNew 0],[]⟩ .zero =
        .error ⟨50,"ConnectBlock() : coinbase reward exceeded"⟩ := by
  decide +kernel

end DarkSilk
