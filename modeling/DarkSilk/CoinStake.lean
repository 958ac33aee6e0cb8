import DarkSilk.ConnectBlock
import DarkSilk.Solver

/-! Staking: the wallet selects coins, searches a kernel among them, adds more coins of
the same key and fills the outputs, with or without a stormnode payment. -/
namespace DarkSilk

open PrefixCode List CTransaction
open Option hiding map_map

structure CKey where
  pubKey : List UInt8
  valid : pubKey.length = 33 ∨ pubKey.length = 65
  deriving DecidableEq

structure CWalletTx where
  tx : CTransaction
  nDepth : ℤ
  nBlocksToMaturity : ℤ
  isSpent : ℕ → Bool

/-- The wallet. Its transactions passed the transaction check and are stored under
their ids, and its keys under the ids of their public keys. -/
structure CWallet (P : Params) where
  mapWallet : HashMap CWalletTx
  nBalance : CAmount
  nReserveBalance : CAmount
  nMinimumInputValue : CAmount
  isMine : CTxOut → Bool
  isDenominatedAmount : CAmount → Bool
  isCollateralAmount : CAmount → Bool
  getKey : UInt160 → Option CKey
  hash_eq : ∀ (h : UInt256) (w : CWalletTx), mapWallet[h]? = some w → w.tx.getHash P = h
  checked : ∀ (h : UInt256) (w : CWalletTx), mapWallet[h]? = some w → w.tx.Checked
  getKey_id : ∀ id key, getKey id = some key → P.hash160 key.pubKey = id

structure Coin where
  pcoin : CWalletTx
  i : Fin pcoin.tx.vout.length

namespace Coin

def txout (c : Coin) : CTxOut := c.pcoin.tx.vout.get c.i

def prevout (P : Params) (c : Coin) : COutPoint := ⟨c.pcoin.tx.getHash P,UInt32.ofNat c.i⟩

end Coin

/-- What the choice of a payee reads of a stormnode, after the check that it makes. -/
structure PayableStormnode where
  keyID : UInt160
  enabled : Bool
  score : ℤ

structure CFinalizedBudget where
  nBlockStart : ℤ
  vecBudgetPayments : List (CScript × CAmount)
  nVoteCount : ℕ

/-- What staking reads beside the wallet: the order of the coin set, which is sorted
by addresses in memory, the kernel check against the chain, the signatures, and the
tables of stormnodes and budgets. -/
structure StakeEnv where
  order : List Coin → List Coin
  order_perm : ∀ l, (order l).Perm l
  checkKernel : UInt32 → UInt32 → COutPoint → Bool
  signSignature : CTransaction → CTransaction → ℕ → Option CScript
  mapStormnodeBlocks : ℤ → Option (List (CScript × ℤ))
  vStormnodes : List PayableStormnode
  superblocksActive : Bool
  mapFinalizedBudgets : List CFinalizedBudget
  countEnabled : ℤ

variable {k : Kernel} {s : Stake} {tx : CTransaction} {nFees : CAmount}

def nStakeMinConfirmations : ℤ := 10
def nStakeMinAge : UInt32 := 600
def getStakeCombineThreshold : CAmount := 500*COIN
def getStakeSplitThreshold : CAmount := 2*getStakeCombineThreshold

variable {P : Params} (w : CWallet P)

/-- A transaction with a denominated output, a stormnode collateral or another
collateral is not staked at all. -/
def CWallet.holdsCollateral (pcoin : CWalletTx) : Bool :=
  pcoin.tx.vout.any fun o =>
    w.isDenominatedAmount o.nValue || o.nValue = 10000*COIN || w.isCollateralAmount o.nValue

def CWallet.availableCoinsForStaking (nSpendTime : UInt32) : List Coin :=
  w.mapWallet.toList.flatMap fun e =>
    let pcoin := e.2
    if pcoin.nDepth < 1 || pcoin.nDepth < nStakeMinConfirmations ||
        pcoin.tx.nTime+nStakeMinAge > nSpendTime || pcoin.nBlocksToMaturity > 0 then []
    else if w.holdsCollateral pcoin then []
    else ((List.finRange pcoin.tx.vout.length).filter fun i : Fin pcoin.tx.vout.length =>
      !pcoin.isSpent i.val && w.isMine (pcoin.tx.vout.get i) &&
        w.nMinimumInputValue ≤ (pcoin.tx.vout.get i).nValue).map fun i => ⟨pcoin,i⟩

def selectLoop (nTargetValue : CAmount) : List Coin → List Coin × CAmount → List Coin × CAmount
  | [], x => x
  | c::vCoins, x =>
    let n := c.txout.nValue
    if x.2 ≥ nTargetValue then x
    else if n ≥ nTargetValue then (x.1++[c],x.2+n)
    else if n < nTargetValue+CENT then selectLoop nTargetValue vCoins (x.1++[c],x.2+n)
    else selectLoop nTargetValue vCoins x

def CWallet.selectCoinsForStaking (nTargetValue : CAmount) (nSpendTime : UInt32) :
    List Coin × CAmount :=
  selectLoop nTargetValue (w.availableCoinsForStaking nSpendTime) ([],0)

variable (E : StakeEnv)

/-- The script of the stake outputs and the key, for the two supported kinds of kernel. -/
def CWallet.kernelKey (scriptPubKeyKernel : CScript) : Option (CScript × CKey) :=
  match Script.solver scriptPubKeyKernel with
  | some (.TX_PUBKEYHASH,vSolutions) =>
    (w.getKey (BitVec.ofNat 160 (leValue (vSolutions.headD [])))).map fun key =>
      (Script.payToPubKey key.pubKey,key)
  | some (.TX_PUBKEY,vSolutions) =>
    match w.getKey (P.hash160 (vSolutions.headD [])) with
    | none => none
    | some key => if key.pubKey ≠ vSolutions.headD [] then none else some (scriptPubKeyKernel,key)
  | _ => none

structure Kernel where
  coin : Coin
  nTime : UInt32
  scriptPubKeyOut : CScript
  key : CKey

/-- The search backward in time. A kernel that is found ends it, also if it turns out
to be of no use. -/
def CWallet.searchCoin (nBits nTime : UInt32) (c : Coin) : ℕ → UInt32 → Option Kernel
  | 0, _ => none
  | k+1, n =>
    if E.checkKernel nBits (nTime-n) (c.prevout P) then
      (w.kernelKey c.txout.scriptPubKey).map fun x => ⟨c,nTime-n,x.1,x.2⟩
    else CWallet.searchCoin nBits nTime c k (n+1)

def CWallet.searchKernel (nBits nTime : UInt32) (nSearchInterval : ℤ) (setCoins : List Coin) :
    Option Kernel :=
  setCoins.findSome? fun c => w.searchCoin E nBits nTime c (min nSearchInterval 60).toNat 0

structure Stake where
  coins : List Coin
  nCredit : CAmount

def getWeight (nIntervalBeginning nIntervalEnd : ℤ) : ℤ :=
  nIntervalEnd-nIntervalBeginning-nStakeMinAge.toNat

/-- The loop that adds more coins of the kernel's key to a stake that is not split. -/
def CWallet.addInputs (k : Kernel) (nVout : ℕ) : List Coin → Stake → Stake
  | [], s => s
  | c::setCoins, s =>
    if nVout = 2 && (c.txout.scriptPubKey = k.coin.txout.scriptPubKey ||
          c.txout.scriptPubKey = k.scriptPubKeyOut) &&
        c.pcoin.tx.getHash P ≠ k.coin.pcoin.tx.getHash P then
      if 100 ≤ s.coins.length then s
      else if s.nCredit ≥ getStakeCombineThreshold then s
      else if s.nCredit+c.txout.nValue > w.nBalance-w.nReserveBalance then s
      else if c.txout.nValue ≥ getStakeCombineThreshold then CWallet.addInputs k nVout setCoins s
      else if getWeight c.pcoin.tx.nTime.toNat k.nTime.toNat < nStakeMinAge.toNat then
        CWallet.addInputs k nVout setCoins s
      else CWallet.addInputs k nVout setCoins ⟨s.coins++[c],s.nCredit+c.txout.nValue⟩
    else CWallet.addInputs k nVout setCoins s

variable (P) (tip : Tip)

def STORMNODE_PAYMENT_START : ℤ := 420
def TESTNET_STORMNODE_PAYMENT_START : ℤ := 100

def getPayee (vecPayments : List (CScript × ℤ)) : Option CScript :=
  (vecPayments.foldl (fun (x : Option CScript × ℤ) p => if p.2 > x.2 then (some p.1,p.2) else x) (none,-1)).1

def getBlockPayee (nBlockHeight : ℤ) : Option CScript :=
  (E.mapStormnodeBlocks nBlockHeight).bind getPayee

def getCurrentStormNode : Option PayableStormnode :=
  (E.vStormnodes.foldl (fun (x : Option PayableStormnode × ℤ) sn =>
    if sn.enabled && sn.score > x.2 then (some sn,sn.score) else x) (none,0)).1

def getStormnodePayment (blockValue : CAmount) : CAmount := blockValue*1/5

namespace CFinalizedBudget

def getBlockEnd (b : CFinalizedBudget) : ℤ := b.nBlockStart+(b.vecBudgetPayments.length-1)

def getPayeeAndAmount (b : CFinalizedBudget) (nBlockHeight : ℤ) : Option (CScript × CAmount) :=
  if nBlockHeight-b.nBlockStart < 0 then none
  else b.vecBudgetPayments[(nBlockHeight-b.nBlockStart).toNat]?

end CFinalizedBudget

def isBudgetPaymentBlock (nBlockHeight : ℤ) : Bool :=
  E.mapFinalizedBudgets.foldl (fun (nHighestCount : ℤ) b =>
    if b.nVoteCount > nHighestCount && nBlockHeight ≥ b.nBlockStart && nBlockHeight ≤ b.getBlockEnd
    then b.nVoteCount else nHighestCount) (-1) > E.countEnabled.tdiv 20

def highestBudget (nBlockHeight : ℤ) : ℕ × CScript × CAmount :=
  E.mapFinalizedBudgets.foldl (fun x b =>
    if b.nVoteCount > x.1 && nBlockHeight ≥ b.nBlockStart && nBlockHeight ≤ b.getBlockEnd then
      match b.getPayeeAndAmount nBlockHeight with
      | some (payee,nAmount) => (b.nVoteCount,payee,nAmount)
      | none => x
    else x) (0,[],0)

def resize (n : ℕ) (vout : List CTxOut) : List CTxOut :=
  vout.take n++List.replicate (n-vout.length) ⟨-1,[]⟩

def setValue (nValue : CAmount) (o : CTxOut) : CTxOut := { o with nValue := nValue }

def CBudgetManager.fillBlockPayee (txNew : CTransaction) (nFees : CAmount) : CTransaction :=
  let blockValue := getProofOfWorkReward tip nFees
  let vout := txNew.vout.modifyHead (setValue blockValue)
  let x := highestBudget E (tip.pindexBest.nHeight+1)
  if x.1 > 0 then { txNew with vout := (resize 2 vout).set 1 ⟨x.2.2,x.2.1⟩ } else { txNew with vout := vout }

def CStormnodePayments.fillBlockPayee (txNew : CTransaction) (nFees : CAmount) : CTransaction :=
  let payee := (getBlockPayee E (tip.pindexBest.nHeight+1)).or
    ((getCurrentStormNode E).map fun sn => Script.getScriptForDestination sn.keyID)
  let blockValue := getProofOfWorkReward tip nFees
  let stormnodePayment := getStormnodePayment blockValue
  let vout := txNew.vout.modifyHead (setValue blockValue)
  match payee with
  | none => { txNew with vout := vout }
  | some payee =>
    let vout := (resize 2 vout).set 1 ⟨stormnodePayment,payee⟩
    { txNew with vout := vout.modifyHead fun o => setValue (o.nValue-stormnodePayment) o }

def fillBlockPayee (txNew : CTransaction) (nFees : CAmount) : CTransaction :=
  if E.superblocksActive && isBudgetPaymentBlock E (tip.pindexBest.nHeight+1) then
    CBudgetManager.fillBlockPayee E tip txNew nFees
  else CStormnodePayments.fillBlockPayee E tip txNew nFees

/-- Payments have started, no payee was voted for, and there is a stormnode. -/
def hasPayment : Bool :=
  (tip.pindexBest.nHeight+1 ≥ if P.testNet then TESTNET_STORMNODE_PAYMENT_START else STORMNODE_PAYMENT_START) &&
    (getBlockPayee E (tip.pindexBest.nHeight+1)).isNone && (getCurrentStormNode E).isSome

variable {P}

def fillStake (nCredit : CAmount) (vout : List CTxOut) : List CTxOut :=
  match vout with
  | [o,o₁,o₂] =>
    let nValue := nCredit/2/CENT*CENT
    [o,setValue nValue o₁,setValue (nCredit-nValue) o₂]
  | [o,o₁] => [o,setValue nCredit o₁]
  | vout => vout

def signInputs : ℕ → List Coin → CTransaction → Option CTransaction
  | _, [], tx => some tx
  | nIn, c::l, tx =>
    (E.signSignature c.pcoin.tx tx nIn).bind fun scriptSig =>
      signInputs (nIn+1) l { tx with vin := tx.vin.modify nIn fun i => { i with scriptSig := scriptSig } }

def stakeOutputs (k : Kernel) : List CTxOut :=
  if k.coin.txout.nValue ≥ getStakeSplitThreshold then
    [.setEmpty,⟨0,k.scriptPubKeyOut⟩,⟨0,k.scriptPubKeyOut⟩]
  else [.setEmpty,⟨0,k.scriptPubKeyOut⟩]

def buildCoinStake (P : Params) (k : Kernel) (s : Stake) (nFees : CAmount) (txNew : CTransaction) :
    Option CTransaction :=
  let nReward := STATIC_POS_REWARD+nFees
  if nReward ≤ 0 then none
  else
    let tx := { txNew with
      nTime := k.nTime
      vin := s.coins.map fun c => ⟨c.prevout P,[],0xFFFFFFFF⟩
      vout := stakeOutputs k }
    let tx := if hasPayment P E tip then fillBlockPayee E tip tx nFees
      else { tx with vout := fillStake (s.nCredit+nReward) tx.vout }
    (signInputs E 0 s.coins tx).bind fun tx =>
      if tx.serialize.length ≥ MAX_BLOCK_SIZE/2/5 then none else some tx

def CWallet.createCoinStake (nBits : UInt32) (nSearchInterval : ℤ) (nFees : CAmount)
    (txNew : CTransaction) :
    Option (CTransaction × CKey) :=
  if w.nBalance ≤ w.nReserveBalance then none
  else
    let setCoins := E.order (w.selectCoinsForStaking (w.nBalance-w.nReserveBalance) txNew.nTime).1
    match w.searchKernel E nBits txNew.nTime nSearchInterval setCoins with
    | none => none
    | some k =>
      let nCredit := k.coin.txout.nValue
      if nCredit = 0 || nCredit > w.nBalance-w.nReserveBalance then none
      else
        let s := w.addInputs k (stakeOutputs k).length setCoins ⟨[k.coin],nCredit⟩
        (buildCoinStake E tip P k s nFees txNew).map fun tx => (tx,k.key)

variable {w} {c : Coin}

def CWallet.output (w : CWallet P) (o : COutPoint) : Option CTxOut :=
  (w.mapWallet[o.hash]?).bind fun pcoin => pcoin.tx.vout[o.n.toNat]?

def CWallet.inputValue (w : CWallet P) (o : COutPoint) : ℤ :=
  ((w.output o).map fun txout => txout.nValue.toInt).getD 0

def CWallet.Owns (w : CWallet P) (c : Coin) : Prop := ∃ h : UInt256, w.mapWallet[h]? = some c.pcoin

theorem CWallet.Owns.toNat_n (h : w.Owns c) : (c.prevout P).n.toNat = c.i ∧ c.i.val < 20000000 := by
  obtain ⟨k,hk⟩ := h
  have hlen := c.pcoin.tx.vout_length_le.trans (w.checked k _ hk).size
  have hi : c.i.val < 20000000 := lt_of_lt_of_le c.i.isLt hlen
  refine ⟨?_,hi⟩
  change (UInt32.ofNat c.i).toNat = c.i
  rw [UInt32.toNat_ofNat',Nat.mod_eq_of_lt (by omega)]

theorem CWallet.Owns.output_prevout (h : w.Owns c) : w.output (c.prevout P) = some c.txout := by
  obtain ⟨k,hk⟩ := h
  have hn := (CWallet.Owns.toNat_n ⟨k,hk⟩).1
  have hhash : (c.prevout P).hash = k := w.hash_eq k _ hk
  rw [CWallet.output,hhash,hk,bind_some,hn,getElem?_eq_getElem c.i.isLt]
  rfl

theorem CWallet.Owns.inputValue_prevout (h : w.Owns c) :
    w.inputValue (c.prevout P) = c.txout.nValue.toInt := by
  rw [CWallet.inputValue,h.output_prevout]
  rfl

theorem CWallet.Owns.moneyRange (h : w.Owns c) : moneyRange c.txout.nValue := by
  obtain ⟨k,hk⟩ := h
  obtain ⟨v,hv⟩ := isSome_iff_exists.mp (w.checked k _ hk).valueOut
  exact (getValueOut_toInt hv).2.2 _ (get_mem _ _)

theorem CWallet.Owns.isNull_prevout (h : w.Owns c) : (c.prevout P).isNull = false := by
  have hn := h.toNat_n
  cases hx : (c.prevout P).isNull with
  | false => rfl
  | true =>
    rw [(COutPoint.isNull_iff _).mp hx] at hn
    have hnull : COutPoint.setNull.n.toNat = 4294967295 := by decide
    omega

variable {nSpendTime : UInt32} {nTargetValue : CAmount}

theorem owns_of_mem_availableCoinsForStaking (h : c ∈ w.availableCoinsForStaking nSpendTime) :
    w.Owns c := by
  obtain ⟨e,he,hc⟩ := mem_flatMap.mp h
  dsimp only at hc
  split_ifs at hc
  · exact absurd hc not_mem_nil
  · exact absurd hc not_mem_nil
  · obtain ⟨i,-,rfl⟩ := mem_map.mp hc
    exact ⟨e.1,Std.ExtTreeMap.mem_toList_iff_getElem?_eq_some.mp he⟩

theorem mem_selectLoop {vCoins x} (h : c ∈ (selectLoop nTargetValue vCoins x).1) :
    c ∈ x.1 ∨ c ∈ vCoins := by
  induction vCoins generalizing x with
  | nil => exact .inl h
  | cons c' vCoins ih =>
    have hpush : c ∈ x.1++[c'] → c ∈ x.1 ∨ c ∈ c'::vCoins := by
      intro hc
      rcases mem_append.mp hc with hx | hc
      · exact .inl hx
      · exact .inr (mem_cons.mpr (.inl (mem_singleton.mp hc)))
    rw [selectLoop] at h
    split_ifs at h
    · exact .inl h
    · exact hpush h
    · rcases ih h with hx | hc
      · exact hpush hx
      · exact .inr (mem_cons_of_mem _ hc)
    · exact (ih h).imp_right (mem_cons_of_mem _)

theorem owns_of_mem_order (E : StakeEnv)
    (h : c ∈ E.order (w.selectCoinsForStaking nTargetValue nSpendTime).1) : w.Owns c := by
  rcases mem_selectLoop ((E.order_perm _).mem_iff.mp h) with hnil | hc
  · exact absurd hnil not_mem_nil
  · exact owns_of_mem_availableCoinsForStaking hc

variable {E}

def paysKey (P : Params) (key : CKey) (script : CScript) : Bool :=
  match Script.solver script with
  | some (.TX_PUBKEY,vSolutions) => vSolutions.headD [] = key.pubKey
  | some (.TX_PUBKEYHASH,vSolutions) =>
    BitVec.ofNat 160 (leValue (vSolutions.headD [])) = P.hash160 key.pubKey
  | _ => false

theorem paysKey_payToPubKey (key) : paysKey P key (Script.payToPubKey key.pubKey) := by
  simp [paysKey,Script.solver_payToPubKey key.valid]

theorem paysKey_of_kernelKey {script scriptPubKeyOut key}
    (h : w.kernelKey script = some (scriptPubKeyOut,key)) :
    paysKey P key script ∧ paysKey P key scriptPubKeyOut := by
  unfold CWallet.kernelKey at h
  split at h
  · rename_i vSolutions hsolve
    obtain ⟨key',hkey,he⟩ := map_eq_some_iff.mp h
    obtain ⟨rfl,rfl⟩ := Prod.mk.inj he
    refine ⟨?_,paysKey_payToPubKey key'⟩
    simp [paysKey,hsolve,w.getKey_id _ _ hkey]
  · rename_i vSolutions hsolve
    split at h
    · cases h
    · rename_i key' hkey
      split_ifs at h with hne
      obtain ⟨rfl,rfl⟩ := Prod.mk.inj (some.inj h)
      have hpays : paysKey P key' script := by simp [paysKey,hsolve,not_not.mp hne]
      exact ⟨hpays,hpays⟩
  · cases h

theorem searchCoin_spec {nBits nTime n count} (h : w.searchCoin E nBits nTime c count n = some k) :
    k.coin = c ∧ w.kernelKey k.coin.txout.scriptPubKey = some (k.scriptPubKeyOut,k.key) := by
  induction count generalizing n with
  | zero => exact absurd h (by simp [CWallet.searchCoin])
  | succ count ih =>
    rw [CWallet.searchCoin] at h
    split_ifs at h
    · obtain ⟨x,hx,rfl⟩ := map_eq_some_iff.mp h
      exact ⟨rfl,hx⟩
    · exact ih h

theorem searchKernel_spec {nBits nTime nSearchInterval setCoins}
    (h : w.searchKernel E nBits nTime nSearchInterval setCoins = some k) :
    k.coin ∈ setCoins ∧ paysKey P k.key k.coin.txout.scriptPubKey ∧
      paysKey P k.key k.scriptPubKeyOut := by
  obtain ⟨c,hc,hk⟩ := exists_of_findSome?_eq_some h
  obtain ⟨rfl,hkey⟩ := searchCoin_spec hk
  exact ⟨hc,paysKey_of_kernelKey hkey⟩

variable {tip}

structure Gathered (w : CWallet P) (k : Kernel) (s : Stake) : Prop where
  owns : ∀ c ∈ s.coins, w.Owns c
  head : s.coins.head? = some k.coin
  range : moneyRange s.nCredit
  sum : s.nCredit.toInt = (s.coins.map fun c => c.txout.nValue.toInt).sum

theorem Gathered.push (h : Gathered w k s) (hc : w.Owns c)
    (hs : ¬ s.nCredit ≥ getStakeCombineThreshold)
    (hv : ¬ c.txout.nValue ≥ getStakeCombineThreshold) :
    Gathered w k ⟨s.coins++[c],s.nCredit+c.txout.nValue⟩ := by
  have hadd := toInt_add_of_moneyRange h.range hc.moneyRange
  refine ⟨fun c' hc' => ?_,?_,?_,?_⟩
  · rcases mem_append.mp hc' with hc' | hc'
    · exact h.owns c' hc'
    · rwa [mem_singleton.mp hc']
  · have hne : s.coins ≠ [] := by
      intro hnil
      have hhead := h.head
      rw [hnil] at hhead
      cases hhead
    rw [head?_append_of_ne_nil _ hne]
    exact h.head
  · have h1 := (moneyRange_iff _).mp h.range
    have h2 := (moneyRange_iff _).mp hc.moneyRange
    have h3 : getStakeCombineThreshold.toInt = 50000000000 := by decide
    rw [ge_iff_le,Int64.le_iff_toInt_le,h3] at hs hv
    rw [moneyRange_iff,hadd]
    omega
  · rw [hadd,h.sum,map_append,sum_append]
    simp

theorem Gathered.addInputs {nVout setCoins} (h : Gathered w k s) (hset : ∀ c ∈ setCoins, w.Owns c) :
    Gathered w k (w.addInputs k nVout setCoins s) := by
  induction setCoins generalizing s with
  | nil => exact h
  | cons c setCoins ih =>
    have hc := hset c mem_cons_self
    have hrest : ∀ c' ∈ setCoins, w.Owns c' := fun c' hc' => hset c' (mem_cons_of_mem c hc')
    rw [CWallet.addInputs]
    split_ifs with _ _ hs _ hv
    · exact h
    · exact h
    · exact h
    · exact ih h hrest
    · exact ih h hrest
    · exact ih (h.push hc hs hv) hrest
    · exact ih h hrest

variable {vout : List CTxOut}

theorem signInputs_spec {nIn l tx'} (h : signInputs E nIn l tx = some tx') :
    tx'.vout = tx.vout ∧ tx'.prevouts = tx.prevouts := by
  induction l generalizing nIn tx with
  | nil =>
    rw [signInputs,some.injEq] at h
    exact h ▸ ⟨rfl,rfl⟩
  | cons c l ih =>
    rw [signInputs] at h
    obtain ⟨scriptSig,-,h⟩ := bind_eq_some_iff.mp h
    obtain ⟨h1,h2⟩ := ih h
    refine ⟨h1,h2.trans ?_⟩
    apply ext_getElem?
    intro j
    simp only [prevouts,getElem?_map,getElem?_modify]
    by_cases hj : nIn = j
    · cases tx.vin[j]? <;> simp [hj]
    · cases tx.vin[j]? <;> simp [hj]

theorem isCoinStake_eq {o o₀ o₁} (hin : tx.prevouts.head? = some o) (ho : o.isNull = false)
    (hout : tx.vout = o₀::o₁::vout) :
    tx.isCoinStake = o₀.isEmpty := by
  obtain ⟨i,vin,hv⟩ : ∃ i vin, tx.vin = i::vin := by
    cases hv : tx.vin with
    | nil => simp [prevouts,hv] at hin
    | cons i vin => exact ⟨i,vin,rfl⟩
  have hi : i.prevout = o := by simpa [prevouts,hv] using hin
  simp [isCoinStake,hv,hout,hi,ho]

theorem tdiv_between (a : ℤ) {k} (hk : 0 < k) :
    (0 ≤ a → 0 ≤ a.tdiv k ∧ a.tdiv k*k ≤ a) ∧ (a < 0 → a.tdiv k ≤ 0 ∧ a ≤ a.tdiv k*k) := by
  constructor
  · intro h
    rw [Int.tdiv_eq_ediv_of_nonneg h]
    exact ⟨Int.ediv_nonneg h hk.le,Int.ediv_mul_le a hk.ne'⟩
  · intro h
    have h1 : a.tdiv k = -((-a)/k) := by
      rw [← Int.tdiv_eq_ediv_of_nonneg (by omega),Int.neg_tdiv,neg_neg]
    have h2 := Int.ediv_mul_le (-a) hk.ne'
    have h3 := Int.ediv_nonneg (show 0 ≤ -a by omega) hk.le
    rw [h1,Int.neg_mul]
    omega

theorem half_add_rest (v : CAmount) : (v/2/CENT*CENT).toInt+(v-v/2/CENT*CENT).toInt = v.toInt := by
  have hc : CENT.toInt = 1000000 := by decide
  have h2 : (2 : CAmount).toInt = 2 := by decide
  have hlt := v.toInt_lt
  have hle := Int64.le_toInt v
  have h₁ := tdiv_between v.toInt (show (0 : ℤ) < 2 by decide)
  have h₃ := tdiv_between (v.toInt.tdiv 2) (show (0 : ℤ) < 1000000 by decide)
  have hround : (v/2/CENT*CENT).toInt = (v.toInt.tdiv 2).tdiv 1000000*1000000 := by
    rw [Int64.toInt_mul,Int64.toInt_div_of_ne_right _ _ (by decide),Int64.toInt_div_of_ne_right _ _ (by decide),
      hc,h2,Int.bmod_eq_of_le] <;> omega
  have hrest : (v-v/2/CENT*CENT).toInt = v.toInt-(v.toInt.tdiv 2).tdiv 1000000*1000000 := by
    rw [Int64.toInt_sub,hround,Int.bmod_eq_of_le] <;> omega
  omega

theorem setValue_nValue (v o) : (setValue v o).nValue = v := by rw [setValue]

theorem fillStake_spec (k v) : ∃ o₁ vout, fillStake v (stakeOutputs k) = .setEmpty::o₁::vout ∧
      valueSum (o₁::vout) = v.toInt ∧ ∀ o ∈ o₁::vout, o.scriptPubKey = k.scriptPubKeyOut := by
  unfold stakeOutputs
  split_ifs
  · refine ⟨setValue (v/2/CENT*CENT) ⟨0,k.scriptPubKeyOut⟩,[setValue (v-v/2/CENT*CENT) ⟨0,k.scriptPubKeyOut⟩],
      by simp only [fillStake],?_,by simp [setValue]⟩
    rw [valueSum_cons,valueSum_cons,valueSum_nil,add_zero,setValue_nValue,setValue_nValue]
    exact half_add_rest v
  · exact ⟨setValue v ⟨0,k.scriptPubKeyOut⟩,[],by simp only [fillStake],by simp [setValue],by simp [setValue]⟩

theorem reward_toInt (hrew : ¬ STATIC_POS_REWARD+nFees ≤ 0) :
    (STATIC_POS_REWARD+nFees).toInt = 1000000+nFees.toInt ∧ 0 < 1000000+nFees.toInt := by
  have hpos : STATIC_POS_REWARD.toInt = 1000000 := by decide
  have hzero : (0 : CAmount).toInt = 0 := by decide
  have hlow := Int64.le_toInt nFees
  have hhigh := nFees.toInt_lt
  have hsum : (STATIC_POS_REWARD+nFees).toInt = (1000000+nFees.toInt).bmod (2^64) := by
    rw [Int64.toInt_add,hpos]
  rw [Int64.le_iff_toInt_le,hzero,hsum,Int.bmod_def] at hrew
  rw [hsum,Int.bmod_def]
  omega

theorem getStormnodePayment_toInt (v) : (getStormnodePayment v).toInt = v.toInt.tdiv 5 := by
  have h5 : (5 : CAmount).toInt = 5 := by decide
  rw [getStormnodePayment,Int64.mul_one,Int64.toInt_div_of_ne_right _ _ (by decide),h5]

/-- The payee filler writes the proof-of-work reward, or what a payment leaves of it,
to the output that marks a coinstake by being empty. -/
theorem fillBlockPayee_spec (E : StakeEnv) (tip : Tip) {a b} (hout : tx.vout = a::b::vout)
    (hfee : 0 < 1000000+nFees.toInt) :
    ∃ o₀ o₁ vout', fillBlockPayee E tip tx nFees = { tx with vout := o₀::o₁::vout' } ∧
      o₀.nValue ≠ 0 := by
  have hreward : (getProofOfWorkReward tip nFees).toInt ≠ 0 := by
    have h1 : (4000000*COIN : CAmount).toInt = 400000000000000 := by decide
    have h2 : STATIC_POW_REWARD.toInt = 100000000 := by decide
    have hhigh := nFees.toInt_lt
    unfold getProofOfWorkReward
    split_ifs
    · rw [Int64.toInt_add,h1,Int.bmod_def]
      omega
    · rw [Int64.toInt_add,h2,Int.bmod_def]
      omega
  generalize hv : getProofOfWorkReward tip nFees = v at hreward
  have hne : v ≠ 0 := by
    rintro rfl
    exact hreward (by decide)
  have hpaid : v-getStormnodePayment v ≠ 0 := by
    have h1 := tdiv_between v.toInt (show (0 : ℤ) < 5 by decide)
    have hlt := v.toInt_lt
    have hle := Int64.le_toInt v
    intro h0
    have h2 := congrArg Int64.toInt h0
    rw [Int64.toInt_sub,getStormnodePayment_toInt,Int.bmod_eq_of_le (by omega) (by omega)] at h2
    have h3 : (0 : CAmount).toInt = 0 := by decide
    omega
  unfold fillBlockPayee
  split_ifs
  · unfold CBudgetManager.fillBlockPayee
    dsimp only
    rw [hout,hv]
    split_ifs
    · exact ⟨_,_,_,rfl,hne⟩
    · exact ⟨_,_,_,rfl,hne⟩
  · unfold CStormnodePayments.fillBlockPayee
    dsimp only
    rw [hout,hv]
    split
    · exact ⟨_,_,_,rfl,hne⟩
    · exact ⟨_,_,_,rfl,hpaid⟩

/-! A wallet with one coin, and stormnode tables with and without a node. -/
namespace Sample

def stakeKey : CKey := ⟨List.replicate 33 2,.inl rfl⟩

def stakeTx : CTransaction :=
  ⟨1,1000,[⟨⟨5,0⟩,[],0xFFFFFFFF⟩],[⟨10*COIN,Script.payToPubKey stakeKey.pubKey⟩],0⟩

def stakeWtx : CWalletTx := ⟨stakeTx,20,0,fun _ => false⟩

theorem checked_stakeTx : stakeTx.Checked := checked_of_checkTransaction (by decide +kernel)

theorem eq_of_mapWallet {k h pcoin x} (hx : ((∅ : HashMap CWalletTx).insert k pcoin)[h]? = some x) :
    x = pcoin ∧ h = k := by
  rw [getElem?_insert] at hx
  split_ifs at hx with hh
  · exact ⟨(some.inj hx).symm,hh.symm⟩
  · simp at hx

def stakeWallet : CWallet params where
  mapWallet := (∅ : HashMap CWalletTx).insert (stakeTx.getHash params) stakeWtx
  nBalance := 10*COIN
  nReserveBalance := 0
  nMinimumInputValue := 0
  isMine := fun _ => true
  isDenominatedAmount := fun _ => false
  isCollateralAmount := fun _ => false
  getKey := fun id => if id = params.hash160 stakeKey.pubKey then some stakeKey else none
  hash_eq := fun h x hx => by
    have he := eq_of_mapWallet hx
    rw [he.1,he.2]
    rfl
  checked := fun h x hx => by
    rw [(eq_of_mapWallet hx).1]
    exact checked_stakeTx
  getKey_id := fun id key hk => by
    by_cases hid : id = params.hash160 stakeKey.pubKey
    · rw [if_pos hid] at hk
      rw [← Option.some.inj hk,hid]
    · rw [if_neg hid] at hk
      exact absurd hk (Option.some_ne_none key).symm

def stakeEnv (vStormnodes : List PayableStormnode) : StakeEnv where
  order := id
  order_perm := List.Perm.refl
  checkKernel := fun _ _ _ => true
  signSignature := fun _ _ _ => some []
  mapStormnodeBlocks := fun _ => none
  vStormnodes := vStormnodes
  superblocksActive := false
  mapFinalizedBudgets := []
  countEnabled := 0

def stakeTip : Tip :=
  ⟨⟨genesis,List.replicate 419 genesis⟩,419,by rw [CBlockIndex.nHeight,List.length_replicate]; rfl⟩

def staked (vStormnodes : List PayableStormnode) : Option (CTransaction × CKey) :=
  stakeWallet.createCoinStake (stakeEnv vStormnodes) stakeTip 0 1 0 ⟨1,2000,[],[],0⟩

end Sample

/-- A coinstake that keeps the staker's coins: marked as one, worth its inputs with the
reward and the fees, and paying at least the inputs back to the key of its kernel. -/
structure Staked (w : CWallet P) (nFees : CAmount) (tx : CTransaction) (key : CKey) : Prop where
  coinStake : tx.isCoinStake
  value : valueSum tx.vout = (tx.prevouts.map w.inputValue).sum+STATIC_POS_REWARD.toInt+nFees.toInt
  kernel : ∃ o txout, tx.prevouts.head? = some o ∧ w.output o = some txout ∧ paysKey P key txout.scriptPubKey
  kept : (tx.prevouts.map w.inputValue).sum ≤ valueSum (tx.vout.filter fun o => paysKey P key o.scriptPubKey)

variable {txNew : CTransaction}

theorem buildCoinStake_spec (h : buildCoinStake E tip P k s nFees txNew = some tx) :
    ¬ STATIC_POS_REWARD+nFees ≤ 0 ∧
      ∃ tx₀ : CTransaction, tx₀.prevouts = s.coins.map (Coin.prevout P) ∧
      tx₀.vout = stakeOutputs k ∧
        (hasPayment P E tip → tx.vout = (fillBlockPayee E tip tx₀ nFees).vout ∧
          tx.prevouts = (fillBlockPayee E tip tx₀ nFees).prevouts) ∧
        (hasPayment P E tip = false →
          tx.vout = fillStake (s.nCredit+(STATIC_POS_REWARD+nFees)) tx₀.vout ∧
          tx.prevouts = tx₀.prevouts) := by
  unfold buildCoinStake at h
  by_cases hrew : STATIC_POS_REWARD+nFees ≤ 0
  · exact absurd h (by simp [hrew])
  · rw [if_neg hrew] at h
    obtain ⟨tx',hsign,hsize⟩ := bind_eq_some_iff.mp h
    obtain rfl : tx' = tx := by
      split_ifs at hsize
      exact some.inj hsize
    have hspec := signInputs_spec hsign
    refine ⟨hrew,⟨txNew.nVersion,k.nTime,s.coins.map fun c => ⟨c.prevout P,[],0xFFFFFFFF⟩,stakeOutputs k,
      txNew.nLockTime⟩,?_,rfl,fun hpay => ?_,fun hpay => ?_⟩
    · simp [prevouts,Function.comp_def]
    · rwa [if_pos hpay] at hspec
    · rwa [if_neg (by simp [hpay])] at hspec

theorem not_staked_of_hasPayment (hs : Gathered w k s) (hpay : hasPayment P E tip)
    (h : buildCoinStake E tip P k s nFees txNew = some tx) (key) :
    ¬ Staked w nFees tx key := by
  obtain ⟨hrew,tx₀,hprev₀,hout₀,hfilled,-⟩ := buildCoinStake_spec h
  obtain ⟨hvout,hprev⟩ := hfilled hpay
  obtain ⟨a,b,l,hab⟩ : ∃ a b l, stakeOutputs k = a::b::l := by
    unfold stakeOutputs
    split_ifs
    · exact ⟨_,_,_,rfl⟩
    · exact ⟨_,_,_,rfl⟩
  obtain ⟨o₀,o₁,l',hfill,hne⟩ := fillBlockPayee_spec E tip (hout₀.trans hab) (reward_toInt hrew).2
  rw [hfill] at hvout hprev
  intro hst
  have hmark := hst.coinStake
  have hhead : tx.prevouts.head? = some (k.coin.prevout P) := by
    rw [hprev]
    change tx₀.prevouts.head? = _
    simp [hprev₀,hs.head]
  have howns : w.Owns k.coin := hs.owns _ (mem_of_mem_head? hs.head)
  rw [isCoinStake_eq hhead howns.isNull_prevout hvout] at hmark
  simp [CTxOut.isEmpty,hne] at hmark

/-- Without one the outputs of the stake are worth all there is, as long as it fits
into an amount. -/
theorem staked_iff_of_not_hasPayment (hs : Gathered w k s)
    (hkernel : paysKey P k.key k.coin.txout.scriptPubKey) (hkey : paysKey P k.key k.scriptPubKeyOut)
    (hpay : hasPayment P E tip = false) (h : buildCoinStake E tip P k s nFees txNew = some tx) :
    (Staked w nFees tx k.key ↔
      (tx.prevouts.map w.inputValue).sum+STATIC_POS_REWARD.toInt+nFees.toInt < 2^63) ∧
    (nFees ≤ MAX_MONEY →
      (tx.prevouts.map w.inputValue).sum+STATIC_POS_REWARD.toInt+nFees.toInt < 2^63) := by
  obtain ⟨hrew,tx₀,hprev₀,hout₀,-,hunpaid⟩ := buildCoinStake_spec h
  obtain ⟨hvout,hprev⟩ := hunpaid hpay
  obtain ⟨hreward,hpositive⟩ := reward_toInt hrew
  have hpos : STATIC_POS_REWARD.toInt = 1000000 := by decide
  have hset : CTxOut.setEmpty.nValue.toInt = 0 := by decide
  have hrange := (moneyRange_iff _).mp hs.range
  obtain ⟨o₁,l,hfill,hsum,hscript⟩ := fillStake_spec k (s.nCredit+(STATIC_POS_REWARD+nFees))
  rw [hout₀,hfill] at hvout
  have hin : (tx.prevouts.map w.inputValue).sum = s.nCredit.toInt := by
    rw [hprev,hprev₀,hs.sum,map_map]
    congr 1
    exact map_congr_left fun c hc => (hs.owns c hc).inputValue_prevout
  rw [hin,hpos]
  refine ⟨⟨fun hst => ?_,fun hfits => ?_⟩,fun hle => ?_⟩
  · have hvalue := hst.value
    rw [hvout,valueSum_cons,hsum,hin,hpos,hset] at hvalue
    have hlt := (s.nCredit+(STATIC_POS_REWARD+nFees)).toInt_lt
    omega
  · have htotal : (s.nCredit+(STATIC_POS_REWARD+nFees)).toInt = s.nCredit.toInt+(1000000+nFees.toInt) := by
      rw [Int64.toInt_add,hreward,Int.bmod_eq_of_le] <;> omega
    have howns : w.Owns k.coin := hs.owns _ (mem_of_mem_head? hs.head)
    have hhead : tx.prevouts.head? = some (k.coin.prevout P) := by simp [hprev,hprev₀,hs.head]
    refine ⟨?_,?_,⟨_,_,hhead,howns.output_prevout,hkernel⟩,?_⟩
    · rw [isCoinStake_eq hhead howns.isNull_prevout hvout]
      rfl
    · rw [hvout,valueSum_cons,hsum,htotal,hin,hpos,hset]
      omega
    · have hall : ∀ o ∈ o₁::l, paysKey P k.key o.scriptPubKey := by
        intro o ho
        rw [hscript o ho]
        exact hkey
      have hempty : paysKey P k.key CTxOut.setEmpty.scriptPubKey = false := by
        have hnone : Script.solver CTxOut.setEmpty.scriptPubKey = none := by decide
        simp [paysKey,hnone]
      rw [hvout,filter_cons_of_neg (by simp [hempty]),filter_eq_self.mpr hall,hsum,htotal,hin]
      omega
  · have hmax : MAX_MONEY.toInt = 9000000000000000 := by decide
    have hle := Int64.le_iff_toInt_le.mp hle
    omega

/-- CreateCoinStake keeps the staker's coins exactly if there is no stormnode payment,
with which the filler written for coinbases overwrites the outputs of the stake, and
inputs, reward and fees together fit into an amount, as they do unless the fees are out of
range. -/
theorem createCoinStake_staked_iff {nBits : UInt32} {nSearchInterval : ℤ} {txNew tx : CTransaction}
    {key : CKey} (h : w.createCoinStake E tip nBits nSearchInterval nFees txNew = some (tx,key)) :
    (Staked w nFees tx key ↔ hasPayment P E tip = false ∧
      (tx.prevouts.map w.inputValue).sum+STATIC_POS_REWARD.toInt+nFees.toInt < 2^63) ∧
    (nFees ≤ MAX_MONEY → (Staked w nFees tx key ↔ hasPayment P E tip = false)) := by
  unfold CWallet.createCoinStake at h
  dsimp only at h
  split_ifs at h
  split at h
  · cases h
  · rename_i k hk
    split_ifs at h
    obtain ⟨tx',hbuild,he⟩ := map_eq_some_iff.mp h
    cases he
    obtain ⟨hmem,hkernel,hkey⟩ := searchKernel_spec hk
    have howns := owns_of_mem_order E hmem
    have hstart : Gathered w k ⟨[k.coin],k.coin.txout.nValue⟩ :=
      ⟨by simpa using howns,rfl,howns.moneyRange,by simp⟩
    have hset : ∀ c ∈ E.order (w.selectCoinsForStaking (w.nBalance-w.nReserveBalance) txNew.nTime).1, w.Owns c :=
      fun c hc => owns_of_mem_order E hc
    cases hpay : hasPayment P E tip with
    | true =>
      have hnot := not_staked_of_hasPayment (hstart.addInputs hset) hpay hbuild k.key
      exact ⟨iff_of_false hnot (by simp),fun _ => iff_of_false hnot (by simp)⟩
    | false =>
      obtain ⟨hiff,hfits⟩ := staked_iff_of_not_hasPayment (hstart.addInputs hset) hkernel hkey hpay hbuild
      exact ⟨by simp [hiff],fun hle => iff_of_true (hiff.mpr (hfits hle)) rfl⟩

open Sample

/-- Without a stormnode to pay the coin comes back with the reward. -/
theorem createCoinStake_staked_iff_unpaid :
    ∃ tx key, staked [] = some (tx,key) ∧ Staked stakeWallet 0 tx key := by
  have hsome : (staked []).isSome := by decide +kernel
  obtain ⟨⟨tx,key⟩,hx⟩ := isSome_iff_exists.mp hsome
  exact ⟨tx,key,hx,((createCoinStake_staked_iff hx).2 (by decide)).mpr (by decide +kernel)⟩

/-- With one, the stake of ten coins is spent, and the outputs are the proof-of-work
reward: four fifths of a coin to no key, and one fifth to the stormnode. -/
theorem createCoinStake_loses_stake :
    ∃ tx key, staked [⟨7,true,1⟩] = some (tx,key) ∧ tx.isCoinStake = false ∧
      tx.prevouts = [⟨stakeTx.getHash params,0⟩] ∧
      tx.vout = [⟨80000000,[]⟩,⟨20000000,Script.getScriptForDestination 7⟩] ∧
      valueSum (tx.vout.filter fun o => paysKey params key o.scriptPubKey) <
        (tx.prevouts.map stakeWallet.inputValue).sum ∧
      ¬ Staked stakeWallet 0 tx key := by
  have hx : (staked [⟨7,true,1⟩]).map (fun x => (x.1.isCoinStake,x.1.prevouts,x.1.vout,
      decide (valueSum (x.1.vout.filter fun o => paysKey params x.2 o.scriptPubKey) <
        (x.1.prevouts.map stakeWallet.inputValue).sum))) =
      some (false,[⟨stakeTx.getHash params,0⟩],
        [⟨80000000,[]⟩,⟨20000000,Script.getScriptForDestination 7⟩],true) := by decide +kernel
  obtain ⟨⟨tx,key⟩,htx,hr⟩ := map_eq_some_iff.mp hx
  simp only [Prod.mk.injEq,decide_eq_true_eq] at hr
  obtain ⟨hcs,hprev,hout,hlost⟩ := hr
  refine ⟨tx,key,htx,hcs,hprev,hout,hlost,fun hst => ?_⟩
  exact absurd hst.coinStake (by simp [hcs])

end DarkSilk
