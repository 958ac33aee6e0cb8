import DarkSilk.CoinStake

/-! The two records of spent outputs that the wallet keeps: the flags of a wallet
transaction, and the table of the transactions that spend an output. The wallet is loaded
from its file, and changed by the calls that add, commit and synchronise transactions. -/
namespace DarkSilk

open List
open Option hiding all_eq_true any_eq_true
namespace WalletSpends

structure CWalletTx where
  tx : CTransaction
  hashBlock : UInt256
  vMerkleBranch : List UInt256
  nIndex : ℤ
  fFromMe : Bool
  vfSpent : List Bool
  deriving DecidableEq

structure BlockPos where
  nHeight : ℤ
  isInMainChain : Bool

/-- What a call reads beside the wallet: the keys, the chain and the memory pool, and
whether the file can be written. -/
structure WalletEnv where
  isMine : CTxOut → Bool
  nMinimumInputValue : CAmount
  nAdjustedTime : UInt32
  writeTx : UInt256 → Bool
  mapBlockIndex : UInt256 → Option BlockPos
  nBestHeight : ℤ
  merkleVerified : CWalletTx → Bool
  mempoolExists : UInt256 → Bool
  nInstantXDepth : ℕ
  isLocked : UInt256 → Bool
  isFinalTx : CTransaction → Bool
  isTrusted : CWalletTx → Bool
  isLockedCoin : UInt256 → ℕ → Bool
  isDenominatedAmount : CAmount → Bool
  isCollateralAmount : CAmount → Bool

namespace CWalletTx

def ofTx (tx : CTransaction) : CWalletTx := ⟨tx,0,[],-1,false,[]⟩

def spends (wtx : CWalletTx) : List COutPoint := if wtx.tx.isCoinBase then [] else wtx.tx.prevouts

def updateFlags : List Bool → List Bool → List Bool
  | f::vfSpent, fNew::vfNewSpent => (fNew || f)::updateFlags vfSpent vfNewSpent
  | vfSpent, _ => vfSpent

/-- The flags for all outputs, the missing ones not set. -/
def resized (wtx : CWalletTx) : List Bool :=
  wtx.vfSpent.take wtx.tx.vout.length++List.replicate (wtx.tx.vout.length-wtx.vfSpent.length) false

/-- Without a result if there is no such output. -/
def markSpent (wtx : CWalletTx) (nOut : ℕ) : Option CWalletTx :=
  if wtx.tx.vout.length ≤ nOut then none else some { wtx with vfSpent := wtx.resized.set nOut true }

def isSpent (wtx : CWalletTx) (nOut : ℕ) : Option Bool :=
  if wtx.tx.vout.length ≤ nOut then none else some (wtx.vfSpent[nOut]?.getD false)

variable (P : Params) (E : WalletEnv)

def getDepthInMainChainINTERNAL (wtx : CWalletTx) : ℤ :=
  if wtx.hashBlock = 0 || wtx.nIndex = -1 then 0
  else match E.mapBlockIndex wtx.hashBlock with
    | none => 0
    | some pindex =>
      if !pindex.isInMainChain then 0
      else if !E.merkleVerified wtx then 0
      else E.nBestHeight-pindex.nHeight+1

def getDepthInMainChain (wtx : CWalletTx) : ℤ :=
  let nResult := wtx.getDepthInMainChainINTERNAL E
  if nResult = 0 && !E.mempoolExists (wtx.tx.getHash P) then -1
  else if nResult < 6 && E.isLocked (wtx.tx.getHash P) then E.nInstantXDepth+nResult
  else nResult

def getBlocksToMaturity (wtx : CWalletTx) : ℤ :=
  if !(wtx.tx.isCoinBase || wtx.tx.isCoinStake) then 0
  else max 0 (nCoinbaseMaturity-wtx.getDepthInMainChain P E)

/-- The hashes beside the way from a leaf to the root of the Merkle tree. -/
def merkleBranch (P : Params) : ℕ → ℕ → List UInt256 → List UInt256
  | k+1, nIndex, a::b::l =>
    ((a::b::l).getD (min (nIndex^^^1) (l.length+1)) 0)::merkleBranch P k (nIndex/2) (CBlock.merkleLevel P (a::b::l))
  | _, _, _ => []

def setMerkleBranch (P : Params) (wtx : CWalletTx) (pblock : CBlock) : CWalletTx :=
  let wtx := { wtx with hashBlock := pblock.getHash P }
  match pblock.vtx.findIdx? (· = wtx.tx) with
  | none => { wtx with vMerkleBranch := [], nIndex := -1 }
  | some nIndex => { wtx with
      nIndex := nIndex, vMerkleBranch := merkleBranch P pblock.vtx.length nIndex (pblock.vtx.map (CTransaction.getHash P)) }

/-- What is kept of a wallet transaction and another one of the same id. -/
def merge (wtx wtxIn : CWalletTx) : CWalletTx where
  tx := wtx.tx
  hashBlock := if wtxIn.hashBlock ≠ 0 then wtxIn.hashBlock else wtx.hashBlock
  vMerkleBranch := if wtxIn.nIndex ≠ -1 then wtxIn.vMerkleBranch else wtx.vMerkleBranch
  nIndex := if wtxIn.nIndex ≠ -1 then wtxIn.nIndex else wtx.nIndex
  fFromMe := wtxIn.fFromMe || wtx.fFromMe
  vfSpent := updateFlags wtx.vfSpent wtxIn.vfSpent

end CWalletTx

/-- The wallet in memory and the transactions in its file. -/
structure CWallet where
  mapWallet : HashMap CWalletTx
  mapTxSpends : List (COutPoint × UInt256)
  file : HashMap CWalletTx

inductive AvailableCoinsType where
  | ALL_COINS | ONLY_DENOMINATED | ONLY_NONDENOMINATED | ONLY_NONDENOMINATED_NOTSN
  deriving DecidableEq

namespace CWallet

variable (P : Params) (E : WalletEnv)

def isSpent (w : CWallet) (o : COutPoint) : Bool :=
  (w.mapTxSpends.filter fun e => e.1 = o).any fun e =>
    (w.mapWallet[e.2]?).any fun wtx => 0 ≤ wtx.getDepthInMainChain P E

def addToSpends (w : CWallet) (wtxid : UInt256) (wtx : CWalletTx) : CWallet :=
  { w with mapTxSpends := w.mapTxSpends++wtx.spends.map fun o => (o,wtxid) }

def writeToDisk (w : CWallet) (wtx : CWalletTx) : CWallet :=
  if E.writeTx (wtx.tx.getHash P) then { w with file := w.file.insert (wtx.tx.getHash P) wtx } else w

def addToWallet (w : CWallet) (wtxIn : CWalletTx) : CWallet :=
  match w.mapWallet[wtxIn.tx.getHash P]? with
  | none => ({ w with mapWallet := w.mapWallet.insert (wtxIn.tx.getHash P) wtxIn } : CWallet).writeToDisk P E wtxIn
  | some wtx =>
    let w := { w with mapWallet := w.mapWallet.insert (wtxIn.tx.getHash P) (wtx.merge wtxIn) }
    if wtx.merge wtxIn ≠ wtx then w.writeToDisk P E (wtx.merge wtxIn) else w

/-- The check of a record of the file. -/
def checkRecord (wtxid : UInt256) (wtx : CWalletTx) : Bool :=
  (checkTransaction wtx.tx).toBool && wtx.tx.getHash P = wtxid

/-- One record of the file. A record that does not pass the check stays in the map. -/
def loadRecord (w : CWallet) (e : UInt256 × CWalletTx) : CWallet :=
  let w := { w with mapWallet := w.mapWallet.insert e.1 e.2 }
  if checkRecord P e.1 e.2 then { w with mapWallet := w.mapWallet.insert e.1 e.2 }.addToSpends e.1 e.2 else w

def loadWallet (w : CWallet) : CWallet := w.file.toList.foldl (loadRecord P) ⟨∅,[],w.file⟩

/-- The loop of CommitTransaction that marks the coins. A coin that is not there is made
up, and marking it ends the call with an exception. -/
def markCoins : List CTxIn → CWallet → Bool × CWallet
  | [], w => (true,w)
  | txin::vin, w =>
    let coin := (w.mapWallet[txin.prevout.hash]?).getD (.ofTx ⟨1,E.nAdjustedTime,[],[],0⟩)
    match coin.markSpent txin.prevout.n.toNat with
    | none => (false,{ w with mapWallet := w.mapWallet.insert txin.prevout.hash coin })
    | some coin =>
      markCoins vin (({ w with mapWallet := w.mapWallet.insert txin.prevout.hash coin } : CWallet).writeToDisk P E coin)

def commitTransaction (w : CWallet) (wtxNew : CWalletTx) : CWallet :=
  (markCoins P E wtxNew.tx.vin (w.addToWallet P E wtxNew)).2

def getDebitIn (w : CWallet) (txin : CTxIn) : CAmount :=
  match w.mapWallet[txin.prevout.hash]? with
  | none => 0
  | some prev =>
    match prev.tx.vout[txin.prevout.n.toNat]? with
    | none => 0
    | some o => if E.isMine o then o.nValue else 0

def getDebit (w : CWallet) : CAmount → List CTxIn → Option CAmount
  | nDebit, [] => some nDebit
  | nDebit, txin::vin =>
    if moneyRange (nDebit+w.getDebitIn E txin) then w.getDebit (nDebit+w.getDebitIn E txin) vin else none

def isMine (tx : CTransaction) : Bool :=
  tx.vout.any fun o => E.isMine o && E.nMinimumInputValue ≤ o.nValue

def syncTransaction (w : CWallet) (tx : CTransaction) (pblock : CBlock) : CWallet :=
  if w.mapWallet.contains (tx.getHash P) || isMine E tx then
    w.addToWallet P E ((CWalletTx.ofTx tx).setMerkleBranch P pblock)
  else match w.getDebit E 0 tx.vin with
    | none => w
    | some nDebit => if nDebit > 0 then w.addToWallet P E ((CWalletTx.ofTx tx).setMerkleBranch P pblock) else w

/-- AvailableCoins without its guards on the value: by the type of coins asked for. -/
def isWanted (coin_type : AvailableCoinsType) (nValue : CAmount) : Bool :=
  match coin_type with
  | .ONLY_DENOMINATED => E.isDenominatedAmount nValue
  | .ONLY_NONDENOMINATED => !E.isCollateralAmount nValue && !E.isDenominatedAmount nValue
  | .ONLY_NONDENOMINATED_NOTSN =>
    !E.isCollateralAmount nValue && !E.isDenominatedAmount nValue && nValue ≠ 10000*COIN
  | .ALL_COINS => true

/-- The coins on offer. With a coin control that has a selection, only those selected. -/
def availableCoins (w : CWallet) (fOnlyConfirmed : Bool) (selected : Option (UInt256 → ℕ → Bool))
    (coin_type : AvailableCoinsType) (useIX : Bool) : List (UInt256 × ℕ) :=
  w.mapWallet.toList.flatMap fun e =>
    let pcoin := e.2
    let nDepth := pcoin.getDepthInMainChain P E
    if !E.isFinalTx pcoin.tx then []
    else if fOnlyConfirmed && !E.isTrusted pcoin then []
    else if pcoin.tx.isCoinBase && pcoin.getBlocksToMaturity P E > 0 then []
    else if pcoin.tx.isCoinStake && pcoin.getBlocksToMaturity P E > 0 then []
    else if nDepth ≤ 0 then []
    else if useIX && nDepth < 10 then []
    else (pcoin.tx.vout.zipIdx.filter fun o =>
      isWanted E coin_type o.1.nValue && pcoin.isSpent o.2 = some false && E.isMine o.1 &&
        !E.isLockedCoin e.1 o.2 && o.1.nValue > 0 && selected.all fun isSelected => isSelected e.1 o.2).map
        fun o => (e.1,o.2)

end CWallet

inductive WalletCall where
  | loadWallet
  | addToWallet (wtxIn : CWalletTx)
  | commitTransaction (wtxNew : CWalletTx)
  | syncTransaction (tx : CTransaction) (pblock : CBlock)

def CWallet.step (P : Params) (w : CWallet) (c : WalletEnv × WalletCall) : CWallet :=
  match c.2 with
  | .loadWallet => w.loadWallet P
  | .addToWallet wtxIn => w.addToWallet P c.1 wtxIn
  | .commitTransaction wtxNew => w.commitTransaction P c.1 wtxNew
  | .syncTransaction tx pblock => w.syncTransaction P c.1 tx pblock

namespace CWalletTx

variable {wtx wtx' wtx'' : CWalletTx} {n : ℕ}

structure Follows (wtx wtx' : CWalletTx) : Prop where
  tx_eq : wtx'.tx = wtx.tx
  isSpent : ∀ n, wtx.isSpent n = some true → wtx'.isSpent n = some true

theorem Follows.refl (wtx : CWalletTx) : wtx.Follows wtx := ⟨rfl,fun _ h => h⟩

theorem Follows.trans (h : wtx.Follows wtx') (h' : wtx'.Follows wtx'') : wtx.Follows wtx'' :=
  ⟨h'.tx_eq.trans h.tx_eq,fun n hn => h'.isSpent n (h.isSpent n hn)⟩

theorem isSpent_eq_true :
    wtx.isSpent n = some true ↔ n < wtx.tx.vout.length ∧ wtx.vfSpent[n]? = some true := by
  unfold isSpent
  split_ifs with h
  · simp [not_lt.mpr h]
  · cases wtx.vfSpent[n]? <;> simp [not_le.mp h]

theorem updateFlags_of_true (vfSpent vfNewSpent) (h : vfSpent[n]? = some true) :
    (updateFlags vfSpent vfNewSpent)[n]? = some true := by
  induction vfSpent generalizing vfNewSpent n with
  | nil => simp at h
  | cons f vfSpent ih =>
    cases vfNewSpent with
    | nil => exact h
    | cons fNew vfNewSpent =>
      cases n with
      | zero => simpa [updateFlags] using Or.inr (by simpa using h)
      | succ n => exact ih vfNewSpent h

theorem follows_merge (wtx wtxIn : CWalletTx) : wtx.Follows (wtx.merge wtxIn) where
  tx_eq := rfl
  isSpent := fun n h => by
    rw [isSpent_eq_true] at h ⊢
    exact ⟨h.1,updateFlags_of_true _ _ h.2⟩

theorem getElem?_resized (h : n < wtx.tx.vout.length) :
    wtx.resized[n]? = some (wtx.vfSpent[n]?.getD false) := by
  unfold resized
  by_cases hn : n < wtx.vfSpent.length
  · rw [getElem?_append_left (by simp [h,hn]),getElem?_take_of_lt h]
    simp [hn]
  · rw [getElem?_append_right (by simp; omega)]
    have hlen : n-min wtx.tx.vout.length wtx.vfSpent.length < wtx.tx.vout.length-wtx.vfSpent.length := by omega
    simp [hlen,not_lt.mp hn]

theorem markSpent_of_lt (h : n < wtx.tx.vout.length) :
    ∃ wtx', wtx.markSpent n = some wtx' ∧ wtx.Follows wtx' ∧ wtx'.isSpent n = some true := by
  have hlen : n < wtx.resized.length := by
    have := getElem?_resized h
    exact (List.getElem?_eq_some_iff.mp this).1
  refine ⟨{ wtx with vfSpent := wtx.resized.set n true },if_neg (not_le.mpr h),⟨rfl,fun m hm => ?_⟩,?_⟩
  · rw [isSpent_eq_true] at hm ⊢
    refine ⟨hm.1,?_⟩
    rw [getElem?_set]
    split_ifs with heq
    · rfl
    · rw [getElem?_resized hm.1,hm.2]
      rfl
  · rw [isSpent_eq_true]
    exact ⟨h,by simp [hlen]⟩

end CWalletTx

namespace CWallet

variable {P : Params} {E : WalletEnv} {w w' w'' : CWallet} {o : COutPoint}

/-- No transaction is lost, no flag is reset, and the table of spends is left alone. -/
structure Grows (w w' : CWallet) : Prop where
  mapWallet : ∀ (h : UInt256) wtx, w.mapWallet[h]? = some wtx → ∃ wtx', w'.mapWallet[h]? = some wtx' ∧ wtx.Follows wtx'
  mapTxSpends : w'.mapTxSpends = w.mapTxSpends

theorem Grows.refl (w : CWallet) : w.Grows w := ⟨fun _ wtx h => ⟨wtx,h,.refl wtx⟩,rfl⟩

theorem Grows.trans (h : w.Grows w') (h' : w'.Grows w'') : w.Grows w'' where
  mapWallet := fun hash wtx hx => by
    obtain ⟨wtx',hx',hf⟩ := h.mapWallet hash wtx hx
    obtain ⟨wtx'',hx'',hf'⟩ := h'.mapWallet hash wtx' hx'
    exact ⟨wtx'',hx'',hf.trans hf'⟩
  mapTxSpends := h'.mapTxSpends.trans h.mapTxSpends

theorem grows_writeToDisk (w : CWallet) (wtx) : w.Grows (w.writeToDisk P E wtx) := by
  unfold writeToDisk
  split_ifs
  · exact ⟨fun _ wtx h => ⟨wtx,h,.refl wtx⟩,rfl⟩
  · exact .refl w

theorem grows_insert (w : CWallet) (hash wtx)
    (hold : ∀ old, w.mapWallet[hash]? = some old → old.Follows wtx) :
    w.Grows { w with mapWallet := w.mapWallet.insert hash wtx } where
  mapWallet := fun h old hx => by
    dsimp only
    rw [getElem?_insert]
    split_ifs with heq
    · exact ⟨wtx,rfl,hold old (heq ▸ hx)⟩
    · exact ⟨old,hx,.refl old⟩
  mapTxSpends := rfl

theorem grows_addToWallet (w : CWallet) (wtxIn) : w.Grows (w.addToWallet P E wtxIn) := by
  unfold addToWallet
  cases hx : w.mapWallet[wtxIn.tx.getHash P]? with
  | none => exact (grows_insert w _ wtxIn (by simp [hx])).trans (grows_writeToDisk _ _)
  | some wtx =>
    have hins := grows_insert w (wtxIn.tx.getHash P) (wtx.merge wtxIn) fun old hold => by
      rw [← some.inj (hx.symm.trans hold)]
      exact wtx.follows_merge wtxIn
    dsimp only
    split_ifs
    · exact hins.trans (grows_writeToDisk _ _)
    · exact hins

/-- The outputs that some inputs spend are outputs of transactions of the wallet. -/
def knows (w : CWallet) (vin : List CTxIn) : Bool :=
  vin.all fun txin => (w.mapWallet[txin.prevout.hash]?).any fun wtx => txin.prevout.n.toNat < wtx.tx.vout.length

def marks (w : CWallet) (o : COutPoint) : Bool :=
  (w.mapWallet[o.hash]?).any fun wtx => wtx.isSpent o.n.toNat = some true

theorem Grows.marks (h : w.Grows w') (ho : w.marks o) : w'.marks o := by
  unfold CWallet.marks at ho ⊢
  obtain ⟨wtx,hx,hs⟩ := Option.any_eq_true _ _ |>.mp ho
  obtain ⟨wtx',hx',hf⟩ := h.mapWallet _ wtx hx
  rw [hx']
  simpa using hf.isSpent _ (by simpa using hs)

theorem Grows.knows {vin} (h : w.Grows w') (hk : w.knows vin) : w'.knows vin := by
  unfold CWallet.knows at hk ⊢
  rw [all_eq_true] at hk ⊢
  intro txin hin
  obtain ⟨wtx,hx,hlt⟩ := Option.any_eq_true _ _ |>.mp (hk txin hin)
  obtain ⟨wtx',hx',hf⟩ := h.mapWallet _ wtx hx
  rw [hx']
  simpa [hf.tx_eq] using hlt

theorem grows_mark {txin : CTxIn} {wtx wtx' : CWalletTx}
    (hx : w.mapWallet[txin.prevout.hash]? = some wtx) (hf : wtx.Follows wtx') :
    w.Grows (({ w with mapWallet := w.mapWallet.insert txin.prevout.hash wtx' } :
      CWallet).writeToDisk P E wtx') := by
  apply Grows.trans (grows_insert w _ wtx' ?_) (grows_writeToDisk _ _)
  intro old hold
  rwa [← some.inj (hx.symm.trans hold)]

theorem grows_markCoins (vin) (w : CWallet) : w.Grows (markCoins P E vin w).2 := by
  induction vin generalizing w with
  | nil => exact .refl w
  | cons txin vin ih =>
    rw [markCoins]
    cases hx : w.mapWallet[txin.prevout.hash]? with
    | none => exact grows_insert w _ _ (by simp [hx])
    | some wtx =>
      dsimp only [getD_some]
      by_cases hlt : txin.prevout.n.toNat < wtx.tx.vout.length
      · obtain ⟨wtx',hmark,hf,-⟩ := CWalletTx.markSpent_of_lt hlt
        rw [hmark]
        exact (grows_mark hx hf).trans (ih _)
      · have hmark : wtx.markSpent txin.prevout.n.toNat = none := if_pos (not_lt.mp hlt)
        rw [hmark]
        apply grows_insert
        intro old hold
        rw [← some.inj (hx.symm.trans hold)]
        exact .refl wtx

theorem marks_markCoins {vin : List CTxIn} (hk : w.knows vin) :
    ∀ txin ∈ vin, (markCoins P E vin w).2.marks txin.prevout := by
  induction vin generalizing w with
  | nil => simp
  | cons txin vin ih =>
    have hk' : w.knows [txin] ∧ w.knows vin := by simpa [knows] using hk
    obtain ⟨wtx,hx,hlt⟩ : ∃ wtx, w.mapWallet[txin.prevout.hash]? = some wtx ∧
        txin.prevout.n.toNat < wtx.tx.vout.length := by
      simpa [knows,Option.any_eq_true] using hk'.1
    obtain ⟨wtx',hmark,hf,hs⟩ := CWalletTx.markSpent_of_lt hlt
    rw [markCoins,hx]
    dsimp only [getD_some]
    rw [hmark]
    dsimp only
    have hgrows := grows_mark (P := P) (E := E) hx hf
    intro i hi
    rcases mem_cons.mp hi with rfl | hi
    · apply (grows_markCoins vin _).marks
      apply (grows_writeToDisk _ _).marks
      simp [marks,hs]
    · exact ih (hgrows.knows hk'.2) i hi

theorem grows_commitTransaction (w : CWallet) (wtxNew) : w.Grows (w.commitTransaction P E wtxNew) :=
  (grows_addToWallet w wtxNew).trans (grows_markCoins _ _)

theorem marks_commitTransaction {wtxNew} (hk : w.knows wtxNew.tx.vin)
    (ho : o ∈ wtxNew.tx.prevouts) :
    (w.commitTransaction P E wtxNew).marks o := by
  obtain ⟨txin,hin,rfl⟩ := mem_map.mp ho
  exact marks_markCoins ((grows_addToWallet w wtxNew).knows hk) txin hin

theorem grows_syncTransaction (w : CWallet) (tx pblock) :
    w.Grows (w.syncTransaction P E tx pblock) := by
  unfold syncTransaction
  split_ifs
  · exact grows_addToWallet w _
  · cases w.getDebit E 0 tx.vin with
    | none => exact .refl w
    | some nDebit =>
      dsimp only
      split_ifs
      · exact grows_addToWallet w _
      · exact .refl w

/-- The table has the spends of every transaction that passes the check of the records. -/
def Recorded (P : Params) (w : CWallet) : Prop :=
  ∀ (wtxid : UInt256) wtx, w.mapWallet[wtxid]? = some wtx → checkRecord P wtxid wtx = true →
    ∀ o ∈ wtx.spends, (o,wtxid) ∈ w.mapTxSpends

theorem Recorded.loadRecord (hw : w.Recorded P) (e) : (w.loadRecord P e).Recorded P := by
  intro wtxid wtx hx hcheck o ho
  unfold CWallet.loadRecord at hx ⊢
  by_cases hload : checkRecord P e.1 e.2
  · rw [if_pos hload] at hx ⊢
    dsimp only [addToSpends] at hx ⊢
    rw [getElem?_insert,getElem?_insert] at hx
    rw [mem_append]
    split_ifs at hx with heq
    · cases hx
      exact Or.inr (mem_map.mpr ⟨o,ho,by rw [heq]⟩)
    · exact Or.inl (hw wtxid wtx hx hcheck o ho)
  · rw [if_neg hload] at hx ⊢
    dsimp only at hx ⊢
    rw [getElem?_insert] at hx
    split_ifs at hx with heq
    · cases hx
      exact absurd (heq ▸ hcheck) hload
    · exact hw wtxid wtx hx hcheck o ho

theorem recorded_loadWallet (w : CWallet) : (w.loadWallet P).Recorded P := by
  apply foldlRecOn
  · intro wtxid wtx hx
    simp at hx
  · exact fun w hw e _ => hw.loadRecord e

end CWallet

variable {P : Params} {E : WalletEnv}

/-- A run with the wallet as the last load left it, and the outputs that the transactions
committed since then spend, as far as they are all outputs of the wallet. -/
structure LoadRun where
  loaded : CWallet
  committed : List COutPoint
  wallet : CWallet

def LoadRun.step (P : Params) (r : LoadRun) (c : WalletEnv × WalletCall) : LoadRun :=
  match c.2 with
  | .loadWallet => ⟨r.wallet.step P c,[],r.wallet.step P c⟩
  | .commitTransaction wtxNew =>
    ⟨r.loaded,if r.wallet.knows wtxNew.tx.vin then r.committed++wtxNew.tx.prevouts else r.committed,r.wallet.step P c⟩
  | _ => ⟨r.loaded,r.committed,r.wallet.step P c⟩

def LoadRun.run (P : Params) (file : HashMap CWalletTx) (l : List (WalletEnv × WalletCall)) :
    LoadRun :=
  l.foldl (LoadRun.step P) ⟨⟨∅,[],file⟩,[],⟨∅,[],file⟩⟩

theorem LoadRun.run_wallet (file l) :
    (LoadRun.run P file l).wallet = l.foldl (CWallet.step P) ⟨∅,[],file⟩ := by
  refine (foldl_hom LoadRun.wallet fun r c => ?_).symm
  obtain ⟨E,c⟩ := c
  cases c <;> rfl

structure LoadRun.Inv (P : Params) (r : LoadRun) : Prop where
  recorded : r.loaded.Recorded P
  grows : r.loaded.Grows r.wallet
  committed : ∀ o ∈ r.committed, r.wallet.marks o = true

variable {r : LoadRun} {w : CWallet} {wtx : CWalletTx}

theorem LoadRun.Inv.of_grows (h : r.Inv P) (hw : r.wallet.Grows w) :
    LoadRun.Inv P ⟨r.loaded,r.committed,w⟩ :=
  ⟨h.recorded,h.grows.trans hw,fun o ho => hw.marks (h.committed o ho)⟩

theorem LoadRun.Inv.step (h : r.Inv P) (c : WalletEnv × WalletCall) : (r.step P c).Inv P := by
  obtain ⟨E,c⟩ := c
  cases c with
  | loadWallet => exact ⟨CWallet.recorded_loadWallet r.wallet,.refl _,by simp [LoadRun.step]⟩
  | addToWallet wtxIn => exact h.of_grows (CWallet.grows_addToWallet r.wallet wtxIn)
  | syncTransaction tx pblock => exact h.of_grows (CWallet.grows_syncTransaction r.wallet tx pblock)
  | commitTransaction wtxNew =>
    have hinv := h.of_grows (CWallet.grows_commitTransaction (P := P) (E := E) r.wallet wtxNew)
    refine ⟨h.recorded,hinv.grows,?_⟩
    intro o ho
    dsimp only [LoadRun.step] at ho ⊢
    split_ifs at ho with hk
    · rcases mem_append.mp ho with ho | ho
      · exact hinv.committed o ho
      · exact CWallet.marks_commitTransaction hk ho
    · exact hinv.committed o ho

theorem LoadRun.inv_run (file : HashMap CWalletTx) (l : List (WalletEnv × WalletCall)) :
    (LoadRun.run P file l).Inv P := by
  apply foldlRecOn
  · exact ⟨fun wtxid wtx hx => by simp at hx,.refl _,by simp⟩
  · exact fun r h c _ => h.step c

theorem CWallet.notMem_availableCoins {h n} (hx : w.mapWallet[h]? = some wtx)
    (hs : wtx.isSpent n = some true) (fOnlyConfirmed selected coin_type useIX) :
    (h,n) ∉ w.availableCoins P E fOnlyConfirmed selected coin_type useIX := by
  intro hmem
  obtain ⟨e,he,hmem⟩ := mem_flatMap.mp hmem
  dsimp only at hmem
  split_ifs at hmem
  all_goals first
    | exact absurd hmem not_mem_nil
    | obtain ⟨o,ho,heq⟩ := mem_map.mp hmem
      cases heq
      have hwtx : e.2 = wtx := some.inj ((Std.ExtTreeMap.mem_toList_iff_getElem?_eq_some.mp he).symm.trans hx)
      have hfree := (mem_filter.mp ho).2
      simp [hwtx,hs] at hfree

/-- In the state of the chain, every output of a wallet transaction that another wallet
transaction of the main chain spends is spent in both records, and not on offer. -/
def SpentTracked (P : Params) (E : WalletEnv) (w : CWallet) : Prop :=
  ∀ (wtxid : UInt256) wtx, w.mapWallet[wtxid]? = some wtx → 0 < wtx.getDepthInMainChainINTERNAL E →
    ∀ o ∈ wtx.spends, o.hash ≠ wtxid → ∀ prev, w.mapWallet[o.hash]? = some prev → o.n.toNat < prev.tx.vout.length →
      w.isSpent P E o = true ∧ prev.isSpent o.n.toNat = some true ∧
        ∀ fOnlyConfirmed selected coin_type useIX,
          (o.hash,o.n.toNat) ∉ w.availableCoins P E fOnlyConfirmed selected coin_type useIX

/-- Every such transaction was in the wallet when it was loaded last, and the output was
marked then or a transaction committed since then spends it. -/
def KnownAtLoad (P : Params) (E : WalletEnv) (r : LoadRun) : Prop :=
  ∀ e ∈ r.wallet.mapWallet.toList, 0 < e.2.getDepthInMainChainINTERNAL E →
    ∀ o ∈ e.2.spends, o.hash ≠ e.1 → ∀ prev ∈ r.wallet.mapWallet[o.hash]?, o.n.toNat < prev.tx.vout.length →
      (r.loaded.mapWallet[e.1]?).any (CWallet.checkRecord P e.1) = true ∧ (r.loaded.marks o = true ∨ o ∈ r.committed)

instance (r : LoadRun) : Decidable (KnownAtLoad P E r) :=
  inferInstanceAs (Decidable (∀ e ∈ r.wallet.mapWallet.toList, _ → ∀ o ∈ e.2.spends, _ →
    ∀ prev ∈ r.wallet.mapWallet[o.hash]?, _ → _))

theorem getDepthInMainChain_pos (h : 0 < wtx.getDepthInMainChainINTERNAL E) :
    0 < wtx.getDepthInMainChain P E := by
  unfold CWalletTx.getDepthInMainChain
  dsimp only
  rw [if_neg (by simp [h.ne'])]
  split_ifs
  · omega
  · exact h

theorem isSpent_of_loaded (hinv : r.Inv P) {wtxid o} (hx : r.wallet.mapWallet[wtxid]? = some wtx)
    (hdepth : 0 < wtx.getDepthInMainChainINTERNAL E) (ho : o ∈ wtx.spends)
    (hloaded : (r.loaded.mapWallet[wtxid]?).any (CWallet.checkRecord P wtxid)) :
    r.wallet.isSpent P E o := by
  obtain ⟨wtx₀,hx₀,hcheck⟩ := Option.any_eq_true _ _ |>.mp hloaded
  obtain ⟨wtx',hx',hf⟩ := hinv.grows.mapWallet wtxid wtx₀ hx₀
  obtain rfl := some.inj (hx.symm.trans hx')
  have hspends : o ∈ wtx₀.spends := by
    rw [CWalletTx.spends,hf.tx_eq] at ho
    exact ho
  have hmem : (o,wtxid) ∈ r.wallet.mapTxSpends :=
    hinv.grows.mapTxSpends ▸ hinv.recorded wtxid wtx₀ hx₀ hcheck o hspends
  rw [CWallet.isSpent,any_eq_true]
  refine ⟨(o,wtxid),mem_filter.mpr ⟨hmem,by simp⟩,?_⟩
  rw [hx]
  simpa using (getDepthInMainChain_pos hdepth).le

/-- If every transaction of the chain that spends an output of the wallet was there at the
last load, with the output marked then or by a commit, then the output is not offered. -/
theorem wallet_spent_tracked (file : HashMap CWalletTx) (l : List (WalletEnv × WalletCall))
    (h : KnownAtLoad P E (LoadRun.run P file l)) :
    SpentTracked P E (l.foldl (CWallet.step P) ⟨∅,[],file⟩) := by
  have hinv := LoadRun.inv_run (P := P) file l
  rw [← LoadRun.run_wallet]
  intro wtxid wtx hx hdepth o ho hne prev hprev hlt
  obtain ⟨hloaded,hmarked⟩ :=
    h (wtxid,wtx) (Std.ExtTreeMap.mem_toList_iff_getElem?_eq_some.mpr hx) hdepth o ho hne prev hprev hlt
  have hmarks : (LoadRun.run P file l).wallet.marks o = true := by
    rcases hmarked with hmarked | hmarked
    · exact hinv.grows.marks hmarked
    · exact hinv.committed o hmarked
  have hs : prev.isSpent o.n.toNat = some true := by
    rw [CWallet.marks,hprev] at hmarks
    simpa using hmarks
  exact ⟨isSpent_of_loaded hinv hx hdepth ho hloaded,hs,CWallet.notMem_availableCoins hprev hs⟩

/-! A coin of the wallet and a transaction that spends it, by this wallet or by a copy. -/
/-- A wallet transaction as staking reads it. -/
def CWalletTx.staking (P : Params) (E : WalletEnv) (wtx : CWalletTx) : DarkSilk.CWalletTx :=
  ⟨wtx.tx,wtx.getDepthInMainChain P E,wtx.getBlocksToMaturity P E,fun i => (wtx.isSpent i).getD true⟩

/-- An output whose flag is set is not staked. -/
theorem not_staked_of_isSpent {n : ℕ} (hs : wtx.isSpent n = some true) (w : DarkSilk.CWallet P)
    {nSpendTime c} (hc : c ∈ w.availableCoinsForStaking nSpendTime)
    (hcoin : c.pcoin = wtx.staking P E) :
    c.i.val ≠ n := by
  intro hn
  obtain ⟨e,-,he⟩ := mem_flatMap.mp hc
  dsimp only at he
  split_ifs at he
  · cases he
  · cases he
  · obtain ⟨i,hi,rfl⟩ := mem_map.mp he
    have hflag : e.2.isSpent i.val = true := by
      rw [show i.val = n from hn,show e.2 = wtx.staking P E from hcoin,CWalletTx.staking]
      simp [hs]
    simp [hflag] at hi

namespace Sample

open DarkSilk.Sample

def walletEnv : WalletEnv where
  isMine := fun _ => true
  nMinimumInputValue := 0
  nAdjustedTime := 500
  writeTx := fun _ => true
  mapBlockIndex := fun _ => some ⟨5,true⟩
  nBestHeight := 20
  merkleVerified := fun _ => true
  mempoolExists := fun _ => false
  nInstantXDepth := 10
  isLocked := fun _ => false
  isFinalTx := fun _ => true
  isTrusted := fun _ => true
  isLockedCoin := fun _ _ => false
  isDenominatedAmount := fun _ => false
  isCollateralAmount := fun _ => false

def coinTx : CTransaction := payment 100 [⟨7,0⟩] [⟨COIN,opTrue⟩]

def spendTx : CTransaction := payment 200 [⟨coinTx.getHash params,0⟩] [⟨COIN/2,opTrue⟩]

def walletFile : HashMap CWalletTx :=
  (∅ : HashMap CWalletTx).insert (coinTx.getHash params) ⟨coinTx,1,[],0,false,[]⟩

def load : WalletEnv × WalletCall := (walletEnv,.loadWallet)
def commit : WalletEnv × WalletCall := (walletEnv,.commitTransaction (.ofTx spendTx))
def sync : WalletEnv × WalletCall := (walletEnv,.syncTransaction spendTx (block 9 210 [spendTx]))

def walletAfter (l : List (WalletEnv × WalletCall)) : CWallet :=
  l.foldl (CWallet.step params) ⟨∅,[],walletFile⟩

def coin : COutPoint := ⟨coinTx.getHash params,0⟩

/-- The transaction that spends the coin is in the main chain. -/
def spentInChain (w : CWallet) : Bool :=
  (w.mapWallet[spendTx.getHash params]?).any fun wtx => 0 < wtx.getDepthInMainChainINTERNAL walletEnv

end Sample

open DarkSilk.Sample DarkSilk.WalletSpends.Sample

theorem wallet_spent_tracked_reload :
    SpentTracked params walletEnv (walletAfter [load,commit,load,sync]) ∧
      spentInChain (walletAfter [load,commit,load,sync]) = true :=
  ⟨wallet_spent_tracked walletFile _ (by decide +kernel),by decide +kernel⟩

/-- The spend of a copy of the wallet is in neither record and the coin is on offer, and
that of the wallet itself is not in the table. -/
theorem wallet_spent_untracked :
    spentInChain (walletAfter [load,sync]) = true ∧
      (walletAfter [load,sync]).isSpent params walletEnv coin = false ∧
      (walletAfter [load,sync]).marks coin = false ∧
      (coin.hash,0) ∈ (walletAfter [load,sync]).availableCoins params walletEnv true none .ALL_COINS
        false ∧
      spentInChain (walletAfter [load,commit,sync]) = true ∧
      (walletAfter [load,commit,sync]).isSpent params walletEnv coin = false ∧
      (walletAfter [load,commit,sync]).marks coin = true := by
  decide +kernel

end WalletSpends
end DarkSilk
