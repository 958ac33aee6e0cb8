import DarkSilk.BestChain

/-! A block enters the block index: the checks against its predecessor, the new index
entry, and the call that makes it the best block if its chain has the most trust. -/
namespace DarkSilk

open BatchStore

/-- What the outside world answers while one block is accepted: the proof hash of a
valid kernel, the disk, and the stake modifier. -/
structure AcceptEnv where
  adjustedTime : ℤ
  proofOfStake : Option UInt256
  diskSpace : Bool
  slot : Option { p : UInt32 × UInt32 // p.1 ≠ 0xFFFFFFFF }
  stakeModifier : Bool
  commitOk : Bool
  world : CBlockIndex → World

def CURRENT_VERSION : Int32 := 2
def STAKE_TIMESTAMP_MASK : ℕ := 15
def LOCKTIME_THRESHOLD : ℤ := 500000000

def checkCoinStakeTimestamp (nTimeBlock nTimeTx : ℕ) : Bool :=
  nTimeBlock = nTimeTx && nTimeTx &&& STAKE_TIMESTAMP_MASK = 0

def isFinalTx (nBestHeight adjustedTime : ℤ) (tx : CTransaction) (nBlockHeight nBlockTime : ℤ) :
    Bool :=
  let nLockTime : ℤ := tx.nLockTime.toNat
  let nBlockHeight := if nBlockHeight = 0 then nBestHeight else nBlockHeight
  let nBlockTime := if nBlockTime = 0 then adjustedTime else nBlockTime
  nLockTime = 0 || nLockTime < (if nLockTime < LOCKTIME_THRESHOLD then nBlockHeight else nBlockTime) ||
    tx.vin.all fun i => i.nSequence = 0xFFFFFFFF

namespace Checkpoints

def nCheckpointSpan : ℕ := 5000

/-- Back from the best block until the span is left, or to the first block. -/
def autoSelectSyncCheckpoint (nHeightBest : ℕ) : BlockIndexData → List BlockIndexData → CBlockIndex
  | d, [] => ⟨d,[]⟩
  | d, d'::ds =>
    if nHeightBest < ds.length+1+nCheckpointSpan then autoSelectSyncCheckpoint nHeightBest d' ds
    else ⟨d,d'::ds⟩

def checkSync (tip : Tip) (nHeight : ℕ) : Bool :=
  (autoSelectSyncCheckpoint tip.pindexBest.nHeight tip.pindexBest.data tip.pindexBest.ancestors).nHeight < nHeight

end Checkpoints

variable (P : Params) (A : AcceptEnv)

def CBlock.coinbaseScript (b : CBlock) : Option CScript :=
  ((b.vtx.head?).bind fun tx => tx.vin.head?).map CTxIn.scriptSig

def proofHash (b : CBlock) : Except Reject UInt256 :=
  if b.isProofOfStake then
    match A.proofOfStake with
    | none => .error ⟨0,"AcceptBlock() : check proof-of-stake failed"⟩
    | some hashProof => .ok hashProof
  else .ok (b.getPoWHash P)

/-- The checks of AcceptBlock on a block with a known predecessor. A block without
transactions never gets here. -/
def acceptChecksOn (tip : Tip) (b : CBlock) (pindexPrev : CBlockIndex) : Except Reject UInt256 := do
  let nHeight := pindexPrev.nHeight+1
  require (!(b.isProofOfStake && nHeight < P.firstPOSBlock)) 100 "AcceptBlock() : reject proof-of-stake at height"
  require ((b.vtx.head?).any fun tx => b.getBlockTime ≤ futureDrift tx.nTime.toNat b.isProofOfStake) 50
    "AcceptBlock() : coinbase timestamp is too early"
  require (!b.isProofOfStake || (b.vtx[1]?).any fun tx => checkCoinStakeTimestamp b.nTime.toNat tx.nTime.toNat) 50
    "AcceptBlock() : coinstake timestamp violation"
  require (b.nBits = P.getNextTargetRequired pindexPrev b.isProofOfStake) 100
    (if b.isProofOfWork then "AcceptBlock() : incorrect proof-of-work"
     else "AcceptBlock() : incorrect proof-of-stake")
  require (!(b.getBlockTime ≤ pindexPrev.getBlockTime ||
      futureDrift b.getBlockTime b.isProofOfStake < pindexPrev.getBlockTime)) 0
    "AcceptBlock() : block's timestamp is too early"
  checkAll (fun tx => require (isFinalTx tip.nBestHeight A.adjustedTime tx nHeight b.getBlockTime) 10
    "AcceptBlock() : contains a non-final transaction") b.vtx
  require (Checkpoints.checkHardened P nHeight (b.getHash P)) 100
    "AcceptBlock() : rejected by hardened checkpoint lock-in"
  let hashProof ← proofHash P A b
  require (Checkpoints.checkSync tip nHeight) 0 "AcceptBlock() : rejected by synchronized checkpoint"
  require (b.coinbaseScript.any fun scriptSig => Script.startsWithHeight scriptSig nHeight) 100
    "AcceptBlock() : block height mismatch in coinbase"
  require A.diskSpace 0 "AcceptBlock() : out of disk space"
  .ok hashProof

def acceptChecks (tip : Tip) (b : CBlock) (mapBlockIndex : HashMap CBlockIndex) :
    Except Reject (CBlockIndex × UInt256) := do
  require (b.nVersion ≤ CURRENT_VERSION) 100 "AcceptBlock() : reject unknown block version"
  require (!mapBlockIndex.contains (b.getHash P)) 0 "AcceptBlock() : block already in mapBlockIndex"
  match mapBlockIndex[b.hashPrevBlock]? with
  | none => .error ⟨10,"AcceptBlock() : prev block not found"⟩
  | some pindexPrev => do
    let hashProof ← acceptChecksOn P A tip b pindexPrev
    .ok (pindexPrev,hashProof)

def newIndex (b : CBlock) (slot : { p : UInt32 × UInt32 // p.1 ≠ 0xFFFFFFFF }) (hashProof : UInt256)
    (mapBlockIndex : HashMap CBlockIndex) : CBlockIndex where
  data := ⟨b.getHash P,slot.1.1,slot.1.2,hashProof,b,slot.2⟩
  ancestors := ((mapBlockIndex[b.hashPrevBlock]?).map CBlockIndex.path).getD []

/-- Put a new entry, with no successor and no amounts yet, into the index and write
its record. A failed commit does not take the entry out of memory again. -/
def Node.addIndex (n : Node) (pindexNew : CBlockIndex) : Node :=
  let hash := pindexNew.getBlockHash
  let s := { n.chain with
    pnext := Function.update n.chain.pnext hash none
    nMint := Function.update n.chain.nMint hash 0
    nMoneySupply := Function.update n.chain.nMoneySupply hash 0 }
  let db := (CTxDB.writeBlockIndex s.txdb.txnBegin (s.diskIndex pindexNew)).txnCommit A.commitOk
  { n with chain := { s with txdb := db }, mapBlockIndex := n.mapBlockIndex.insert hash pindexNew }

def addToBlockIndex (b : CBlock) (slot : { p : UInt32 × UInt32 // p.1 ≠ 0xFFFFFFFF })
    (hashProof : UInt256) (n : Node) : Option (Except Reject Unit × Node) :=
  if n.mapBlockIndex.contains (b.getHash P) then
    some (.error ⟨0,"AddToBlockIndex() : already exists"⟩,n)
  else if !A.stakeModifier then
    some (.error ⟨0,"AddToBlockIndex() : ComputeNextStakeModifier() failed"⟩,n)
  else
    let pindexNew := newIndex P b slot hashProof n.mapBlockIndex
    let n := n.addIndex A pindexNew
    if !A.commitOk then some (.error ⟨0,""⟩,n)
    else if n.nBestChainTrust < pindexNew.nChainTrust then setBestChain P A.world pindexNew n
    else some (.ok (),n)

def acceptBlock (b : CBlock) (n : Node) : Option (Except Reject Unit × Node) :=
  match n.tip with
  | none => none
  | some tip =>
    match acceptChecks P A tip b n.mapBlockIndex with
    | .error e => some (.error e,n)
    | .ok (_,hashProof) =>
      match A.slot with
      | none => some (.error ⟨0,"AcceptBlock() : WriteToDisk failed"⟩,n)
      | some slot => (addToBlockIndex P A b slot hashProof n).map fun r =>
          (match r.1 with
            | .error _ => .error ⟨0,"AcceptBlock() : AddToBlockIndex failed"⟩
            | .ok _ => .ok (),r.2)

variable {P} {A} {tip : Tip} {b : CBlock} {m : HashMap CBlockIndex}

def HeightRule (b : CBlock) (nHeight : ℕ) : Prop :=
  ∃ scriptSig, b.coinbaseScript = some scriptSig ∧ Script.startsWithHeight scriptSig nHeight

theorem acceptChecks_spec {pindexPrev hashProof}
    (h : acceptChecks P A tip b m = .ok (pindexPrev,hashProof)) :
    m[b.getHash P]? = none ∧ m[b.hashPrevBlock]? = some pindexPrev ∧
      HeightRule b (pindexPrev.nHeight+1) := by
  simp only [acceptChecks,andThen_eq_ok,require_eq_ok] at h
  obtain ⟨-,hnew,h⟩ := h
  rw [Std.ExtTreeMap.contains_eq_isSome_getElem?,Option.not_isSome,Option.isNone_iff_eq_none] at hnew
  split at h
  · cases h
  · rename_i p hp
    obtain ⟨hash,hc,h⟩ := bind_eq_ok.mp h
    cases h
    refine ⟨hnew,hp,?_⟩
    simp only [acceptChecksOn,bind_eq_ok,require_eq_ok] at hc
    obtain ⟨_,-,_,-,_,-,_,-,_,-,_,-,_,-,_,-,_,-,_,hheight,-⟩ := hc
    obtain ⟨script,hs,hp⟩ := (Option.any_eq_true _ _).mp hheight
    exact ⟨script,hs,hp⟩

end DarkSilk
