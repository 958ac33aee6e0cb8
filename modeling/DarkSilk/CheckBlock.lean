import DarkSilk.Script

/-! The context-free checks: every transaction by itself, and a block by itself up to
the clock and the transaction locks. -/
namespace DarkSilk

/-- What the functions see of the node around them: the clock, the transaction locks,
the block files, the second transaction map of the memory pool, and whether a read
of a block file or a database commit goes through. -/
structure World where
  adjustedTime : ℤ
  sporkInstantX : Bool
  mapLockedInputs : COutPoint → Option UInt256
  readTx : CDiskTxPos → Option CTransaction
  lookup : UInt256 → Option CTransaction
  readOk : Bool
  commitOk : Bool

def checkOutputs (tx : CTransaction) : CAmount → List CTxOut → Except Reject Unit
  | _, [] => .ok ()
  | nValueOut, o::vout => do
    require (!(o.isEmpty && !tx.isCoinBase && !tx.isCoinStake)) 100
      "CTransaction::CheckTransaction() : txout empty for user transaction"
    require (0 ≤ o.nValue) 100 "CTransaction::CheckTransaction() : txout.nValue negative"
    require (o.nValue ≤ MAX_MONEY) 100 "CTransaction::CheckTransaction() : txout.nValue too high"
    require (moneyRange (nValueOut+o.nValue)) 100
      "CTransaction::CheckTransaction() : txout total out of range"
    checkOutputs tx (nValueOut+o.nValue) vout

def checkTransaction (tx : CTransaction) : Except Reject Unit := do
  require (!tx.vin.isEmpty) 10 "CTransaction::CheckTransaction() : vin empty"
  require (!tx.vout.isEmpty) 10 "CTransaction::CheckTransaction() : vout empty"
  require (tx.serialize.length ≤ MAX_BLOCK_SIZE) 100
    "CTransaction::CheckTransaction() : size limits failed"
  checkOutputs tx 0 tx.vout
  require (decide tx.prevouts.Nodup) 0 ""
  if tx.isCoinBase then
    checkAll (fun i => require (2 ≤ i.scriptSig.length && i.scriptSig.length ≤ 100) 100
      "CTransaction::CheckTransaction() : coinbase script size is invalid") (tx.vin.take 1)
  else
    checkAll (fun i => require (!i.prevout.isNull) 10
      "CTransaction::CheckTransaction() : prevout is null") tx.vin

theorem addValueOut_of_checkOutputs {tx a vout} (h : checkOutputs tx a vout = .ok ()) :
    (CTransaction.addValueOut a vout).isSome := by
  induction vout generalizing a with
  | nil => rfl
  | cons o vout ih =>
    simp only [checkOutputs,andThen_eq_ok,require_eq_ok,decide_eq_true_eq] at h
    obtain ⟨-,h1,h2,h3,h4⟩ := h
    have hr : moneyRange o.nValue := by simp [moneyRange,h1,h2]
    simpa [CTransaction.addValueOut,hr,h3] using ih h4

structure CTransaction.Checked (tx : CTransaction) : Prop where
  vin_ne : tx.vin ≠ []
  size : tx.serialize.length ≤ MAX_BLOCK_SIZE
  valueOut : tx.getValueOut.isSome
  nodup : tx.prevouts.Nodup
  coinbase : tx.isCoinBase → ∀ i ∈ tx.vin, i.scriptSig.length ≤ 100
  prevout : tx.isCoinBase = false → ∀ i ∈ tx.vin, i.prevout.isNull = false

theorem checked_of_checkTransaction {tx} (h : checkTransaction tx = .ok ()) : tx.Checked := by
  simp only [checkTransaction,andThen_eq_ok,require_eq_ok,decide_eq_true_eq,Bool.not_eq_true',
    List.isEmpty_eq_false_iff] at h
  obtain ⟨h1,-,h3,h4,h5,h6⟩ := h
  refine ⟨h1,h3,addValueOut_of_checkOutputs h4,h5,fun hc i hi => ?_,fun hc i hi => ?_⟩
  · simp only [hc,if_true,checkAll_eq_ok,require_eq_ok,Bool.and_eq_true,decide_eq_true_eq] at h6
    unfold CTransaction.isCoinBase at hc
    split at hc
    · rename_i txin hv
      rw [hv] at h6 hi
      exact (h6 i (by simpa using hi)).2
    · cases hc
  · simp only [hc,Bool.false_eq_true,if_false,checkAll_eq_ok,require_eq_ok,Bool.not_eq_true'] at h6
    exact h6 i hi

variable (P : Params) (W : World)

def checkProofOfWork (hash : UInt256) (nBits : UInt32) : Bool :=
  let bnTarget := setCompact nBits
  0 < bnTarget && bnTarget ≤ P.proofOfWorkLimit && hash ≤ BitVec.ofInt 256 bnTarget

def POW_DRIFT : ℤ := 10*60
def POS_DRIFT : ℤ := 10*64

def futureDrift (nTime : ℤ) (fProofOfStake : Bool) : ℤ :=
  nTime+(if fProofOfStake then POS_DRIFT else POW_DRIFT)

def checkBlockSignature (b : CBlock) : Bool :=
  if b.isProofOfWork then b.vchBlockSig.isEmpty
  else !b.vchBlockSig.isEmpty && P.checkProofOfStakeSig b

/-- A locked input may only be spent by the transaction that holds the lock. -/
def checkLocks (tx : CTransaction) : Except Reject Unit :=
  if tx.isCoinBase then .ok ()
  else checkAll (fun i => match W.mapLockedInputs i.prevout with
    | none => .ok ()
    | some hash => require (hash = tx.getHash P) 0
        "CheckBlock() : found conflicting transaction with transaction lock") tx.vin

def checkStakeLayout (b : CBlock) : Except Reject Unit := do
  require (match b.vtx with | tx::_ => tx.vout.length = 1 && tx.vout.all CTxOut.isEmpty | [] => false) 100
    "CheckBlock() : coinbase output not empty for proof-of-stake block"
  require (match b.vtx with | _::tx::_ => tx.isCoinStake | _ => false) 100
    "CheckBlock() : second tx is not coinstake"
  checkAll (fun tx => require (!tx.isCoinStake) 100 "CheckBlock() : more than one coinstake") (b.vtx.drop 2)

def checkBlockTx (b : CBlock) (tx : CTransaction) : Except Reject Unit := do
  match checkTransaction tx with
  | .ok _ => .ok ()
  | .error e => .error ⟨e.nDoS,"CheckBlock() : CheckTransaction failed"⟩
  require ((tx.nTime.toNat : ℤ) ≤ b.getBlockTime) 50
    "CheckBlock() : block timestamp earlier than transaction timestamp"

def checkBlock (b : CBlock) (fCheckPOW fCheckMerkleRoot fCheckSig : Bool) : Except Reject Unit := do
  require (!b.vtx.isEmpty && b.vtx.length ≤ MAX_BLOCK_SIZE && b.serialize.length ≤ MAX_BLOCK_SIZE) 100
    "CheckBlock() : size limits failed"
  require (!(fCheckPOW && b.isProofOfWork && !checkProofOfWork P (b.getPoWHash P) b.nBits)) 50
    "CheckBlock() : proof of work failed"
  require (b.getBlockTime ≤ futureDrift W.adjustedTime b.isProofOfStake) 0
    "CheckBlock() : block timestamp too far in the future"
  require (match b.vtx with | tx::_ => tx.isCoinBase | [] => false) 100
    "CheckBlock() : first tx is not coinbase"
  checkAll (fun tx => require (!tx.isCoinBase) 100 "CheckBlock() : more than one coinbase") (b.vtx.drop 1)
  (if b.isProofOfStake then checkStakeLayout b else .ok ())
  require (!(fCheckSig && !checkBlockSignature P b)) 100
    "CheckBlock() : bad proof-of-stake block signature"
  (if W.sporkInstantX then checkAll (checkLocks P W) b.vtx else .ok ())
  checkAll (checkBlockTx b) b.vtx
  require (decide (b.vtx.map (CTransaction.getHash P)).Nodup) 100 "CheckBlock() : duplicate transaction"
  require ((b.vtx.map Script.getLegacySigOpCount).sum ≤ MAX_BLOCK_SIGOPS) 100
    "CheckBlock() : out-of-bounds SigOpCount"
  require (!(fCheckMerkleRoot && b.hashMerkleRoot ≠ b.buildMerkleTree P)) 100
    "CheckBlock() : hashMerkleRoot mismatch"

structure CBlock.Checked (b : CBlock) : Prop where
  layout : ∃ cb txs, b.vtx = cb::txs ∧ cb.isCoinBase ∧ ∀ tx ∈ txs, tx.isCoinBase = false
  stake : b.isProofOfStake → (∃ cb txs, b.vtx = cb::txs ∧ valueSum cb.vout = 0) ∧
    ∃ cb cs txs, b.vtx = cb::cs::txs ∧ cs.isCoinStake ∧ ∀ tx ∈ txs, tx.isCoinStake = false
  txs : ∀ tx ∈ b.vtx, tx.Checked
  txids : (b.vtx.map (CTransaction.getHash P)).Nodup

theorem checked_of_checkBlockTx {b tx} (h : checkBlockTx b tx = .ok ()) : tx.Checked := by
  apply checked_of_checkTransaction
  unfold checkBlockTx at h
  cases hc : checkTransaction tx with
  | ok u => rfl
  | error e => simp [hc,bind,Except.bind] at h

theorem stake_of_checkStakeLayout {b} (h : checkStakeLayout b = .ok ()) :
    (∃ cb txs, b.vtx = cb::txs ∧ valueSum cb.vout = 0) ∧
      ∃ cb cs txs, b.vtx = cb::cs::txs ∧ cs.isCoinStake ∧ ∀ tx ∈ txs, tx.isCoinStake = false := by
  simp only [checkStakeLayout,andThen_eq_ok,require_eq_ok,checkAll_eq_ok,Bool.not_eq_true'] at h
  obtain ⟨h1,h2,h3⟩ := h
  rcases hv : b.vtx with _ | ⟨cb,_ | ⟨cs,txs⟩⟩ <;> simp only [hv,Bool.false_eq_true] at h1 h2
  rw [hv] at h3
  refine ⟨⟨cb,cs::txs,rfl,?_⟩,⟨cb,cs,txs,rfl,h2,h3⟩⟩
  rcases hcb : cb.vout with _ | ⟨o,_ | ⟨o',os⟩⟩ <;> simp_all [CTxOut.isEmpty]

theorem checked_of_checkBlock {b fCheckPOW fCheckMerkleRoot fCheckSig}
    (h : checkBlock P W b fCheckPOW fCheckMerkleRoot fCheckSig = .ok ()) : b.Checked P := by
  simp only [checkBlock,andThen_eq_ok,checkAll_eq_ok] at h
  obtain ⟨-,-,-,hcb,hrest,hstake,-,-,htx,hids,-,-⟩ := h
  simp only [require_eq_ok,Bool.not_eq_true',decide_eq_true_eq] at hcb hrest hids
  refine ⟨?_,?_,fun tx htx' => checked_of_checkBlockTx (htx tx htx'),hids⟩
  · cases hv : b.vtx with
    | nil => simp [hv] at hcb
    | cons cb txs => exact ⟨cb,txs,rfl,by simpa [hv] using hcb,by simpa [hv] using hrest⟩
  · intro hs
    exact stake_of_checkStakeLayout (by simpa [hs] using hstake)

end DarkSilk
