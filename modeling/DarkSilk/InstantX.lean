import DarkSilk.BlockFile
import DarkSilk.Runs
import DarkSilk.Solver

/-! Transaction locks. A lock request is announced by `ix`, stormnodes vote for it by
`txlvote`, and a lock with enough votes locks the inputs of its transaction. Votes and
requests come in any order, and locks expire. -/
namespace DarkSilk

open List

def INSTANTX_SIGNATURES_REQUIRED : ℤ := 10
def INSTANTX_SIGNATURES_TOTAL : ℤ := 15

structure CConsensusVote where
  vinStormnode : CTxIn
  txHash : UInt256
  nBlockHeight : ℤ
  vchStormNodeSignature : List UInt8
  deriving DecidableEq, Repr

/-- A sum: neither the height nor the signature is part of it. -/
def CConsensusVote.getHash (v : CConsensusVote) : UInt256 :=
  v.vinStormnode.prevout.hash+BitVec.ofNat 256 v.vinStormnode.prevout.n.toNat+v.txHash

structure CTransactionLock where
  nBlockHeight : ℤ
  txHash : UInt256
  vecConsensusVotes : List CConsensusVote
  nExpiration : ℤ
  nTimeout : ℤ
  deriving DecidableEq, Repr

namespace CTransactionLock

def new (nBlockHeight : ℤ) (txHash : UInt256) (nTime : ℤ) : CTransactionLock :=
  ⟨nBlockHeight,txHash,[],nTime+60*60,nTime+60*5⟩

def addSignature (lock : CTransactionLock) (cv : CConsensusVote) : CTransactionLock :=
  { lock with vecConsensusVotes := lock.vecConsensusVotes++[cv] }

/-- Only votes for the height of the lock count, and none as long as that is zero. -/
def countSignatures (lock : CTransactionLock) : ℤ :=
  if lock.nBlockHeight = 0 then -1
  else lock.vecConsensusVotes.countP fun v => v.nBlockHeight = lock.nBlockHeight

end CTransactionLock

/-- What a handler finds around it: whether it is switched on at all, the clocks, the
chain, the stormnodes and their keys, the memory pool, and this node's own stormnode. A
node whose handlers are on has a best block. -/
structure IxEnv where
  fEnabled : Bool
  nTime : ℤ
  nAdjustedTime : UInt32
  nBestHeight : ℤ
  blockHeight : UInt256 → Option ℤ
  getTransaction : UInt256 → Option (CTransaction × UInt256)
  nMaxValue : CAmount
  getStormnodeRank : COutPoint → ℤ → ℤ
  findPubkey2 : COutPoint → Option (List UInt8)
  verifyMessage : List UInt8 → List UInt8 → UInt256 × ℤ → Bool
  pool : MemPoolMaps
  call : AcceptCall
  activeStormnode : Option CTxIn
  sign : UInt256 × ℤ → Option (List UInt8)

namespace IxEnv

variable (E : IxEnv)

def nullTx : CTransaction := ⟨1,E.nAdjustedTime,[],[],0⟩

def getInputAge (vin : CTxIn) : ℤ :=
  match E.getTransaction vin.prevout.hash with
  | none => 0
  | some (_,hashBlock) =>
    match E.blockHeight hashBlock with
    | none => 0
    | some nHeight => E.nBestHeight-nHeight

/-- The chain, the transaction index and the block files are those of a node. -/
def on (P : Params) (files : BlockFiles) (n : Node) : IxEnv :=
  { E with
    nBestHeight := n.nBestHeight
    blockHeight := fun hashBlock => (n.mapBlockIndex[hashBlock]?).map fun pindex => pindex.nHeight
    getTransaction := fun hash => DarkSilk.getTransaction P files E.pool n hash 0
    call := { E.call with
      W := { E.call.W with readTx := CTransaction.readFromDisk files }
      tip := n.tip.getD E.call.tip
      pdb := n.chain.txdb.pdb } }

def signatureValid (v : CConsensusVote) : Bool :=
  match E.findPubkey2 v.vinStormnode.prevout with
  | none => false
  | some pubkey2 => E.verifyMessage pubkey2 v.vchStormNodeSignature (v.txHash,v.nBlockHeight)

/-- The voter is known, in the top ranks at the height of the vote, and has signed it. -/
def voteValid (v : CConsensusVote) : Bool :=
  let n := E.getStormnodeRank v.vinStormnode.prevout v.nBlockHeight
  n ≠ -1 && n ≤ INSTANTX_SIGNATURES_TOTAL && E.signatureValid v

def acceptToMemoryPool (P : Params) (mapLockedInputs : COutPoint → Option UInt256)
    (tx : CTransaction) : Bool :=
  (E.pool.acceptToMemoryPool P { E.call with W := { E.call.W with mapLockedInputs := mapLockedInputs } } tx).2.toBool

end IxEnv

namespace Script

/-- The operations of a payment to a key hash, one by one; what is pushed at position
two is not looked at. -/
def normalPayment : ℕ → ℕ → CScript → Bool
  | 0, _, _ => true
  | _, _, [] => true
  | fuel+1, i, pc =>
    let r := getOp2 pc
    if i = 0 && r.opcode ≠ OP_DUP then false
    else if i = 1 && r.opcode ≠ OP_HASH160 then false
    else if i = 3 && r.opcode ≠ OP_EQUALVERIFY then false
    else if i = 4 && r.opcode ≠ OP_CHECKSIG then false
    else if i = 5 then false
    else normalPayment fuel (i+1) r.rest

def isNormalPaymentScript (script : CScript) : Bool :=
  script.length = 25 && normalPayment script.length 0 script

def isUnspendable (script : CScript) : Bool := script.head?.map UInt8.toNat = some OP_RETURN

end Script

structure IxState where
  mapTxLockReq : HashMap CTransaction
  mapTxLockReqRejected : HashMap CTransaction
  mapTxLockVote : HashMap CConsensusVote
  mapTxLocks : HashMap CTransactionLock
  mapLockedInputs : COutPoint → Option UInt256
  mapUnknownVotes : HashMap ℤ

def IxState.empty : IxState := ⟨∅,∅,∅,∅,fun _ => none,∅⟩

def lockInputs (hash : UInt256) (vin : List CTxIn) (mapLockedInputs : COutPoint → Option UInt256) :
    COutPoint → Option UInt256 :=
  vin.foldl (fun m i => if (m i.prevout).isNone then Function.update m i.prevout (some hash) else m) mapLockedInputs

namespace IxState

def addRequest (s : IxState) (hash : UInt256) (tx : CTransaction) : IxState :=
  { s with mapTxLockReq := s.mapTxLockReq.insert hash tx }

def addRejected (s : IxState) (hash : UInt256) (tx : CTransaction) : IxState :=
  { s with mapTxLockReqRejected := s.mapTxLockReqRejected.insert hash tx }

def lockFor (s : IxState) (hash : UInt256) (vin : List CTxIn) : IxState :=
  { s with mapLockedInputs := lockInputs hash vin s.mapLockedInputs }

/-- The confirmations that a complete lock stands for. -/
def getIXConfirmations (s : IxState) (nInstantXDepth : ℤ) (nTXHash : UInt256) : ℤ :=
  let sigs := ((s.mapTxLocks[nTXHash]?).map CTransactionLock.countSignatures).getD 0
  if sigs ≥ INSTANTX_SIGNATURES_REQUIRED then nInstantXDepth else 0

end IxState

variable (P : Params) (E : IxEnv)

/-- Values and fees of a request; inputs that are not found let it pass. -/
def isIXTXValid (tx : CTransaction) : Bool :=
  let nValueOut : CAmount := tx.vout.foldl (fun v o => v+o.nValue) 0
  let found := tx.vin.map fun i => (E.getTransaction i.prevout.hash).map fun x =>
    ((x.1.vout[i.prevout.n.toNat]?).map CTxOut.nValue).getD 0
  let nValueIn : CAmount := found.foldl (fun v x => v+x.getD 0) 0
  if tx.vout.length < 1 then false
  else if tx.nLockTime ≠ 0 then false
  else if nValueOut > E.nMaxValue*COIN then false
  else if found.any Option.isNone then true
  else if nValueIn-nValueOut < CENT then false
  else true

def txAge : ℤ → List CTxIn → Option ℤ
  | nTxAge, [] => some nTxAge
  | _, i::vin => if E.getInputAge i < 9 then none else txAge (E.getInputAge i) vin

/-- The height at which the voters of a request are chosen, zero if it gets none. -/
def lockHeight (tx : CTransaction) : ℤ :=
  match txAge E 0 tx.vin.reverse with
  | none => 0
  | some nTxAge => E.nBestHeight-nTxAge+4

section

variable {P : Params} {files : BlockFiles} {n : Node} {E : IxEnv} {tx : CTransaction}

theorem getInputAge_on (vin) :
    (E.on P files n).getInputAge vin = DarkSilk.getInputAge P files E.pool n vin := by
  unfold IxEnv.getInputAge DarkSilk.getInputAge IxEnv.on
  dsimp only
  cases DarkSilk.getTransaction P files E.pool n vin.prevout.hash 0 with
  | none => rfl
  | some found => cases h : n.mapBlockIndex[found.2]? <;> simp [h]

/-- On a node every input has age zero, and so only a request without inputs gets a height. -/
theorem vin_eq_nil_of_lockHeight (hn : n.NoNullBlock P) (h : lockHeight (E.on P files n) tx ≠ 0) :
    tx.vin = [] := by
  cases hvin : tx.vin.reverse with
  | nil => exact List.reverse_eq_nil_iff.mp hvin
  | cons i vin =>
    have hage : (E.on P files n).getInputAge i < 9 := by
      rw [getInputAge_on,hn.getInputAge_eq_zero]
      decide
    exact absurd (by rw [lockHeight,hvin,txAge,if_pos hage]) h

end

/-- Open a lock, or set the height of the one that votes have opened already. -/
def createNewLock (tx : CTransaction) (s : IxState) : IxState :=
  let hash := tx.getHash P
  match txAge E 0 tx.vin.reverse with
  | none => s
  | some _ =>
    let lock : CTransactionLock :=
      match s.mapTxLocks[hash]? with
      | none => .new (lockHeight E tx) hash E.nTime
      | some lock => { lock with nBlockHeight := lockHeight E tx }
    { s with mapTxLocks := s.mapTxLocks.insert hash lock }

/-- The vote of the stormnode that this node runs; it is known from then on, but not
added to the lock. Returned is the hash to relay. -/
def ownVote (tx : CTransaction) (nBlockHeight : ℤ) : Option CConsensusVote := do
  let vin ← E.activeStormnode
  let n := E.getStormnodeRank vin.prevout nBlockHeight
  if n = -1 || n > INSTANTX_SIGNATURES_TOTAL then none
  else do
    let vch ← E.sign (tx.getHash P,nBlockHeight)
    let ctx : CConsensusVote := ⟨vin,tx.getHash P,nBlockHeight,vch⟩
    if E.signatureValid ctx then some ctx else none

def doConsensusVote (tx : CTransaction) (nBlockHeight : ℤ) (s : IxState) : List UInt256 × IxState :=
  match ownVote P E tx nBlockHeight with
  | none => ([],s)
  | some ctx => ([ctx.getHash],{ s with mapTxLockVote := s.mapTxLockVote.insert ctx.getHash ctx })

def IxState.expire (hash : UInt256) (s : IxState) : IxState :=
  match s.mapTxLocks[hash]? with
  | none => s
  | some lock => { s with mapTxLocks := s.mapTxLocks.insert hash { lock with nExpiration := E.nTime } }

/-- Two complete locks of one input cancel each other out. -/
def checkForConflictingLocks (tx : CTransaction) (s : IxState) : Bool × IxState :=
  let conflict := tx.vin.findSome? fun i =>
    (s.mapLockedInputs i.prevout).filter fun hash => hash ≠ tx.getHash P
  match conflict with
  | none => (false,s)
  | some hash => (true,(s.expire E (tx.getHash P)).expire E hash)

/-- May the request be offered to the memory pool? -/
def ixAdmissible (tx : CTransaction) (s : IxState) : Bool :=
  E.fEnabled && !(s.mapTxLockReq.contains (tx.getHash P) || s.mapTxLockReqRejected.contains (tx.getHash P)) &&
    isIXTXValid E tx &&
    tx.vout.all fun o => Script.isNormalPaymentScript o.scriptPubKey || Script.isUnspendable o.scriptPubKey

/-- A refused request locks its inputs, and is taken after all if its lock is complete. -/
def rejectIx (tx : CTransaction) (s : IxState) : IxState :=
  let hash := tx.getHash P
  let s := (s.addRejected hash tx).lockFor hash tx.vin
  match s.mapTxLocks[hash]? with
  | none => s
  | some lock =>
    if INSTANTX_SIGNATURES_REQUIRED ≤ lock.countSignatures then
      let r := checkForConflictingLocks P E tx s
      if r.1 then r.2 else r.2.addRequest hash tx
    else s

/-- A lock request. Returned are the hashes to relay. -/
def processIx (tx : CTransaction) (s : IxState) : List UInt256 × IxState :=
  let hash := tx.getHash P
  if ixAdmissible P E tx s then
    let s := createNewLock P E tx s
    if E.acceptToMemoryPool P s.mapLockedInputs tx then
      let r := doConsensusVote P E tx (lockHeight E tx) s
      (hash::r.1,r.2.addRequest hash tx)
    else ([],rejectIx P E tx s)
  else ([],s)

def IxState.lockOf (s : IxState) (hash : UInt256) : CTransactionLock :=
  (s.mapTxLocks[hash]?).getD (.new 0 hash E.nTime)

def IxState.addSignature (s : IxState) (v : CConsensusVote) : IxState :=
  { s with mapTxLocks := s.mapTxLocks.insert v.txHash ((s.lockOf E v.txHash).addSignature v) }

/-- A complete lock: the inputs of its request are locked, unless one is locked by
another transaction. A request that is not there is made up. -/
def completeLock (hash : UInt256) (s : IxState) : IxState :=
  let tx := (s.mapTxLockReq[hash]?).getD E.nullTx
  let r := checkForConflictingLocks P E tx (s.addRequest hash tx)
  if r.1 then r.2 else r.2.lockFor hash tx.vin

def collectVote (v : CConsensusVote) (s : IxState) : IxState :=
  let s := s.addSignature E v
  if INSTANTX_SIGNATURES_REQUIRED ≤ (s.lockOf E v.txHash).countSignatures then completeLock P E v.txHash s else s

def processConsensusVote (v : CConsensusVote) (s : IxState) : Bool × IxState :=
  if E.voteValid v then (true,collectVote P E v s) else (false,s)

def getAverageVoteTime (mapUnknownVotes : HashMap ℤ) : ℤ :=
  (mapUnknownVotes.toList.map Prod.snd).sum.tdiv mapUnknownVotes.size

/-- Votes for transactions that nobody has requested are relayed at a limited rate. -/
def countUnknownVote (v : CConsensusVote) (s : IxState) : Bool × IxState :=
  if s.mapTxLockReq.contains v.txHash || s.mapTxLockReqRejected.contains v.txHash then (true,s)
  else
    let key := v.vinStormnode.prevout.hash
    let votes := if s.mapUnknownVotes.contains key then s.mapUnknownVotes
      else s.mapUnknownVotes.insert key (E.nTime+60*10)
    let nVote := (votes[key]?).getD 0
    if nVote > E.nTime && nVote-getAverageVoteTime votes > 60*10 then (false,{ s with mapUnknownVotes := votes })
    else (true,{ s with mapUnknownVotes := votes.insert key (E.nTime+60*10) })

def IxState.see (s : IxState) (v : CConsensusVote) : IxState :=
  { s with mapTxLockVote := s.mapTxLockVote.insert v.getHash v }

/-- A vote. It counts as seen before anything about it is checked. -/
def processTxlvote (v : CConsensusVote) (s : IxState) : List UInt256 × IxState :=
  if E.fEnabled && !s.mapTxLockVote.contains v.getHash then
    let r := processConsensusVote P E v (s.see v)
    if r.1 then
      let q := countUnknownVote E v r.2
      (if q.1 then [v.getHash] else [],q.2)
    else ([],r.2)
  else ([],s)

def unlockInputs (vin : List CTxIn) (mapLockedInputs : COutPoint → Option UInt256) :
    COutPoint → Option UInt256 :=
  vin.foldl (fun m i => Function.update m i.prevout none) mapLockedInputs

def forgetVotes (votes : List CConsensusVote) (mapTxLockVote : HashMap CConsensusVote) :
    HashMap CConsensusVote :=
  votes.foldl (fun m v => m.erase v.getHash) mapTxLockVote

def cleanLock (s : IxState) (e : UInt256 × CTransactionLock) : IxState :=
  if E.nTime > e.2.nExpiration then
    let s :=
      match s.mapTxLockReq[e.2.txHash]? with
      | none => s
      | some tx => { s with
          mapLockedInputs := unlockInputs tx.vin s.mapLockedInputs
          mapTxLockReq := s.mapTxLockReq.erase e.2.txHash
          mapTxLockReqRejected := s.mapTxLockReqRejected.erase e.2.txHash
          mapTxLockVote := forgetVotes e.2.vecConsensusVotes s.mapTxLockVote }
    { s with mapTxLocks := s.mapTxLocks.erase e.1 }
  else s

def cleanTransactionLocksList (s : IxState) : IxState := s.mapTxLocks.toList.foldl (cleanLock E) s

inductive IxMessage
  | ix (E : IxEnv) (tx : CTransaction)
  | txlvote (E : IxEnv) (v : CConsensusVote)
  | clean (E : IxEnv)

def IxState.step (P : Params) (s : IxState) : IxMessage → IxState
  | .ix E tx => (processIx P E tx s).2
  | .txlvote E v => (processTxlvote P E v s).2
  | .clean E => cleanTransactionLocksList E s

def ixRun (P : Params) (l : List IxMessage) : IxState := l.foldl (IxState.step P) .empty

variable {P} {E} {s t : IxState} {tx : CTransaction} {v : CConsensusVote}

theorem lockInputs_apply (hash vin m o) :
    lockInputs hash vin m o = (m o).or (if o ∈ vin.map CTxIn.prevout then some hash else none) := by
  unfold lockInputs
  induction vin generalizing m with
  | nil => simp
  | cons i vin ih =>
    rw [foldl_cons,ih]
    by_cases ho : o = i.prevout
    · subst ho
      cases hm : m i.prevout <;> simp [hm]
    · have hm : (if (m i.prevout).isNone then Function.update m i.prevout (some hash) else m) o = m o := by
        split_ifs
        · exact Function.update_of_ne ho _ _
        · rfl
      rw [hm]
      simp [ho]

theorem unlockInputs_apply (vin m o) :
    unlockInputs vin m o = if o ∈ vin.map CTxIn.prevout then none else m o := by
  unfold unlockInputs
  induction vin generalizing m with
  | nil => simp
  | cons i vin ih =>
    rw [foldl_cons,ih]
    by_cases ho : o = i.prevout
    · simp [ho]
    · simp [ho]

theorem contains_forgetVotes (votes m κ) :
    (forgetVotes votes m).contains κ =
    (m.contains κ && !(votes.map CConsensusVote.getHash).contains κ) := by
  unfold forgetVotes
  induction votes generalizing m with
  | nil => simp
  | cons v votes ih =>
    rw [foldl_cons,ih,contains_erase,map_cons,contains_cons]
    by_cases hκ : v.getHash = κ
    · simp [hκ]
    · simp [hκ,beq_eq_false_iff_ne.mpr (Ne.symm hκ)]

def IxState.votes (s : IxState) (hash : UInt256) : List CConsensusVote :=
  ((s.mapTxLocks[hash]?).map CTransactionLock.vecConsensusVotes).getD []

open IxState

theorem votes_insert (s : IxState) (k h : UInt256) (lock : CTransactionLock) :
    votes { s with mapTxLocks := s.mapTxLocks.insert k lock } h =
      if k = h then lock.vecConsensusVotes else s.votes h := by
  rw [votes,getElem?_insert]
  split_ifs <;> rfl

theorem lockOf_votes (s : IxState) (hash) : (s.lockOf E hash).vecConsensusVotes = s.votes hash := by
  rw [lockOf,votes]
  cases s.mapTxLocks[hash]? <;> rfl

structure Keeps (s t : IxState) : Prop where
  votes : ∀ h, t.votes h = s.votes h
  seen : ∀ κ, s.mapTxLockVote.contains κ → t.mapTxLockVote.contains κ

theorem Keeps.refl (s) : Keeps s s := ⟨fun _ => rfl,fun _ h => h⟩

theorem Keeps.trans {u} (h : Keeps s t) (h' : Keeps t u) : Keeps s u :=
  ⟨fun k => (h'.votes k).trans (h.votes k),fun κ hκ => h'.seen κ (h.seen κ hκ)⟩

theorem expire_spec (E) (hash : UInt256) (s : IxState) :
    ∃ m, s.expire E hash = { s with mapTxLocks := m } ∧ Keeps s (s.expire E hash) := by
  unfold expire
  cases hl : s.mapTxLocks[hash]? with
  | none => exact ⟨s.mapTxLocks,rfl,.refl s⟩
  | some lock =>
    refine ⟨_,rfl,fun h => ?_,fun _ h => h⟩
    rw [votes_insert]
    split_ifs with hh
    · subst hh
      simp [votes,hl]
    · rfl

theorem checkForConflictingLocks_spec (P E tx s) :
    ∃ m, (checkForConflictingLocks P E tx s).2 = { s with mapTxLocks := m } ∧
      Keeps s (checkForConflictingLocks P E tx s).2 ∧
      ((checkForConflictingLocks P E tx s).1 = false → (checkForConflictingLocks P E tx s).2 = s) := by
  unfold checkForConflictingLocks
  dsimp only
  split
  · exact ⟨s.mapTxLocks,rfl,.refl s,fun _ => rfl⟩
  · rename_i hash _
    obtain ⟨m₁,h1,k₁⟩ := expire_spec E (tx.getHash P) s
    obtain ⟨m₂,h2,k₂⟩ := expire_spec E hash (s.expire E (tx.getHash P))
    refine ⟨m₂,?_,k₁.trans k₂,fun h => absurd h (by simp)⟩
    rw [h2,h1]

theorem keeps_createNewLock (P : Params) (E : IxEnv) (tx : CTransaction) (s : IxState) :
    ∃ m, createNewLock P E tx s = { s with mapTxLocks := m } ∧
      Keeps s (createNewLock P E tx s) := by
  unfold createNewLock
  split
  · exact ⟨s.mapTxLocks,rfl,.refl s⟩
  · refine ⟨_,rfl,fun h => ?_,fun _ h => h⟩
    rw [votes_insert]
    split_ifs with hh
    · subst hh
      cases hl : s.mapTxLocks[tx.getHash P]? <;> simp [votes,hl,CTransactionLock.new]
    · rfl

def IxState.withSeen (s : IxState) (m : HashMap CConsensusVote) : IxState :=
  { s with mapTxLockVote := m }

theorem doConsensusVote_spec (P E tx nBlockHeight s) :
    ∃ m, (doConsensusVote P E tx nBlockHeight s).2 = s.withSeen m ∧
      ∀ κ, m.contains κ = ((doConsensusVote P E tx nBlockHeight s).1.contains κ ||
        s.mapTxLockVote.contains κ) := by
  unfold doConsensusVote
  split
  · exact ⟨s.mapTxLockVote,rfl,fun κ => by simp⟩
  · rename_i ctx _
    refine ⟨_,rfl,fun κ => ?_⟩
    rw [contains_insert]
    simp [eq_comm (a := κ)]

def ixRejected (P : Params) (E : IxEnv) (tx : CTransaction) (s : IxState) : Bool :=
  ixAdmissible P E tx s && !E.acceptToMemoryPool P s.mapLockedInputs tx

theorem rejectIx_spec (P E tx s) : Keeps s (rejectIx P E tx s) ∧
      (rejectIx P E tx s).mapLockedInputs = lockInputs (tx.getHash P) tx.vin s.mapLockedInputs := by
  unfold rejectIx
  dsimp only
  split
  · exact ⟨⟨fun _ => rfl,fun _ h => h⟩,rfl⟩
  · obtain ⟨m,hm,hk,-⟩ := checkForConflictingLocks_spec P E tx
      ((s.addRejected (tx.getHash P) tx).lockFor (tx.getHash P) tx.vin)
    split_ifs
    · exact ⟨⟨hk.votes,hk.seen⟩,by rw [hm]; rfl⟩
    · exact ⟨⟨hk.votes,hk.seen⟩,by rw [addRequest,hm]; rfl⟩
    · exact ⟨⟨fun _ => rfl,fun _ h => h⟩,rfl⟩

theorem processIx_skip (h : ixAdmissible P E tx s = false) : (processIx P E tx s).2 = s := by
  simp [processIx,h]

theorem processIx_accepted (hadm : ixAdmissible P E tx s)
    (hacc : E.acceptToMemoryPool P s.mapLockedInputs tx) :
    (processIx P E tx s).2 =
    (doConsensusVote P E tx (lockHeight E tx) (createNewLock P E tx s)).2.addRequest
      (tx.getHash P) tx := by
  obtain ⟨m,hm,-⟩ := keeps_createNewLock P E tx s
  have hlocked : (createNewLock P E tx s).mapLockedInputs = s.mapLockedInputs := by rw [hm]
  simp [processIx,hadm,hlocked,hacc]

theorem processIx_rejected (h : ixRejected P E tx s) :
    (processIx P E tx s).2 = rejectIx P E tx (createNewLock P E tx s) := by
  obtain ⟨m,hm,-⟩ := keeps_createNewLock P E tx s
  have hlocked : (createNewLock P E tx s).mapLockedInputs = s.mapLockedInputs := by rw [hm]
  rw [ixRejected,Bool.and_eq_true,Bool.not_eq_true'] at h
  simp [processIx,h.1,hlocked,h.2]

/-- A request brings no votes, and locks its inputs at once if it is refused. -/
theorem processIx_spec (P E tx s) :
    Keeps s (processIx P E tx s).2 ∧ (processIx P E tx s).2.mapLockedInputs =
      if ixRejected P E tx s then lockInputs (tx.getHash P) tx.vin
        s.mapLockedInputs else s.mapLockedInputs := by
  obtain ⟨m,hm,hkeeps⟩ := keeps_createNewLock P E tx s
  have hlocked : (createNewLock P E tx s).mapLockedInputs = s.mapLockedInputs := by rw [hm]
  cases hrej : ixRejected P E tx s with
  | true =>
    obtain ⟨hk,hl⟩ := rejectIx_spec P E tx (createNewLock P E tx s)
    rw [processIx_rejected hrej,hl,hlocked]
    exact ⟨hkeeps.trans hk,rfl⟩
  | false =>
    cases hadm : ixAdmissible P E tx s with
    | false =>
      rw [processIx_skip hadm]
      exact ⟨.refl s,rfl⟩
    | true =>
      have hacc : E.acceptToMemoryPool P s.mapLockedInputs tx := by simpa [ixRejected,hadm] using hrej
      obtain ⟨m',hm',hseen⟩ := doConsensusVote_spec P E tx (lockHeight E tx) (createNewLock P E tx s)
      rw [processIx_accepted hadm hacc,hm']
      refine ⟨⟨hkeeps.votes,fun κ hκ => ?_⟩,hlocked⟩
      change m'.contains κ
      rw [hseen κ,Bool.or_eq_true]
      exact .inr (hkeeps.seen κ hκ)

theorem completeLock_spec (P E hash s) :
    Keeps s (completeLock P E hash s) ∧ (completeLock P E hash s).mapTxLockVote = s.mapTxLockVote ∧
      ((completeLock P E hash s).mapLockedInputs = s.mapLockedInputs ∨
        (completeLock P E hash s).mapTxLocks = s.mapTxLocks ∧
        ∃ vin, (completeLock P E hash s).mapLockedInputs =
          lockInputs hash vin s.mapLockedInputs) := by
  unfold completeLock
  dsimp only
  obtain ⟨m,hm,hk,hsame⟩ := checkForConflictingLocks_spec P E ((s.mapTxLockReq[hash]?).getD E.nullTx)
    (s.addRequest hash ((s.mapTxLockReq[hash]?).getD E.nullTx))
  split_ifs with hc
  · exact ⟨⟨hk.votes,hk.seen⟩,by rw [hm]; rfl,.inl (by rw [hm]; rfl)⟩
  · rw [hsame (Bool.eq_false_of_not_eq_true hc)]
    exact ⟨⟨fun _ => rfl,fun _ h => h⟩,rfl,.inr ⟨rfl,_,rfl⟩⟩

theorem countUnknownVote_spec (E v s) :
    ∃ m, (countUnknownVote E v s).2 = { s with mapUnknownVotes := m } := by
  unfold countUnknownVote
  dsimp only
  split_ifs <;> exact ⟨_,rfl⟩

theorem lockOf_addSignature (s : IxState) :
    (s.addSignature E v).lockOf E v.txHash = (s.lockOf E v.txHash).addSignature v := by
  rw [lockOf,addSignature,getElem?_insert,if_pos rfl,Option.getD_some]

theorem votes_addSignature (s : IxState) (h : UInt256) :
    (s.addSignature E v).votes h = if v.txHash = h then s.votes h++[v] else s.votes h := by
  rw [addSignature,votes_insert]
  split_ifs with hh
  · subst hh
    rw [CTransactionLock.addSignature,lockOf_votes]
  · rfl

structure Voted (E : IxEnv) (v : CConsensusVote) (s t : IxState) : Prop where
  fresh : s.mapTxLockVote.contains v.getHash = false
  valid : E.voteValid v = true
  votes : ∀ h, t.votes h = if v.txHash = h then s.votes h++[v] else s.votes h
  seen : ∀ κ, t.mapTxLockVote.contains κ = (v.getHash = κ || s.mapTxLockVote.contains κ)
  locked : t.mapLockedInputs = s.mapLockedInputs ∨
    (∃ vin, t.mapLockedInputs = lockInputs v.txHash vin s.mapLockedInputs) ∧
      ∃ lock, t.mapTxLocks[v.txHash]? = some lock ∧ INSTANTX_SIGNATURES_REQUIRED ≤ lock.countSignatures

theorem processTxlvote_skip (h : E.fEnabled = false ∨ s.mapTxLockVote.contains v.getHash) :
    (processTxlvote P E v s).2 = s := by
  unfold processTxlvote
  rcases h with h | h <;> simp [h]

theorem processTxlvote_invalid (hon : E.fEnabled)
    (hfresh : s.mapTxLockVote.contains v.getHash = false)
    (h : E.voteValid v = false) : (processTxlvote P E v s).2 = s.see v := by
  simp [processTxlvote,processConsensusVote,hon,hfresh,h]

theorem processTxlvote_valid (hon : E.fEnabled)
    (hfresh : s.mapTxLockVote.contains v.getHash = false) (h : E.voteValid v) :
    (processTxlvote P E v s).2 = (countUnknownVote E v (collectVote P E v (s.see v))).2 := by
  simp [processTxlvote,processConsensusVote,hon,hfresh,h]

theorem contains_see (s : IxState) (v : CConsensusVote) (κ) :
    (s.see v).mapTxLockVote.contains κ = (v.getHash = κ || s.mapTxLockVote.contains κ) :=
  contains_insert _ _ _ _

theorem voted_of_valid (hon : E.fEnabled) (hfresh : s.mapTxLockVote.contains v.getHash = false)
    (h : E.voteValid v) : Voted E v s (processTxlvote P E v s).2 := by
  have hlock : ((s.see v).addSignature E v).mapTxLocks[v.txHash]? =
      some (((s.see v).addSignature E v).lockOf E v.txHash) := by
    rw [lockOf_addSignature,addSignature,getElem?_insert,if_pos rfl]
  obtain ⟨m,hm⟩ := countUnknownVote_spec E v (collectVote P E v (s.see v))
  rw [processTxlvote_valid hon hfresh h,hm,collectVote]
  obtain ⟨hk,hvote,hcomplete⟩ := completeLock_spec P E v.txHash ((s.see v).addSignature E v)
  split_ifs with hreq
  · refine ⟨hfresh,h,fun h => (hk.votes h).trans (votes_addSignature _ h),fun κ => ?_,?_⟩
    · dsimp only
      rw [hvote]
      exact contains_see s v κ
    · rcases hcomplete with hl | ⟨hsame,vin,hl⟩
      · exact .inl hl
      · refine .inr ⟨⟨vin,hl⟩,_,?_,hreq⟩
        rw [hsame]
        exact hlock
  · exact ⟨hfresh,h,votes_addSignature _,contains_see s v,.inl rfl⟩

theorem processTxlvote_cases (P E v) (s : IxState) : Voted E v s (processTxlvote P E v s).2 ∨
      Keeps s (processTxlvote P E v s).2 ∧ (processTxlvote P E v s).2.mapLockedInputs =
        s.mapLockedInputs := by
  by_cases hskip : E.fEnabled = false ∨ s.mapTxLockVote.contains v.getHash
  · rw [processTxlvote_skip hskip]
    exact .inr ⟨.refl s,rfl⟩
  · simp only [not_or,Bool.not_eq_false,Bool.not_eq_true] at hskip
    cases hvalid : E.voteValid v with
    | true => exact .inl (voted_of_valid hskip.1 hskip.2 hvalid)
    | false =>
      rw [processTxlvote_invalid hskip.1 hskip.2 hvalid]
      refine .inr ⟨⟨fun _ => rfl,fun κ hκ => ?_⟩,rfl⟩
      rw [contains_see,Bool.or_eq_true]
      exact .inr hκ

/-- A clean-up step drops one lock at most, forgets no votes but those of the lock, and
locks nothing. -/
theorem cleanLock_spec (E s e) :
    ((cleanLock E s e).mapTxLocks = s.mapTxLocks ∧
      (cleanLock E s e).mapTxLockVote = s.mapTxLockVote ∨
      (cleanLock E s e).mapTxLocks = s.mapTxLocks.erase e.1 ∧
        ∀ κ, s.mapTxLockVote.contains κ → κ ∉ e.2.vecConsensusVotes.map CConsensusVote.getHash →
          (cleanLock E s e).mapTxLockVote.contains κ) ∧
    ∀ o h, (cleanLock E s e).mapLockedInputs o = some h → s.mapLockedInputs o = some h := by
  unfold cleanLock
  split_ifs with htime
  · dsimp only
    split
    · exact ⟨.inr ⟨rfl,fun _ h _ => h⟩,fun _ _ h => h⟩
    · refine ⟨.inr ⟨rfl,fun κ hκ hnot => ?_⟩,fun o h ho => ?_⟩
      · rw [contains_forgetVotes,Bool.and_eq_true,Bool.not_eq_true',contains_eq_mem,decide_eq_false_iff_not]
        exact ⟨hκ,hnot⟩
      · dsimp only at ho
        rw [unlockInputs_apply] at ho
        split_ifs at ho
        exact ho
  · exact ⟨.inl ⟨rfl,rfl⟩,fun _ _ h => h⟩

end DarkSilk
