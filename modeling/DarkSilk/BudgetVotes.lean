import DarkSilk.InstantX

/-! Budget proposals, finalized budgets and the votes of the stormnodes for them. The two
kinds of votes go through the same tables: what was seen, what is known with its votes,
and the votes that wait for what they are for. -/
namespace DarkSilk

open PrefixCode Runs List

def BUDGET_FEE_TX : CAmount := 100*COIN
def BUDGET_FEE_CONFIRMATIONS : ℤ := 10
def BUDGET_VOTE_UPDATE_MIN : ℤ := 64*20
def FIXED_STORMNODE_BUDGET_AMOUNT : CAmount := 10000
def FIXED_STORMNODE_BUDGET_FREQUENCY : ℤ := 41091

def VOTE_YES : Int32 := 1
def VOTE_NO : Int32 := 2

structure CBudgetVote where
  fValid : Bool
  fSynced : Bool
  vin : CTxIn
  nProposalHash : UInt256
  nVote : Int32
  nTime : Int64
  vchSig : List UInt8
  deriving DecidableEq, Repr

structure CFinalizedBudgetVote where
  fValid : Bool
  fSynced : Bool
  vin : CTxIn
  nBudgetHash : UInt256
  nTime : Int64
  vchSig : List UInt8
  deriving DecidableEq, Repr

structure CBudgetProposalBroadcast where
  strProposalName : List UInt8
  strURL : List UInt8
  nBlockStart : ℤ
  nBlockEnd : ℤ
  nAmount : CAmount
  address : CScript
  nFeeTXHash : UInt256
  deriving DecidableEq, Repr

structure CTxBudgetPayment where
  nProposalHash : UInt256
  payee : CScript
  nAmount : CAmount
  deriving DecidableEq, Repr

structure CBudgetProposal extends CBudgetProposalBroadcast where
  nTime : ℤ
  fValid : Bool
  mapVotes : HashMap CBudgetVote

structure CFinalizedBudgetBroadcast where
  strBudgetName : List UInt8
  nBlockStart : ℤ
  vecBudgetPayments : List CTxBudgetPayment
  nFeeTXHash : UInt256
  deriving DecidableEq, Repr

/-- What the handlers read beside the tables: the clock and the state of the
synchronisation, the stormnodes, the chain and the collateral transactions. -/
structure BudgetEnv where
  fLiteMode : Bool
  isBlockchainSynced : Bool
  isSynced : Bool
  nTime : ℤ
  /-- The key of a known stormnode. -/
  find : COutPoint → Option (List UInt8)
  verifyMessage : List UInt8 → List UInt8 → String → Bool
  countEnabled : ℤ
  nBestHeight : Option ℤ
  /-- The height of an indexed block of the main chain. -/
  mainHeight : UInt256 → Option ℤ
  getTransaction : UInt256 → Option (CTransaction × UInt256)
  getIXConfirmations : UInt256 → ℤ

variable (P : Params)

/-- The chain and the transactions of a node, with its transaction locks. -/
def BudgetEnv.on (E : BudgetEnv) (files : BlockFiles) (pool : MemPoolMaps) (n : Node) (s : IxState)
    (nInstantXDepth : ℤ) : BudgetEnv :=
  { E with
    nBestHeight := n.tip.map Tip.nBestHeight
    mainHeight := fun hash => (n.mapBlockIndex[hash]?).bind fun pindex =>
      if n.isInMainChain pindex then some (pindex.nHeight : ℤ) else none
    getTransaction := fun hash => DarkSilk.getTransaction P files pool n hash 0
    getIXConfirmations := s.getIXConfirmations nInstantXDepth }

def intBytes (n : ℕ) (k : ℤ) : List UInt8 := leBytes n (k%2^(8*n)).toNat

def CBudgetVote.getHash (v : CBudgetVote) : UInt256 :=
  P.hash (v.vin.serialize++leBytes 32 v.nProposalHash.toNat++leBytes 4 v.nVote.toUInt32.toNat++
    leBytes 8 v.nTime.toUInt64.toNat)

def CFinalizedBudgetVote.getHash (v : CFinalizedBudgetVote) : UInt256 :=
  P.hash (v.vin.serialize++leBytes 32 v.nBudgetHash.toNat++leBytes 8 v.nTime.toUInt64.toNat)

def CBudgetProposalBroadcast.getHash (p : CBudgetProposalBroadcast) : UInt256 :=
  P.hash (writeScript p.strProposalName++writeScript p.strURL++intBytes 4 p.nBlockStart++intBytes 4 p.nBlockEnd++
    intBytes 8 p.nAmount.toInt++writeScript p.address)

def CTxBudgetPayment.serialize (p : CTxBudgetPayment) : List UInt8 :=
  writeScript p.payee++intBytes 8 p.nAmount.toInt++leBytes 32 p.nProposalHash.toNat

def CFinalizedBudgetBroadcast.getHash (b : CFinalizedBudgetBroadcast) : UInt256 :=
  P.hash (writeScript b.strBudgetName++intBytes 4 b.nBlockStart++writeVector CTxBudgetPayment.serialize b.vecBudgetPayments)

section

variable (E : BudgetEnv)

def getBudgetPaymentCycleBlocks : ℤ := if P.testNet then 50 else FIXED_STORMNODE_BUDGET_FREQUENCY

def getTotalBudget (nHeight : ℤ) : CAmount :=
  if E.nBestHeight.isNone || nHeight = 0 then 0 else FIXED_STORMNODE_BUDGET_AMOUNT

def getHex (h : UInt256) : String := String.ofList ((Nat.toDigits 16 h.toNat).leftpad 64 '0')

def chainConfirmations (nBlockHash : UInt256) : ℤ :=
  if nBlockHash = 0 then 0
  else match E.mainHeight nBlockHash with
    | none => 0
    | some nHeight => E.nBestHeight.getD (-1)-nHeight+1

/-- The confirmations of a fee transaction that pays for the item with a hash, or why it is not
valid; the texts end in the source with the text of the transaction. -/
def isBudgetCollateralValid (nTxCollateralHash nExpectedHash : UInt256) : Except String ℤ :=
  match E.getTransaction nTxCollateralHash with
  | none => .error "Can't find collateral tx"
  | some (txCollateral,nBlockHash) =>
    let findScript : CScript := UInt8.ofNat Script.OP_RETURN::Script.pushVector (leBytes 32 nExpectedHash.toNat)
    let conf := E.getIXConfirmations nTxCollateralHash+chainConfirmations E nBlockHash
    if txCollateral.vout.length < 1 then .error ""
    else if txCollateral.nLockTime ≠ 0 then .error ""
    else if txCollateral.vout.any fun o =>
        !Script.isNormalPaymentScript o.scriptPubKey && !Script.isUnspendable o.scriptPubKey then .error "Invalid Script"
    else if !(txCollateral.vout.any fun o => o.scriptPubKey = findScript && o.nValue ≥ BUDGET_FEE_TX) then
      .error s!"Couldn't find opReturn {getHex nExpectedHash}"
    else if conf ≥ BUDGET_FEE_CONFIRMATIONS then .ok conf
    else .error s!"Collateral requires at least {BUDGET_FEE_CONFIRMATIONS} confirmations - {conf} confirmations"

def requireCollateral (fCheckCollateral : Bool) (strError : String) (nFeeTXHash hash : UInt256) :
    Except Reject Unit :=
  if fCheckCollateral then
    match isBudgetCollateralValid E nFeeTXHash hash with
    | .ok _ => .ok ()
    | .error strError2 => .error ⟨0,strError++strError2⟩
  else .ok ()

def safeChars : List UInt8 :=
  ("abcdefghijklmnopqrstuvwxyzABCDEFGHIJKLMNOPQRSTUVWXYZ0123456789 .,;-_/:?@()".toList).map fun c => c.toNat.toUInt8

def sanitizeString (str : List UInt8) : List UInt8 := str.filter fun c => safeChars.contains c

def voteCount (nVote : Int32) (mapVotes : HashMap CBudgetVote) : ℤ :=
  (mapVotes.toList.filter fun e => e.2.nVote = nVote && e.2.fValid).length

def CBudgetProposalBroadcast.isValid (p : CBudgetProposalBroadcast) (mapVotes : HashMap CBudgetVote)
    (fCheckCollateral : Bool) : Except Reject Unit := do
  let nYes := voteCount VOTE_YES mapVotes
  let nNo := voteCount VOTE_NO mapVotes
  let nCycle := getBudgetPaymentCycleBlocks P
  require (nNo-nYes ≤ E.countEnabled.tdiv 10) 0 "Active removal"
  require (0 ≤ p.nBlockStart) 0 "Invalid Proposal"
  match E.nBestHeight with
  | none => .ok ()
  | some nHeight => do
    let nNext := nHeight-nHeight.tmod nCycle+nCycle
    require (p.nBlockStart.tmod nCycle = 0) 0
      s!"Invalid block start - must be a budget cycle block. Next valid block: {nNext}"
    require (p.nBlockEnd.tmod nCycle = nCycle.tdiv 2) 0 "Invalid block end"
    require (p.nBlockStart ≤ p.nBlockEnd) 0 "Invalid block end - must be greater then block start."
    require (COIN ≤ p.nAmount) 0 "Invalid proposal amount"
    require (p.strProposalName.length ≤ 20) 0 "Invalid proposal name, limit of 20 characters."
    require (p.strProposalName = sanitizeString p.strProposalName) 0 "Invalid proposal name, unsafe characters found."
    require (p.strURL.length ≤ 64) 0 "Invalid proposal url, limit of 64 characters."
    require (p.strURL = sanitizeString p.strURL) 0 "Invalid proposal url, unsafe characters found."
    require (p.address ≠ []) 0 "Invalid proposal Payment Address"
    requireCollateral E fCheckCollateral "" p.nFeeTXHash (p.getHash P)
    require (!Script.isPayToScriptHash p.address) 0 "Multisig is not currently supported."
    require (-(E.countEnabled.tdiv 10) ≤ nYes-nNo) 0 "Voted Down"
    require (p.nAmount ≤ getTotalBudget E p.nBlockStart) 0 "Payment more than max"
    require (nHeight ≤ p.nBlockEnd+100) 0 ""

def CFinalizedBudgetBroadcast.getBlockEnd (b : CFinalizedBudgetBroadcast) : ℤ :=
  b.nBlockStart+(b.vecBudgetPayments.length-1)

def CFinalizedBudgetBroadcast.getTotalPayout (b : CFinalizedBudgetBroadcast) : CAmount :=
  b.vecBudgetPayments.foldl (fun ret p => ret+p.nAmount) 0

def CFinalizedBudgetBroadcast.isValid (b : CFinalizedBudgetBroadcast) (fCheckCollateral : Bool) :
    Except Reject Unit := do
  require (b.nBlockStart.tmod (getBudgetPaymentCycleBlocks P) = 0) 0 "Invalid BlockStart"
  require (b.getBlockEnd-b.nBlockStart ≤ 100) 0 "Invalid BlockEnd"
  require (b.vecBudgetPayments.length ≤ 100) 0 "Invalid budget payments count (too many)"
  require (b.strBudgetName ≠ []) 0 "Invalid Budget Name"
  require (b.nBlockStart ≠ 0) 0 "Invalid BlockStart == 0"
  require (b.nFeeTXHash ≠ 0) 0 "Invalid FeeTx == 0"
  require (b.getTotalPayout ≤ getTotalBudget E b.nBlockStart) 0 "Invalid Payout (more than max)"
  requireCollateral E fCheckCollateral "Invalid Collateral : " b.nFeeTXHash (b.getHash P)
  match E.nBestHeight with
  | none => .ok ()
  | some nHeight => require (nHeight-100 ≤ b.nBlockStart) 0 "Older than current blockHeight"

def COutPoint.toStringShort (o : COutPoint) : String := getHex o.hash++"-"++toString o.n

def isValidVote (prevout : COutPoint) (nTime : ℤ) (vchSig : List UInt8) (strMessage : String) :
    Bool :=
  !(nTime > E.nTime+60*60) && (E.find prevout).any fun pubkey2 => E.verifyMessage pubkey2 vchSig strMessage

end

/-- What the tables use of a vote, and the text that is signed. -/
structure VoteKind (V : Type) where
  getHash : V → UInt256
  item : V → UInt256
  prevout : V → COutPoint
  nTime : V → ℤ
  nTime_lt : ∀ v, nTime v < 2^63
  vchSig : V → List UInt8
  strMessage : V → String

def budgetVotes (P : Params) : VoteKind CBudgetVote where
  getHash := CBudgetVote.getHash P
  item := CBudgetVote.nProposalHash
  prevout := fun v => v.vin.prevout
  nTime := fun v => v.nTime.toInt
  nTime_lt := fun v => v.nTime.toInt_lt
  vchSig := CBudgetVote.vchSig
  strMessage := fun v => v.vin.prevout.toStringShort++getHex v.nProposalHash++toString v.nVote.toInt++
    toString v.nTime.toInt

def finalizedBudgetVotes (P : Params) : VoteKind CFinalizedBudgetVote where
  getHash := CFinalizedBudgetVote.getHash P
  item := CFinalizedBudgetVote.nBudgetHash
  prevout := fun v => v.vin.prevout
  nTime := fun v => v.nTime.toInt
  nTime_lt := fun v => v.nTime.toInt_lt
  vchSig := CFinalizedBudgetVote.vchSig
  strMessage := fun v => v.vin.prevout.toStringShort++getHex v.nBudgetHash++toString v.nTime.toInt

/-- The tables of one kind: items seen, items known with their votes, votes seen, and at
most one vote that waits for each unknown item. -/
structure VoteTables (I V : Type) where
  mapSeen : HashMap I
  mapKnown : HashMap (I × HashMap V)
  mapSeenVotes : HashMap V
  mapOrphanVotes : HashMap V

def VoteTables.empty {I V : Type} : VoteTables I V := ⟨∅,∅,∅,∅⟩

def voteKey (P : Params) (prevout : COutPoint) : UInt256 := P.hash prevout.serialize

variable {I V : Type} (K : VoteKind V) (E : BudgetEnv)

/-- A vote takes the place of an older one that it follows with the proper interval; the interval
is a number of 64 bits. -/
def addOrUpdateVote (vote : V) (mapVotes : HashMap V) : Bool × HashMap V :=
  match mapVotes[voteKey P (K.prevout vote)]? with
  | some old =>
    if K.nTime old > K.nTime vote then (false,mapVotes)
    else if (K.nTime vote-K.nTime old).bmod (2^64) < BUDGET_VOTE_UPDATE_MIN then (false,mapVotes)
    else (true,mapVotes.insert (voteKey P (K.prevout vote)) vote)
  | none => (true,mapVotes.insert (voteKey P (K.prevout vote)) vote)

/-- UpdateProposal and UpdateFinalizedBudget. A vote of a peer for something unknown waits,
in the place of the one that waited before. -/
def VoteTables.update (t : VoteTables I V) (fromPeer : Bool) (vote : V) : Bool × VoteTables I V :=
  match t.mapKnown[K.item vote]? with
  | none =>
    if fromPeer && E.isSynced then
      (false,{ t with mapOrphanVotes := t.mapOrphanVotes.insert (K.item vote) vote })
    else (false,t)
  | some (i,mapVotes) =>
    ((addOrUpdateVote P K vote mapVotes).1,{ t with
      mapKnown := t.mapKnown.insert (K.item vote) (i,(addOrUpdateVote P K vote mapVotes).2) })

def VoteTables.checkOrphan (t : VoteTables I V) (e : UInt256 × V) : VoteTables I V :=
  let (accepted,t) := t.update P K E false e.2
  if accepted then { t with mapOrphanVotes := t.mapOrphanVotes.erase e.1 } else t

def VoteTables.checkOrphanVotes (t : VoteTables I V) : VoteTables I V :=
  t.mapOrphanVotes.toList.foldl (VoteTables.checkOrphan P K E) t

def VoteTables.processItem (t : VoteTables I V) (hash : UInt256) (i : I)
    (collateralValid valid : Bool) :
    Bool × VoteTables I V :=
  if t.mapSeen.contains hash then (false,t)
  else if !collateralValid then (false,t)
  else
    let t := { t with mapSeen := t.mapSeen.insert hash i }
    if !valid then (false,t)
    else (true,if t.mapKnown.contains hash then t else { t with mapKnown := t.mapKnown.insert hash (i,∅) })

def VoteKind.isValid (vote : V) : Bool :=
  isValidVote E (K.prevout vote) (K.nTime vote) (K.vchSig vote) (K.strMessage vote)

/-- The hash of a vote is noted before its signature is checked. -/
def VoteTables.processVote (t : VoteTables I V) (vote : V) : VoteTables I V :=
  if t.mapSeenVotes.contains (K.getHash vote) then t
  else if (E.find (K.prevout vote)).isNone then t
  else
    let t := { t with mapSeenVotes := t.mapSeenVotes.insert (K.getHash vote) vote }
    if K.isValid E vote then (t.update P K E true vote).2 else t

def CBudgetVote.received (v : CBudgetVote) : CBudgetVote := { v with fValid := true }

def CFinalizedBudgetVote.received (v : CFinalizedBudgetVote) : CFinalizedBudgetVote :=
  { v with fValid := true }

structure BudgetTables where
  proposals : VoteTables CBudgetProposalBroadcast CBudgetVote
  budgets : VoteTables CFinalizedBudgetBroadcast CFinalizedBudgetVote

def BudgetTables.empty : BudgetTables := ⟨.empty,.empty⟩

inductive BudgetMessage where
  | sprop (budgetProposal : CBudgetProposalBroadcast)
  | svote (vote : CBudgetVote)
  | fbs (finalizedBudget : CFinalizedBudgetBroadcast)
  | fbvote (vote : CFinalizedBudgetVote)

def BudgetTables.checkOrphanVotes (P : Params) (E : BudgetEnv) (t : BudgetTables) : BudgetTables :=
  ⟨t.proposals.checkOrphanVotes P (budgetVotes P) E,t.budgets.checkOrphanVotes P (finalizedBudgetVotes P) E⟩

def BudgetTables.processMessage (P : Params) (t : BudgetTables) (m : BudgetEnv × BudgetMessage) :
    BudgetTables :=
  if m.1.fLiteMode || !m.1.isBlockchainSynced then t
  else match m.2 with
    | .sprop p =>
      let (added,proposals) := t.proposals.processItem (p.getHash P) p
        (isBudgetCollateralValid m.1 p.nFeeTXHash (p.getHash P)).toBool (p.isValid P m.1 ∅ true).toBool
      let t := { t with proposals := proposals }
      if added then t.checkOrphanVotes P m.1 else t
    | .svote vote => { t with proposals := t.proposals.processVote P (budgetVotes P) m.1 vote.received }
    | .fbs b =>
      let (added,budgets) := t.budgets.processItem (b.getHash P) b
        (isBudgetCollateralValid m.1 b.nFeeTXHash (b.getHash P)).toBool (b.isValid P m.1 true).toBool
      let t := { t with budgets := budgets }
      if added then t.checkOrphanVotes P m.1 else t
    | .fbvote vote => { t with budgets := t.budgets.processVote P (finalizedBudgetVotes P) m.1 vote.received }

variable {P} {K} {votes : List V} {vote : V} {h k : UInt256}

/-- As long as no block has the hash of the null header, only a transaction lock confirms a fee
transaction on a node. -/
theorem isBudgetCollateralValid_on {E : BudgetEnv} {files pool n s nInstantXDepth nTxCollateralHash}
    (hn : n.NoNullBlock P)
    (hlock : s.getIXConfirmations nInstantXDepth nTxCollateralHash < BUDGET_FEE_CONFIRMATIONS)
    (nExpectedHash) :
    (isBudgetCollateralValid (E.on P files pool n s nInstantXDepth) nTxCollateralHash
      nExpectedHash).toBool = false := by
  unfold isBudgetCollateralValid
  cases hget : (E.on P files pool n s nInstantXDepth).getTransaction nTxCollateralHash with
  | none => rfl
  | some found =>
    obtain ⟨txCollateral,nBlockHash⟩ := found
    have hblock : n.mapBlockIndex[nBlockHash]? = none := hn.getElem?_hashBlock hget
    have hheight : (E.on P files pool n s nInstantXDepth).mainHeight nBlockHash = none := by
      simp only [BudgetEnv.on,hblock,Option.bind_none]
    have hconf : ¬ (E.on P files pool n s nInstantXDepth).getIXConfirmations nTxCollateralHash+
        chainConfirmations (E.on P files pool n s nInstantXDepth) nBlockHash ≥ BUDGET_FEE_CONFIRMATIONS := by
      have hzero : chainConfirmations (E.on P files pool n s nInstantXDepth) nBlockHash = 0 := by
        unfold chainConfirmations
        rw [hheight]
        exact ite_self 0
      rw [hzero,Int.add_zero]
      exact Int.not_le.mpr hlock
    dsimp only
    rw [if_neg hconf]
    split_ifs <;> rfl

def supersede (K : VoteKind V) : Option V → V → Option V
  | none, vote => some vote
  | some old, vote => if K.nTime old+BUDGET_VOTE_UPDATE_MIN ≤ K.nTime vote then some vote else some old

def votesFor (P : Params) (K : VoteKind V) (h k : UInt256) (vote : V) : Bool :=
  K.item vote = h && voteKey P (K.prevout vote) = k

/-- The vote of a stormnode for an item that counts when these votes have come. -/
def latestVote (P : Params) (K : VoteKind V) (votes : List V) (h k : UInt256) : Option V :=
  (votes.filter (votesFor P K h k)).foldl (supersede K) none

/-- No time before 1970 makes the interval wrap. -/
theorem interval_eq {old : V} (hold : 0 ≤ K.nTime old) (hle : K.nTime old ≤ K.nTime vote) :
    (K.nTime vote-K.nTime old).bmod (2^64) = K.nTime vote-K.nTime old := by
  have hlt := K.nTime_lt vote
  exact Int.bmod_eq_of_le (by omega) (by omega)

theorem addOrUpdateVote_lookup (vote : V) (mapVotes : HashMap V) (k : UInt256)
    (hold : ∀ old, mapVotes[k]? = some old → 0 ≤ K.nTime old) :
    (addOrUpdateVote P K vote mapVotes).2[k]? =
      if voteKey P (K.prevout vote) = k then supersede K mapVotes[k]? vote else mapVotes[k]? := by
  have hmin : 0 < BUDGET_VOTE_UPDATE_MIN := by decide
  unfold addOrUpdateVote
  by_cases hk : voteKey P (K.prevout vote) = k
  · subst hk
    rw [if_pos rfl]
    cases hsome : mapVotes[voteKey P (K.prevout vote)]? with
    | none => simp [supersede]
    | some old =>
      have hlookup := hold old hsome
      simp only [supersede]
      by_cases hlater : K.nTime old > K.nTime vote
      · rw [if_pos hlater,if_neg (by omega)]
        exact hsome
      rw [if_neg hlater,interval_eq hlookup (by omega)]
      by_cases hsoon : K.nTime vote-K.nTime old < BUDGET_VOTE_UPDATE_MIN
      · rw [if_pos hsoon,if_neg (by omega)]
        exact hsome
      · rw [if_neg hsoon,if_pos (by omega),getElem?_insert,if_pos rfl]
  · rw [if_neg hk]
    split
    · split_ifs
      · rfl
      · rfl
      · rw [getElem?_insert,if_neg hk]
    · rw [getElem?_insert,if_neg hk]

theorem latestVote_concat (votes) (vote : V) : latestVote P K (votes++[vote]) h k =
      if votesFor P K h k vote then supersede K (latestVote P K votes h k) vote else latestVote P K
        votes h k := by
  unfold latestVote
  rw [filter_append,foldl_append]
  by_cases hv : votesFor P K h k vote
  · rw [if_pos hv,filter_cons_of_pos hv,filter_nil,foldl_cons,foldl_nil]
  · rw [if_neg hv,filter_cons_of_neg hv,filter_nil,foldl_nil]

/-- What counts is never so old that a vote received before could still follow it. -/
theorem exists_latestVote (hmem : vote ∈ votes) (hv : votesFor P K h k vote) :
    ∃ e, latestVote P K votes h k = some e ∧ K.nTime vote < K.nTime e+BUDGET_VOTE_UPDATE_MIN := by
  have hmin : 0 < BUDGET_VOTE_UPDATE_MIN := by decide
  induction votes using reverseRecOn with
  | nil => simp at hmem
  | append_singleton votes w ih =>
    rw [latestVote_concat]
    rcases mem_append.mp hmem with hmem | hmem
    · obtain ⟨e,he,hlt⟩ := ih hmem
      split_ifs
      · rw [he,supersede]
        split_ifs with hle
        · exact ⟨w,rfl,by omega⟩
        · exact ⟨e,rfl,hlt⟩
      · exact ⟨e,he,hlt⟩
    · obtain rfl := mem_singleton.mp hmem
      rw [if_pos hv]
      cases latestVote P K votes h k with
      | none => exact ⟨vote,rfl,by omega⟩
      | some e =>
        rw [supersede]
        split_ifs with hle
        · exact ⟨vote,rfl,by omega⟩
        · exact ⟨e,rfl,by omega⟩

theorem latestVote_concat_of_mem {old} (hmem : old ∈ votes) (hitem : K.item old = K.item vote)
    (hvoter : K.prevout old = K.prevout vote) (htime : K.nTime old = K.nTime vote) :
    latestVote P K (votes++[vote]) h k = latestVote P K votes h k := by
  rw [latestVote_concat]
  split_ifs with hv
  · have hold : votesFor P K h k old := by
      rw [votesFor,hitem,hvoter]
      exact hv
    obtain ⟨e,he,hlt⟩ := exists_latestVote hmem hold
    rw [he,supersede,if_neg (by omega)]
  · rfl

theorem mem_of_latestVote {e} (he : latestVote P K votes h k = some e) :
    e ∈ votes ∧ votesFor P K h k e := by
  induction votes using reverseRecOn with
  | nil => simp [latestVote] at he
  | append_singleton votes w ih =>
    have hkeep : latestVote P K votes h k = some e → e ∈ votes++[w] ∧ votesFor P K h k e :=
      fun he => ⟨mem_append_left _ (ih he).1,(ih he).2⟩
    rw [latestVote_concat] at he
    split_ifs at he with hv
    · cases hl : latestVote P K votes h k with
      | none =>
        rw [hl] at he
        rw [← Option.some.inj he]
        exact ⟨by simp,hv⟩
      | some old =>
        rw [hl,supersede] at he
        split_ifs at he
        · rw [← Option.some.inj he]
          exact ⟨by simp,hv⟩
        · exact hkeep (hl.trans he)
    · exact hkeep he

theorem latestVote_eq_of_forall {o : Option V}
    (hunique : ∀ e ∈ votes, votesFor P K h k e → o = some e)
    (hmem : ∀ e, o = some e → e ∈ votes ∧ votesFor P K h k e) : latestVote P K votes h k = o := by
  cases o with
  | none =>
    cases hl : latestVote P K votes h k with
    | none => rfl
    | some e => exact (hunique e (mem_of_latestVote hl).1 (mem_of_latestVote hl).2).symm
  | some vote =>
    obtain ⟨e,he,-⟩ := exists_latestVote (hmem vote rfl).1 (hmem vote rfl).2
    rw [he]
    exact (hunique e (mem_of_latestVote he).1 (mem_of_latestVote he).2).symm

theorem latestVote_of_newest (hmem : vote ∈ votes) (hv : votesFor P K h k vote)
    (hnew : ∀ w ∈ votes, votesFor P K h k w →
      w = vote ∨ K.nTime w+BUDGET_VOTE_UPDATE_MIN ≤ K.nTime vote) :
    latestVote P K votes h k = some vote := by
  obtain ⟨e,he,hlt⟩ := exists_latestVote hmem hv
  obtain ⟨hemem,hev⟩ := mem_of_latestVote he
  rcases hnew e hemem hev with rfl | hle
  · exact he
  · omega

end DarkSilk
