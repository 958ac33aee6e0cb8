import DarkSilk.ConnectInputs

/-! Connecting a block to the transaction index and disconnecting it again. Both
write to the open database transaction, to the amounts kept with the index entry
and to the wallets; what they write there is the state passed along. -/
namespace DarkSilk

open BatchStore List SpendIndex

structure SyncEvent where
  tx : CTransaction
  pblock : Option CBlock
  fConnect : Bool
  deriving DecidableEq

structure ChainState where
  txdb : CTxDB
  pnext : UInt256 → Option CBlockIndex
  nMint : UInt256 → CAmount
  nMoneySupply : UInt256 → CAmount
  syncLog : List SyncEvent

def ChainState.diskIndex (s : ChainState) (pindex : CBlockIndex) : CDiskBlockIndex :=
  .ofIndex pindex (((s.pnext pindex.getBlockHash).map CBlockIndex.getBlockHash).getD 0)
    (s.nMint pindex.getBlockHash) (s.nMoneySupply pindex.getBlockHash)

def BlockIndexData.diskTxPos (d : BlockIndexData) (nTxPos : UInt32) : CDiskTxPos :=
  ⟨d.nFile,d.nBlockPos,nTxPos,fun h => absurd h d.stored⟩

theorem BlockIndexData.diskTxPos_ne_null (d : BlockIndexData) (nTxPos) :
    d.diskTxPos nTxPos ≠ .setNull := fun h => d.stored (congrArg CDiskTxPos.nFile h)

def firstTxPos (d : BlockIndexData) (b : CBlock) (fJustCheck : Bool) : UInt32 :=
  if fJustCheck then 1
  else d.nBlockPos+UInt32.ofNat (CBlock.setNull.serialize.length-2*getSizeOfCompactSize 0+
    getSizeOfCompactSize b.vtx.length)

def txPositions (d : BlockIndexData) (fJustCheck : Bool) : UInt32 → List CTransaction →
    List (CTransaction × CDiskTxPos)
  | _, [] => []
  | nTxPos, tx::vtx => (tx,d.diskTxPos nTxPos)::
      txPositions d fJustCheck (if fJustCheck then nTxPos else nTxPos+UInt32.ofNat tx.serialize.length) vtx

def blockPositions (d : BlockIndexData) (b : CBlock) (fJustCheck : Bool) :
    List (CTransaction × CDiskTxPos) :=
  txPositions d fJustCheck (firstTxPos d b fJustCheck) b.vtx

structure Tally where
  pool : HashMap CTxIndex
  nFees : CAmount
  nValueIn : CAmount
  nValueOut : CAmount
  nStakeReward : CAmount
  nSigOps : ℕ

def Tally.zero : Tally := ⟨∅,0,0,0,0,0⟩

def getProofOfWorkReward (tip : Tip) (nFees : CAmount) : CAmount :=
  if tip.pindexBest.nHeight = 0 then 4000000*COIN+nFees else STATIC_POW_REWARD+nFees

variable {b : CBlock} {s s' : ChainState}

section

variable (P : Params) (W : World) (tip : Tip) (db : CTxDB) (pindex : CBlockIndex)

def connectTx (tx : CTransaction) (posThisTx : CDiskTxPos) (t : Tally) : Except Reject Tally := do
  let nSigOps := t.nSigOps+Script.getLegacySigOpCount tx
  require (nSigOps ≤ MAX_BLOCK_SIGOPS) 100 "ConnectBlock() : too many sigops"
  if tx.isCoinBase then
    match tx.getValueOut with
    | none => .error ⟨0,"CTransaction::GetValueOut() : value out of range"⟩
    | some nValueOut =>
      .ok { t with
        pool := t.pool.insert (tx.getHash P) (.new posThisTx tx.vout.length)
        nValueOut := t.nValueOut+nValueOut
        nSigOps := nSigOps }
  else do
    let inputs ← fetchInputs W db t.pool true false tx
    let nSigOps := nSigOps+getP2SHSigOpCount inputs tx
    require (nSigOps ≤ MAX_BLOCK_SIGOPS) 100 "ConnectBlock() : too many sigops"
    match getValueIn inputs tx, tx.getValueOut with
    | some nTxValueIn, some nTxValueOut => do
      let pool ← connectInputs P tip tx posThisTx pindex true false Flags.block true inputs t.pool
      .ok { pool := pool.insert (tx.getHash P) (.new posThisTx tx.vout.length)
            nFees := if tx.isCoinStake then t.nFees else t.nFees+(nTxValueIn-nTxValueOut)
            nValueIn := t.nValueIn+nTxValueIn
            nValueOut := t.nValueOut+nTxValueOut
            nStakeReward := if tx.isCoinStake then nTxValueOut-nTxValueIn else t.nStakeReward
            nSigOps := nSigOps }
    | _, _ => .error ⟨0,"CTransaction::GetValueOut() : value out of range"⟩

def connectTxs : List (CTransaction × CDiskTxPos) → Tally → Except Reject Tally
  | [], t => .ok t
  | (tx,posThisTx)::l, t => do
    let t ← connectTx P W tip db pindex tx posThisTx t
    connectTxs l t

def checkReward (b : CBlock) (t : Tally) : Except Reject Unit := do
  (if b.isProofOfWork then
    match (b.vtx.head?).bind CTransaction.getValueOut with
    | none => .error ⟨0,"CTransaction::GetValueOut() : value out of range"⟩
    | some nValueOut => require (nValueOut ≤ getProofOfWorkReward tip t.nFees) 50
        "ConnectBlock() : coinbase reward exceeded"
  else .ok ())
  (if b.isProofOfStake then
    require (t.nStakeReward ≤ STATIC_POS_REWARD+t.nFees) 100 "ConnectBlock() : coinstake pays too much"
  else .ok ())

/-- Everything that ConnectBlock decides before it writes anything. -/
def connectChecks (b : CBlock) (fJustCheck : Bool) : Except Reject Tally := do
  checkBlock P W b (!fJustCheck) (!fJustCheck) false
  let t ← connectTxs P W tip db pindex (blockPositions pindex.data b fJustCheck) .zero
  checkReward tip b t
  .ok t

end

variable (P : Params) (W : World)

def writeAddrs (hashTx : UInt256) (vout : List CTxOut) (db : CTxDB) : CTxDB :=
  vout.foldl (fun db o => (Script.buildAddrIndex P o.scriptPubKey).foldl
    (fun (db : CTxDB) addrId => db.writeAddrIndex addrId hashTx) db) db

def writeTxAddrs (tx : CTransaction) (db : CTxDB) : Except Reject Unit × CTxDB :=
  if tx.isCoinBase then (.ok (),writeAddrs P (tx.getHash P) tx.vout db)
  else match fetchInputs W db ∅ true false tx with
    | .error e => (.error e,db)
    | .ok inputs => (.ok (),writeAddrs P (tx.getHash P) tx.vout
        (inputs.toList.foldl (fun db e => writeAddrs P (tx.getHash P) e.2.2.vout db) db))

def writeBlockAddrs : List CTransaction → CTxDB → Except Reject Unit × CTxDB
  | [], db => (.ok (),db)
  | tx::vtx, db =>
    match writeTxAddrs P W tx db with
    | (.error e,db) => (.error e,db)
    | (.ok _,db) => writeBlockAddrs vtx db

section

variable (tip : Tip)

def connectBlock (pindex : CBlockIndex) (b : CBlock) (fJustCheck : Bool) (s : ChainState) :
    Except Reject Unit × ChainState :=
  match connectChecks P W tip s.txdb pindex b fJustCheck with
  | .error e => (.error e,s)
  | .ok t =>
    let hash := pindex.getBlockHash
    let prevSupply := (pindex.pprev.map fun p => s.nMoneySupply p.getBlockHash).getD 0
    let s := { s with
      nMint := Function.update s.nMint hash (t.nValueOut-t.nValueIn+t.nFees)
      nMoneySupply := Function.update s.nMoneySupply hash (prevSupply+t.nValueOut-t.nValueIn) }
    let s := { s with txdb := s.txdb.writeBlockIndex (s.diskIndex pindex) }
    if fJustCheck then (.ok (),s)
    else
      match writeBlockAddrs P W b.vtx (s.txdb.writeQueue t.pool) with
      | (.error e,db) => (.error e,{ s with txdb := db })
      | (.ok _,db) =>
        let db := match pindex.pprev with
          | none => db
          | some pprev => db.writeBlockIndex { s.diskIndex pprev with hashNext := hash }
        (.ok (),{ s with
          txdb := db
          syncLog := s.syncLog++b.vtx.map fun tx => ⟨tx,some b,true⟩ })

def releaseInputs : List CTxIn → CTxDB → Except Reject Unit × CTxDB
  | [], db => (.ok (),db)
  | i::vin, db =>
    match db.readTxIndex i.prevout.hash with
    | none => (.error ⟨0,"DisconnectInputs() : ReadTxIndex failed"⟩,db)
    | some txindex =>
      if txindex.vSpent.length ≤ i.prevout.n.toNat then
        (.error ⟨0,"DisconnectInputs() : prevout.n out of range"⟩,db)
      else releaseInputs vin (db.updateTxIndex i.prevout.hash
        ⟨txindex.pos,txindex.vSpent.set i.prevout.n.toNat .setNull⟩)

def disconnectInputs (tx : CTransaction) (db : CTxDB) : Except Reject Unit × CTxDB :=
  if tx.isCoinBase then (.ok (),db.eraseTxIndex (tx.getHash P))
  else match releaseInputs tx.vin db with
    | (.error e,db) => (.error e,db)
    | (.ok _,db) => (.ok (),db.eraseTxIndex (tx.getHash P))

def disconnectTxs : List CTransaction → CTxDB → Except Reject Unit × CTxDB
  | [], db => (.ok (),db)
  | tx::vtx, db =>
    match disconnectInputs P tx db with
    | (.error e,db) => (.error e,db)
    | (.ok _,db) => disconnectTxs vtx db

def disconnectBlock (pindex : CBlockIndex) (b : CBlock) (s : ChainState) :
    Except Reject Unit × ChainState :=
  match disconnectTxs P b.vtx.reverse s.txdb with
  | (.error e,db) => (.error e,{ s with txdb := db })
  | (.ok _,db) =>
    let s := { s with txdb := match pindex.pprev with
      | none => db
      | some pprev => db.writeBlockIndex { s.diskIndex pprev with hashNext := 0 } }
    (.ok (),{ s with syncLog := s.syncLog++b.vtx.map fun tx => ⟨tx,some b,false⟩ })

end

def txEntry (x : CTransaction × CDiskTxPos) : SpendIndex.Entry UInt256 CDiskTxPos where
  id := x.1.getHash P
  outs := x.1.vout.length
  ins := if x.1.isCoinBase then [] else x.1.vin.map fun i => i.prevout.key
  pos := x.2

def blockEntries (d : BlockIndexData) (b : CBlock) : List (SpendIndex.Entry UInt256 CDiskTxPos) :=
  (blockPositions d b false).map (txEntry P)

theorem map_fst_txPositions (d fJustCheck n vtx) :
    (txPositions d fJustCheck n vtx).map Prod.fst = vtx := by
  induction vtx generalizing n with
  | nil => rfl
  | cons tx vtx ih => simp [txPositions,ih]

theorem pos_ne_null_of_mem_txPositions {d fJustCheck n vtx x}
    (hx : x ∈ txPositions d fJustCheck n vtx) :
    x.2 ≠ .setNull := by
  induction vtx generalizing n with
  | nil => simp [txPositions] at hx
  | cons tx vtx ih =>
    rcases mem_cons.mp hx with rfl | hx
    · exact d.diskTxPos_ne_null n
    · exact ih hx

theorem pos_ne_null_of_mem_blockEntries {d e} (he : e ∈ blockEntries P d b) : e.pos ≠ .setNull := by
  obtain ⟨x,hx,rfl⟩ := mem_map.mp he
  exact pos_ne_null_of_mem_txPositions hx

theorem map_id_blockEntries (d b) :
    (blockEntries P d b).map Entry.id = b.vtx.map (CTransaction.getHash P) := by
  have h := map_fst_txPositions d false (firstTxPos d b false) b.vtx
  calc (blockEntries P d b).map Entry.id
      = ((blockPositions d b false).map Prod.fst).map (CTransaction.getHash P) := by
        simp [blockEntries,Function.comp_def,txEntry]
    _ = b.vtx.map (CTransaction.getHash P) := by rw [blockPositions,h]

section

variable {P} {W} {tip : Tip} {db : CTxDB} {pindex : CBlockIndex}

variable {tx : CTransaction} {p : CDiskTxPos} {t t' : Tally}

theorem connectTx_cases (h : connectTx P W tip db pindex tx p t = .ok t') :
    (tx.isCoinBase ∧ ∃ v, tx.getValueOut = some v ∧
      t'.pool = t.pool.insert (tx.getHash P) (.new p tx.vout.length) ∧ t'.nFees = t.nFees ∧
      t'.nValueIn = t.nValueIn ∧ t'.nValueOut = t.nValueOut+v ∧ t'.nStakeReward = t.nStakeReward) ∨
    (tx.isCoinBase = false ∧ ∃ inputs pool vin vout, fetchInputs W db t.pool true false tx =
      .ok inputs ∧
      connectInputs P tip tx p pindex true false Flags.block true inputs t.pool = .ok pool ∧
      getValueIn inputs tx = some vin ∧ tx.getValueOut = some vout ∧
      t'.pool = pool.insert (tx.getHash P) (.new p tx.vout.length) ∧
      t'.nFees = (if tx.isCoinStake then t.nFees else t.nFees+(vin-vout)) ∧
      t'.nValueIn = t.nValueIn+vin ∧ t'.nValueOut = t.nValueOut+vout ∧
      t'.nStakeReward = if tx.isCoinStake then vout-vin else t.nStakeReward) := by
  simp only [connectTx,andThen_eq_ok] at h
  obtain ⟨-,h⟩ := h
  by_cases hcb : tx.isCoinBase
  · left
    rw [if_pos hcb] at h
    split at h
    · cases h
    · rename_i v hv
      rw [Except.ok.injEq] at h
      subst h
      exact ⟨hcb,v,hv,rfl,rfl,rfl,rfl,rfl⟩
  · right
    rw [if_neg hcb] at h
    obtain ⟨inputs,hin,h⟩ := bind_eq_ok.mp h
    simp only [andThen_eq_ok] at h
    obtain ⟨-,h⟩ := h
    split at h
    · rename_i vin vout hvin hvout
      obtain ⟨pool,hpool,h⟩ := bind_eq_ok.mp h
      rw [Except.ok.injEq] at h
      subst h
      exact ⟨by simpa using hcb,inputs,pool,vin,vout,hin,hpool,hvin,hvout,rfl,rfl,rfl,rfl,rfl⟩
    · cases h

theorem connectTx_entry (h : connectTx P W tip db pindex tx p t = .ok t') :
    connect .setNull (txEntry P (tx,p)) (overlay t.pool db.txView) =
      some (overlay t'.pool db.txView) := by
  rcases connectTx_cases h with ⟨hcb,v,-,hpool,-⟩ | ⟨hcb,inputs,pool,vin,vout,hin,hc,-,-,hpool,-⟩
  · simp [connect,txEntry,hcb,spendAll,hpool,fresh,CTxIndex.new]
  · have hs := connectInputs_spend hcb (fetchInputs_spec hcb hin).1 hc
    simp [connect,txEntry,hcb,hs,hpool,fresh,CTxIndex.new]

theorem connectTxs_entries {l} (h : connectTxs P W tip db pindex l t = .ok t') :
    connectAll .setNull (l.map (txEntry P)) (overlay t.pool db.txView) =
      some (overlay t'.pool db.txView) := by
  induction l generalizing t with
  | nil =>
    rw [connectTxs,Except.ok.injEq] at h
    simp [connectAll,h]
  | cons x l ih =>
    obtain ⟨m,hm,h1⟩ := bind_eq_ok.mp h
    rw [map_cons,connectAll,connectTx_entry hm,Option.bind_some]
    exact ih h1

theorem connectChecks_eq_ok {fJustCheck} : connectChecks P W tip db pindex b fJustCheck = .ok t ↔
      checkBlock P W b (!fJustCheck) (!fJustCheck) false = .ok () ∧
      connectTxs P W tip db pindex (blockPositions pindex.data b fJustCheck) .zero = .ok t ∧
      checkReward tip b t = .ok () := by
  simp only [connectChecks,bind_eq_ok,Except.ok.injEq]
  constructor
  · rintro ⟨_,h1,t',h2,_,h3,rfl⟩
    exact ⟨h1,h2,h3⟩
  · rintro ⟨h1,h2,h3⟩
    exact ⟨(),h1,t,h2,(),h3,rfl⟩

end

/-- The transaction records stay, and only the open database transaction changes. -/
def Quiet (db db' : CTxDB) : Prop := db'.txView = db.txView ∧ TxDB.Pending db db'

theorem Quiet.refl (db : CTxDB) : Quiet db db := ⟨rfl,.refl db⟩

theorem Quiet.trans {a b c} (h : Quiet a b) (h' : Quiet b c) : Quiet a c :=
  ⟨h'.1.trans h.1,h.2.trans h'.2⟩

theorem quiet_foldl {α : Type} {f} (hf : ∀ db a, Quiet db (f db a)) (l : List α) (db : CTxDB) :
    Quiet db (l.foldl f db) := by
  induction l generalizing db with
  | nil => exact .refl db
  | cons a l ih => exact (hf db a).trans (ih _)

variable {P} {W}

open CTxDB

theorem quiet_writeAddrs (hashTx : UInt256) (vout) (db : CTxDB) :
    Quiet db (writeAddrs P hashTx vout db) :=
  quiet_foldl (fun db _ => quiet_foldl (fun db a =>
    ⟨txView_writeAddrIndex db a hashTx,pending_writeAddrIndex db a hashTx⟩) _ db) vout db

theorem quiet_writeTxAddrs (tx : CTransaction) (db : CTxDB) :
    Quiet db (writeTxAddrs P W tx db).2 := by
  unfold writeTxAddrs
  split_ifs
  · exact quiet_writeAddrs _ _ _
  · split
    · exact .refl db
    · exact (quiet_foldl (fun db e => quiet_writeAddrs _ _ _) _ db).trans (quiet_writeAddrs _ _ _)

theorem quiet_writeBlockAddrs (vtx) (db : CTxDB) : Quiet db (writeBlockAddrs P W vtx db).2 := by
  induction vtx generalizing db with
  | nil => exact .refl db
  | cons tx vtx ih =>
    have h := quiet_writeTxAddrs (P := P) (W := W) tx db
    unfold writeBlockAddrs
    split <;> rename_i hw <;> rw [hw] at h
    · exact h
    · exact h.trans (ih _)

theorem quiet_writeBlockIndex (db : CTxDB) (b) : Quiet db (db.writeBlockIndex b) :=
  ⟨txView_writeBlockIndex db b,TxDB.pending_put _ _ _⟩

section

variable {tip : Tip} {pindex : CBlockIndex}

theorem connectBlock_ok (h : connectBlock P W tip pindex b false s = (.ok (),s')) :
    ∃ t, connectChecks P W tip s.txdb pindex b false = .ok t ∧
      s'.txdb.txView = overlay t.pool s.txdb.txView ∧
      s'.nMoneySupply = Function.update s.nMoneySupply pindex.getBlockHash
        ((pindex.pprev.map fun p => s.nMoneySupply p.getBlockHash).getD 0+t.nValueOut-t.nValueIn) ∧
      s'.syncLog = s.syncLog++b.vtx.map fun tx => ⟨tx,some b,true⟩ := by
  unfold connectBlock at h
  split at h
  · cases h
  · rename_i t ht
    simp only [Bool.false_eq_true,if_false] at h
    split at h
    · cases h
    · rename_i db hdb
      have hq := quiet_writeBlockAddrs (P := P) (W := W) b.vtx
        ((s.txdb.writeBlockIndex (ChainState.diskIndex { s with
          nMint := Function.update s.nMint pindex.getBlockHash (t.nValueOut-t.nValueIn+t.nFees)
          nMoneySupply := Function.update s.nMoneySupply pindex.getBlockHash
            ((pindex.pprev.map fun p => s.nMoneySupply p.getBlockHash).getD 0+t.nValueOut-t.nValueIn) }
          pindex)).writeQueue t.pool)
      rw [hdb] at hq
      cases h
      refine ⟨t,ht,?_,rfl,rfl⟩
      have hview : db.txView = overlay t.pool s.txdb.txView := by
        rw [hq.1,txView_writeQueue,txView_writeBlockIndex]
      cases pindex.pprev <;> simpa using hview

/-- Connecting a block, whether it succeeds or not, leaves the pointers alone and
writes to the open database transaction only; the wallets hear of a success only. -/
theorem connectBlock_frame (P W tip pindex b s) :
    TxDB.Pending s.txdb (connectBlock P W tip pindex b false s).2.txdb ∧
      (connectBlock P W tip pindex b false s).2.pnext = s.pnext := by
  unfold connectBlock
  split
  · exact ⟨.refl _,rfl⟩
  · rename_i t ht
    simp only [Bool.false_eq_true,if_false]
    have hpend : ∀ c : CDiskBlockIndex, TxDB.Pending s.txdb
        (writeBlockAddrs P W b.vtx ((s.txdb.writeBlockIndex c).writeQueue t.pool)).2 := by
      intro c
      exact ((quiet_writeBlockIndex s.txdb c).2.trans (pending_writeQueue _ _)).trans
        (quiet_writeBlockAddrs _ _).2
    split <;> rename_i hdb <;> have hp := congrArg (fun x => TxDB.Pending s.txdb x.2) hdb <;>
      simp only [hpend,eq_iff_iff,true_iff] at hp
    · exact ⟨hp,rfl⟩
    · refine ⟨?_,rfl⟩
      cases pindex.pprev with
      | none => exact hp
      | some q => exact hp.trans (quiet_writeBlockIndex _ _).2

/-- An accepted block is, for the index, the list of its entries connected in order. -/
theorem connectBlock_entries (h : connectBlock P W tip pindex b false s = (.ok (),s')) :
    connectAll .setNull (blockEntries P pindex.data b) s.txdb.txView = some s'.txdb.txView := by
  obtain ⟨t,ht,hview,-⟩ := connectBlock_ok h
  obtain ⟨-,htxs,-⟩ := connectChecks_eq_ok.mp ht
  rw [hview,← overlay_empty s.txdb.txView]
  simpa [Tally.zero,blockEntries] using connectTxs_entries htxs

theorem connectBlock_checked (h : connectBlock P W tip pindex b false s = (.ok (),s')) :
    b.Checked P := by
  obtain ⟨t,ht,-⟩ := connectBlock_ok h
  exact checked_of_checkBlock P W (connectChecks_eq_ok.mp ht).1

end

def outcome (r : Except Reject Unit × CTxDB) : Option TxIndex :=
  match r with
  | (.ok _,db) => some db.txView
  | (.error _,_) => none

theorem outcome_eq_some {r idx} :
    outcome r = some idx ↔ ∃ db, r = (.ok (),db) ∧ db.txView = idx := by
  rcases r with ⟨e | u,db⟩ <;> simp [outcome]

theorem outcome_releaseInputs (vin) (db : CTxDB) : outcome (releaseInputs vin db) =
      releaseAll .setNull (vin.map fun i => i.prevout.key) db.txView := by
  induction vin generalizing db with
  | nil => rfl
  | cons i vin ih =>
    rw [releaseInputs,map_cons,releaseAll,release,readTxIndex_eq]
    cases hr : db.txView i.prevout.hash with
    | none => simp [COutPoint.key,hr,outcome]
    | some r =>
      by_cases hn : i.prevout.n.toNat < r.vSpent.length
      · simp [COutPoint.key,hr,hn,Nat.not_le.mpr hn,ih]
      · simp [COutPoint.key,hr,hn,Nat.not_lt.mp hn,outcome]

theorem outcome_disconnectInputs (tx p) (db : CTxDB) : outcome (disconnectInputs P tx db) =
      disconnect .setNull (txEntry P (tx,p)) db.txView := by
  by_cases hcb : tx.isCoinBase
  · simp [disconnectInputs,hcb,disconnect,txEntry,releaseAll,outcome]
  · have hr := outcome_releaseInputs tx.vin db
    simp only [disconnectInputs,hcb,Bool.false_eq_true,if_false,disconnect,txEntry,← hr]
    rcases releaseInputs tx.vin db with ⟨e | u,db'⟩ <;> simp [outcome]

theorem disconnectTxs_append (l m) (db : CTxDB) :
    disconnectTxs P (l++m) db = match disconnectTxs P l db with
      | (.error e,db) => (.error e,db)
      | (.ok _,db) => disconnectTxs P m db := by
  induction l generalizing db with
  | nil => rfl
  | cons tx l ih =>
    rw [cons_append,disconnectTxs,disconnectTxs]
    rcases disconnectInputs P tx db with ⟨e | u,db'⟩
    · rfl
    · exact ih db'

theorem outcome_disconnectTxs (l : List (CTransaction × CDiskTxPos)) (db : CTxDB) :
    outcome (disconnectTxs P (l.map Prod.fst).reverse db) =
      disconnectAll .setNull (l.map (txEntry P)) db.txView := by
  induction l generalizing db with
  | nil => rfl
  | cons x l ih =>
    rw [map_cons,map_cons,reverse_cons,disconnectTxs_append,disconnectAll,← ih]
    rcases disconnectTxs P (l.map Prod.fst).reverse db with ⟨e | u,db'⟩
    · rfl
    · have h := outcome_disconnectInputs (P := P) x.1 x.2 db'
      simp only [outcome,Option.bind_some,disconnectTxs]
      rcases hd : disconnectInputs P x.1 db' with ⟨e | u,db''⟩ <;> rw [hd] at h <;> exact h

variable {pindex : CBlockIndex}

theorem disconnectBlock_entries (P) (pindex : CBlockIndex) (b) (s : ChainState) (idx : TxIndex) :
    disconnectAll .setNull (blockEntries P pindex.data b) s.txdb.txView = some idx ↔
      ∃ s', disconnectBlock P pindex b s = (.ok (),s') ∧ s'.txdb.txView = idx := by
  have hmap := map_fst_txPositions pindex.data false (firstTxPos pindex.data b false) b.vtx
  rw [blockEntries,← outcome_disconnectTxs,blockPositions,hmap,outcome_eq_some]
  unfold disconnectBlock
  constructor
  · rintro ⟨db,hdb,rfl⟩
    rw [hdb]
    refine ⟨_,rfl,?_⟩
    cases pindex.pprev <;> simp
  · rintro ⟨s',hs,rfl⟩
    split at hs
    · cases hs
    · rename_i db hdb
      refine ⟨db,hdb,?_⟩
      cases hs
      cases pindex.pprev <;> simp

theorem releaseInputs_pending (vin) (db : CTxDB) : TxDB.Pending db (releaseInputs vin db).2 := by
  induction vin generalizing db with
  | nil => exact .refl db
  | cons i vin ih =>
    rw [releaseInputs]
    split
    · exact .refl db
    · split_ifs
      · exact .refl db
      · exact (TxDB.pending_put db _ _).trans (ih _)

theorem disconnectTxs_pending (vtx) (db : CTxDB) : TxDB.Pending db (disconnectTxs P vtx db).2 := by
  induction vtx generalizing db with
  | nil => exact .refl db
  | cons tx vtx ih =>
    have h : TxDB.Pending db (disconnectInputs P tx db).2 := by
      unfold disconnectInputs
      split_ifs
      · exact TxDB.pending_put _ _ _
      · have hr := releaseInputs_pending tx.vin db
        split <;> rename_i hd <;> rw [hd] at hr
        · exact hr
        · exact hr.trans (TxDB.pending_put _ _ _)
    rw [disconnectTxs]
    split <;> rename_i hd <;> rw [hd] at h
    · exact h
    · exact h.trans (ih _)

theorem disconnectBlock_frame (P pindex b s) :
    TxDB.Pending s.txdb (disconnectBlock P pindex b s).2.txdb ∧
      (disconnectBlock P pindex b s).2.pnext = s.pnext := by
  have h := disconnectTxs_pending (P := P) b.vtx.reverse s.txdb
  unfold disconnectBlock
  split <;> rename_i hd <;> rw [hd] at h
  · exact ⟨h,rfl⟩
  · refine ⟨?_,rfl⟩
    cases pindex.pprev with
    | none => exact h
    | some q => exact h.trans (quiet_writeBlockIndex _ _).2

theorem disconnectBlock_syncLog (h : disconnectBlock P pindex b s = (.ok (),s')) :
    s'.syncLog = s.syncLog++b.vtx.map fun tx => ⟨tx,some b,false⟩ := by
  unfold disconnectBlock at h
  split at h
  · cases h
  · cases h
    rfl

/-! A small instance of the parameters: a polynomial hash, a signature check that
accepts exactly the outputs anyone can spend, and block files that are read back. -/
namespace Sample

def polyHash (seed : ℕ) (l : List UInt8) : UInt256 :=
  BitVec.ofNat 256 (l.foldl (fun a c => a*257+c.toNat+1) seed)

def opTrue : CScript := [0x51]

def params : Params where
  hash := polyHash 7
  scryptBlockhash := fun l => BitVec.ofNat 256 (l.map UInt8.toNat).sum
  hash160 := fun l => BitVec.ofNat 160 (polyHash 3 l).toNat
  verifySignature := fun txPrev tx nIn _ =>
    match tx.vin[nIn]? with
    | none => false
    | some i => (txPrev.vout[i.prevout.n.toNat]?).any fun o => o.scriptPubKey = opTrue
  checkProofOfStakeSig := fun _ => true
  getNextTargetRequired := fun _ _ => 0x207fffff
  isStandardTx := fun _ => true
  areInputsStandard := fun _ _ => true
  testNet := false
  proofOfWorkLimit := setCompact 0x207fffff
  firstPOSBlock := 1
  hashGenesisBlock := 0

def coinbase (nHeight : ℕ) (nTime : UInt32) (nValue : CAmount) : CTransaction :=
  ⟨1,nTime,[⟨.setNull,Script.pushInt64 nHeight++[0],0xFFFFFFFF⟩],[⟨nValue,opTrue⟩],0⟩

def payment (nTime : UInt32) (ins : List COutPoint) (outs : List CTxOut) : CTransaction :=
  ⟨1,nTime,ins.map fun o => ⟨o,[],0xFFFFFFFF⟩,outs,0⟩

def block (hashPrevBlock : UInt256) (nTime : UInt32) (vtx : List CTransaction) : CBlock :=
  let b : CBlock := ⟨⟨2,hashPrevBlock,0,nTime,0x207fffff,0⟩,vtx,[]⟩
  { b with hashMerkleRoot := b.buildMerkleTree params }

def stored (nBlockPos : UInt32) (b : CBlock) : BlockIndexData :=
  ⟨b.getHash params,1,nBlockPos,b.getPoWHash params,b,by decide⟩

def world (nTime : ℤ) (files : List BlockIndexData) : World where
  adjustedTime := nTime
  sporkInstantX := false
  mapLockedInputs := fun _ => none
  readTx := fun p => ((files.flatMap fun d => blockPositions d d.block false).find? fun x => x.2 = p).map
    Prod.fst
  lookup := fun _ => none
  readOk := true
  commitOk := true

def genesis : BlockIndexData := stored 0 (block 0 100 [coinbase 0 100 0])

def fund : CTransaction := payment 50 [⟨1,0⟩] [⟨10*COIN,opTrue⟩,⟨10*COIN,opTrue⟩]

def fundBlock : BlockIndexData := stored 5000 (block 0 60 [fund])

def pay₁ : CTransaction := payment 150 [⟨fund.getHash params,0⟩] [⟨9*COIN,opTrue⟩]
def pay₂ : CTransaction :=
  payment 150 [⟨pay₁.getHash params,0⟩,⟨fund.getHash params,1⟩] [⟨18*COIN,opTrue⟩]

def next : CBlockIndex :=
  ⟨stored 1000 (block genesis.hashBlock 200 [coinbase 1 200 COIN,pay₁,pay₂]),[genesis]⟩

def tip : Tip := ⟨⟨genesis,[]⟩,0,rfl⟩

def state : ChainState where
  txdb := ⟨Function.update (fun _ => none) (.tx (fund.getHash params))
    (some (.new (fundBlock.diskTxPos (firstTxPos fundBlock fundBlock.block false)) 2)),some []⟩
  pnext := fun _ => none
  nMint := fun _ => 0
  nMoneySupply := fun _ => 0
  syncLog := []

def connected : Except Reject Unit × ChainState :=
  connectBlock params (world 300 [fundBlock,next.data]) tip next next.data.block false state

theorem connectBlock_next :
    connectBlock params (world 300 [fundBlock,next.data]) tip next next.data.block false state =
      (.ok (),connected.2) := by
  have h : connected.1 = .ok () := by decide +kernel
  rw [← h]
  exact (Prod.mk.eta (p := connected)).symm

end Sample

variable {tip : Tip}

/-- Disconnecting a block right after connecting it goes through and brings every
transaction record back. -/
theorem disconnectBlock_connectBlock (h : connectBlock P W tip pindex b false s = (.ok (),s'))
    (hfresh : ∀ tx ∈ b.vtx, s.txdb.readTxIndex (tx.getHash P) = none) :
    ∃ s'', disconnectBlock P pindex b s' = (.ok (),s'') ∧
      ∀ hash, s''.txdb.readTxIndex hash = s.txdb.readTxIndex hash := by
  have hids : ((blockEntries P pindex.data b).map SpendIndex.Entry.id).Nodup := by
    rw [map_id_blockEntries]
    exact (connectBlock_checked h).txids
  have hnew : ∀ e ∈ blockEntries P pindex.data b, s.txdb.txView e.id = none := by
    intro e he
    have hmem := mem_map_of_mem (f := SpendIndex.Entry.id) he
    rw [map_id_blockEntries] at hmem
    obtain ⟨tx,htx,hid⟩ := mem_map.mp hmem
    rw [← hid,← readTxIndex_eq]
    exact hfresh tx htx
  have hback := disconnectAll_connectAll (fun e he => pos_ne_null_of_mem_blockEntries P he)
    hids hnew (connectBlock_entries h)
  obtain ⟨s'',hs,hview⟩ := (disconnectBlock_entries P pindex b s' _).mp hback
  refine ⟨s'',hs,fun hash => ?_⟩
  rw [readTxIndex_eq,readTxIndex_eq,hview]

open Sample

theorem disconnectBlock_connectBlock_next :
    ∃ s'', disconnectBlock params next next.data.block connected.2 = (.ok (),s'') ∧
      ∀ hash, s''.txdb.readTxIndex hash = state.txdb.readTxIndex hash :=
  disconnectBlock_connectBlock connectBlock_next (by decide +kernel)

end DarkSilk
