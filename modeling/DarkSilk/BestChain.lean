import DarkSilk.MemPool

/-! Choosing the best chain. A new index entry either extends the current best block
or the node reorganises to its branch in one database transaction, and attaches the
postponed rest of the branch block by block. Globals change after the commits only. -/
namespace DarkSilk

open BatchStore Option

/-- The globals of the block chain. The database object is the one of the call; every
other one sees its base map only. -/
structure Node where
  chain : ChainState
  mapBlockIndex : HashMap CBlockIndex
  pindexGenesisBlock : Option CBlockIndex
  hashBestChain : UInt256
  tip : Option Tip
  nBestChainTrust : UInt256
  nBestInvalidTrust : UInt256
  mempool : CTxMemPool

def Node.empty : Node where
  chain := ⟨⟨fun _ => none,none⟩,fun _ => none,fun _ => 0,fun _ => 0,[]⟩
  mapBlockIndex := ∅
  pindexGenesisBlock := none
  hashBestChain := 0
  tip := none
  nBestChainTrust := 0
  nBestInvalidTrust := 0
  mempool := ⟨∅,fun _ => none⟩

def Node.withDb (n : Node) (db : CTxDB) : Node := { n with chain := { n.chain with txdb := db } }

/-- Back along the predecessors to a height. A height above zero has a predecessor,
so that the null test of the source never fires. -/
def descend (nHeight : ℕ) : BlockIndexData → List BlockIndexData → CBlockIndex
  | d, [] => ⟨d,[]⟩
  | d, d'::ds => if nHeight < ds.length+1 then descend nHeight d' ds else ⟨d,d'::ds⟩

def findFork (plonger : CBlockIndex) (d : BlockIndexData) : List BlockIndexData → Option CBlockIndex
  | [] =>
    if ⟨d,[]⟩ = plonger ∨ ⟨d,[]⟩ = descend 0 plonger.data plonger.ancestors then some ⟨d,[]⟩ else none
  | d'::ds =>
    if ⟨d,d'::ds⟩ = plonger then some ⟨d,d'::ds⟩
    else
      let plonger := descend (ds.length+1) plonger.data plonger.ancestors
      if ⟨d,d'::ds⟩ = plonger then some ⟨d,d'::ds⟩ else findFork plonger d' ds

def branch (pfork : CBlockIndex) (d : BlockIndexData) : List BlockIndexData → List CBlockIndex
  | [] => if ⟨d,[]⟩ = pfork then [] else [⟨d,[]⟩]
  | d'::ds => if ⟨d,d'::ds⟩ = pfork then [] else ⟨d,d'::ds⟩::branch pfork d' ds

/-- Go back while the predecessor alone already has more trust than the current best
chain. What is passed on the way is connected afterwards, the oldest entry first. -/
def postpone (nTrust : UInt256) (d : BlockIndexData) : List BlockIndexData → List CBlockIndex →
    CBlockIndex × List CBlockIndex
  | [], vpindexSecondary => (⟨d,[]⟩,vpindexSecondary)
  | d'::ds, vpindexSecondary =>
    if nTrust < (⟨d',ds⟩ : CBlockIndex).nChainTrust then
      postpone nTrust d' ds (⟨d,d'::ds⟩::vpindexSecondary)
    else (⟨d,d'::ds⟩,vpindexSecondary)

variable (P : Params)

def readFromDisk (W : World) (pindex : CBlockIndex) : Option CBlock :=
  let b := pindex.data.block
  if W.readOk && (b.isProofOfStake || checkProofOfWork P (b.getPoWHash P) b.nBits) &&
      b.getHash P = pindex.getBlockHash then some b else none

/-- Remember the trust of an invalid chain. The record is written outside of any
transaction, and a missing predecessor is dereferenced. -/
def invalidChainFound (pindexNew : CBlockIndex) (n : Node) : Option Node :=
  match pindexNew.pprev with
  | none => none
  | some _ =>
    let trust := pindexNew.nChainTrust
    some (if n.nBestInvalidTrust < trust then
      { n.withDb ⟨Function.update n.chain.txdb.pdb .bnBestInvalidTrust (some trust),
          n.chain.txdb.activeBatch⟩ with nBestInvalidTrust := trust }
    else n)

def setBestChainInner (W : World) (tip : Tip) (b : CBlock) (pindexNew : CBlockIndex) (n : Node) :
    Option (Except Reject Unit × Node) :=
  match connectBlock P W tip pindexNew b false n.chain with
  | (.error e,s) =>
    (invalidChainFound pindexNew { n with chain := { s with txdb := s.txdb.txnAbort } }).map
      fun n => (.error e,n)
  | (.ok _,s) =>
    let s := { s with txdb := (s.txdb.writeHashBestChain (b.getHash P)).txnCommit W.commitOk }
    if W.commitOk then
      match pindexNew.pprev with
      | none => none
      | some pprev => some (.ok (),{ n with
          chain := { s with pnext := Function.update s.pnext pprev.getBlockHash (some pindexNew) }
          mempool := b.vtx.foldl (CTxMemPool.remove P) n.mempool })
    else some (.error ⟨0,"SetBestChain() : TxnCommit failed"⟩,{ n with chain := s })

variable (E : CBlockIndex → World)

def disconnectBranch : List CBlockIndex → List CTransaction → ChainState →
    Except Reject (List CTransaction) × ChainState
  | [], vResurrect, s => (.ok vResurrect,s)
  | pindex::l, vResurrect, s =>
    match readFromDisk P (E pindex) pindex with
    | none => (.error ⟨0,"Reorganize() : ReadFromDisk for disconnect failed"⟩,s)
    | some b =>
      match disconnectBlock P pindex b s with
      | (.error _,s) => (.error ⟨0,"Reorganize() : DisconnectBlock failed"⟩,s)
      | (.ok _,s) => disconnectBranch l (b.vtx.filter (fun tx => !(tx.isCoinBase || tx.isCoinStake) &&
          (Checkpoints.getTotalBlocksEstimate P < pindex.nHeight : Bool))++vResurrect) s

def connectBranch (tip : Tip) : List CBlockIndex → List CTransaction → ChainState →
    Except Reject (List CTransaction) × ChainState
  | [], vDelete, s => (.ok vDelete,s)
  | pindex::l, vDelete, s =>
    match readFromDisk P (E pindex) pindex with
    | none => (.error ⟨0,"Reorganize() : ReadFromDisk for connect failed"⟩,s)
    | some b =>
      match connectBlock P (E pindex) tip pindex b false s with
      | (.error _,s) => (.error ⟨0,"Reorganize() : ConnectBlock failed"⟩,s)
      | (.ok _,s) => connectBranch tip l (vDelete++b.vtx) s

def setNext (target : CBlockIndex → Option CBlockIndex) (pnext : UInt256 → Option CBlockIndex)
    (pindex : CBlockIndex) : UInt256 → Option CBlockIndex :=
  match pindex.pprev with
  | none => pnext
  | some pprev => Function.update pnext pprev.getBlockHash (target pindex)

/-- Offer the transactions of the disconnected branch to the memory pool; the wallets
hear of those it takes. -/
def resurrect (W : World) (tip : Tip) (db : CTxDB) :
    List CTransaction → CTxMemPool × List SyncEvent →
    CTxMemPool × List SyncEvent
  | [], x => x
  | tx::l, x =>
    match acceptToMemoryPool P W tip db tx x.1 with
    | .error _ => resurrect W tip db l x
    | .ok pool => resurrect W tip db l (pool,x.2++[⟨tx,none,true⟩])

def deleteRedundant : List CTransaction → CTxMemPool → Option CTxMemPool
  | [], pool => some pool
  | tx::l, pool => ((pool.remove P tx).removeConflicts P tx).bind (deleteRedundant l)

def reorganize (tip : Tip) (pindexNew : CBlockIndex) (n : Node) :
    Option (Except Reject Unit × Node) :=
  match findFork pindexNew tip.pindexBest.data tip.pindexBest.ancestors with
  | none => some (.error ⟨0,"Reorganize() : pfork->pprev is null"⟩,n)
  | some pfork =>
    let vDisconnect := branch pfork tip.pindexBest.data tip.pindexBest.ancestors
    let vConnect := (branch pfork pindexNew.data pindexNew.ancestors).reverse
    match disconnectBranch P E vDisconnect [] n.chain with
    | (.error e,s) => some (.error e,{ n with chain := s })
    | (.ok vResurrect,s) =>
      match connectBranch P E tip vConnect [] s with
      | (.error e,s) => some (.error e,{ n with chain := s })
      | (.ok vDelete,s) =>
        let ok := (E pindexNew).commitOk
        let s := { s with txdb := (s.txdb.writeHashBestChain pindexNew.getBlockHash).txnCommit ok }
        if ok then
          let pnext := vConnect.foldl (setNext some) (vDisconnect.foldl (setNext fun _ => none) s.pnext)
          let x := resurrect P (E pindexNew) tip s.txdb vResurrect (n.mempool,s.syncLog)
          (deleteRedundant P vDelete x.1).map fun pool =>
            (.ok (),{ n with chain := { s with pnext := pnext, syncLog := x.2 }, mempool := pool })
        else some (.error ⟨0,"Reorganize() : TxnCommit failed"⟩,{ n with chain := s })

/-- The loop over the postponed entries. An error only ends it; the answer says
whether it went through to the last entry. -/
def attachPostponed (tip : Tip) : List CBlockIndex → Node → Option (Bool × Node)
  | [], n => some (true,n)
  | pindex::l, n =>
    match readFromDisk P (E pindex) pindex with
    | none => some (false,n)
    | some b =>
      match setBestChainInner P (E pindex) tip b pindex (n.withDb n.chain.txdb.txnBegin) with
      | none => none
      | some (.error _,n) => some (false,n)
      | some (.ok _,n) => attachPostponed tip l n

/-- SetBestChain up to the assignment of the new best block. A database transaction
must not be open, and but for the first block there has to be a best block; where the
program stops otherwise there is no result. The answer of a call that goes through
says whether all postponed blocks were attached, which the source does not keep. -/
def switchChain (pindexNew : CBlockIndex) (n : Node) : Option (Except Reject Bool × Node) :=
  let b := pindexNew.data.block
  let hash := b.getHash P
  if n.chain.txdb.activeBatch.isSome then none
  else if n.pindexGenesisBlock.isNone && hash = P.hashGenesisBlock then
    let db := (CTxDB.writeHashBestChain n.chain.txdb.txnBegin hash).txnCommit (E pindexNew).commitOk
    if (E pindexNew).commitOk then some (.ok true,{ n.withDb db with pindexGenesisBlock := some pindexNew })
    else some (.error ⟨0,"SetBestChain() : TxnCommit failed"⟩,n.withDb db)
  else
    match n.tip with
    | none => none
    | some tip =>
      if b.hashPrevBlock = n.hashBestChain then
        (setBestChainInner P (E pindexNew) tip b pindexNew (n.withDb n.chain.txdb.txnBegin)).map fun r =>
          (match r.1 with
            | .error _ => .error ⟨0,"SetBestChain() : SetBestChainInner failed"⟩
            | .ok _ => .ok true,r.2)
      else
        let (pindexIntermediate,vpindexSecondary) :=
          postpone tip.pindexBest.nChainTrust pindexNew.data pindexNew.ancestors []
        match reorganize P E tip pindexIntermediate (n.withDb n.chain.txdb.txnBegin) with
        | none => none
        | some (.error _,n) =>
          (invalidChainFound pindexNew (n.withDb n.chain.txdb.txnAbort)).map fun n =>
            (.error ⟨0,"SetBestChain() : Reorganize failed"⟩,n)
        | some (.ok _,n) => (attachPostponed P E tip vpindexSecondary n).map fun r => (.ok r.1,r.2)

def Node.newBest (n : Node) (pindexNew : CBlockIndex) : Node :=
  { n with
    hashBestChain := pindexNew.data.block.getHash P
    tip := some ⟨pindexNew,pindexNew.nHeight,rfl⟩
    nBestChainTrust := pindexNew.nChainTrust }

def setBestChain (pindexNew : CBlockIndex) (n : Node) : Option (Except Reject Unit × Node) :=
  (switchChain P E pindexNew n).map fun r =>
    match r with
    | (.error e,n) => (.error e,n)
    | (.ok _,n) => (.ok (),n.newBest P pindexNew)

/-! A first chain of the small instance: a block on the genesis block, and a branch
beside it whose second block pays out too much. -/
namespace Sample

def chainParams : Params := { params with hashGenesisBlock := genesis.hashBlock }

def a₁ : CBlockIndex := ⟨stored 1000 (block genesis.hashBlock 200 [coinbase 1 200 COIN]),[genesis]⟩
def b₁ : CBlockIndex := ⟨stored 2000 (block genesis.hashBlock 210 [coinbase 1 210 COIN]),[genesis]⟩
def b₂ : CBlockIndex := ⟨stored 3000 (block b₁.getBlockHash 300 [coinbase 2 300 (2*COIN)]),b₁.path⟩

def env : CBlockIndex → World := fun _ => world 400 []

def best (pindexNew : CBlockIndex) (n : Node) : Node :=
  ((setBestChain chainParams env pindexNew n).map Prod.snd).getD n

def extended : Node := best a₁ (best ⟨genesis,[]⟩ .empty)

end Sample

variable (pindexNew : CBlockIndex) (n : Node)

inductive Switched : Except Reject Bool → Node → Prop
  | first (hfirst : n.pindexGenesisBlock = none) (hhash : pindexNew.data.block.getHash P = P.hashGenesisBlock)
      (hok : (E pindexNew).commitOk = true) :
      Switched (.ok true) { n.withDb ((CTxDB.writeHashBestChain n.chain.txdb.txnBegin
        (pindexNew.data.block.getHash P)).txnCommit true) with pindexGenesisBlock := some pindexNew }
  | firstFailed {e : Reject} (hok : (E pindexNew).commitOk = false) :
      Switched (.error e) (n.withDb ((CTxDB.writeHashBestChain n.chain.txdb.txnBegin
        (pindexNew.data.block.getHash P)).txnCommit false))
  | extended {tip : Tip} {n' : Node} (htip : n.tip = some tip)
      (hprev : pindexNew.data.block.hashPrevBlock = n.hashBestChain)
      (hinner : setBestChainInner P (E pindexNew) tip pindexNew.data.block pindexNew
        (n.withDb n.chain.txdb.txnBegin) = some (.ok (),n')) : Switched (.ok true) n'
  | refused {tip : Tip} {n' : Node} {e e' : Reject} (htip : n.tip = some tip)
      (hprev : pindexNew.data.block.hashPrevBlock = n.hashBestChain)
      (hinner : setBestChainInner P (E pindexNew) tip pindexNew.data.block pindexNew
        (n.withDb n.chain.txdb.txnBegin) = some (.error e',n')) : Switched (.error e) n'
  | reorganized {tip : Tip} {m n' : Node} {all : Bool} (htip : n.tip = some tip)
      (hprev : pindexNew.data.block.hashPrevBlock ≠ n.hashBestChain)
      (hre : reorganize P E tip (postpone tip.pindexBest.nChainTrust pindexNew.data pindexNew.ancestors []).1
        (n.withDb n.chain.txdb.txnBegin) = some (.ok (),m))
      (hattach : attachPostponed P E tip
        (postpone tip.pindexBest.nChainTrust pindexNew.data pindexNew.ancestors []).2 m = some (all,n')) :
      Switched (.ok all) n'
  | aborted {tip : Tip} {m n' : Node} {e e' : Reject} (htip : n.tip = some tip)
      (hprev : pindexNew.data.block.hashPrevBlock ≠ n.hashBestChain)
      (hre : reorganize P E tip (postpone tip.pindexBest.nChainTrust pindexNew.data pindexNew.ancestors []).1
        (n.withDb n.chain.txdb.txnBegin) = some (.error e',m))
      (hinv : invalidChainFound pindexNew (m.withDb m.chain.txdb.txnAbort) = some n') : Switched (.error e) n'

variable {P E pindexNew n}

theorem switchChain_cases {r n'} (h : switchChain P E pindexNew n = some (r,n')) :
    n.chain.txdb.activeBatch = none ∧ Switched P E pindexNew n r n' := by
  unfold switchChain at h
  dsimp only at h
  split_ifs at h with hidle hgen hok hprev
  all_goals
    have hnone : n.chain.txdb.activeBatch = none := by simpa using hidle
    refine ⟨hnone,?_⟩
  · simp only [Bool.and_eq_true,isNone_iff_eq_none,decide_eq_true_eq] at hgen
    cases h
    rw [hok]
    exact .first hgen.1 hgen.2 hok
  · cases h
    simp only [Bool.not_eq_true] at hok
    rw [hok]
    exact .firstFailed hok
  · split at h
    · cases h
    · rename_i tip htip
      obtain ⟨⟨r',m⟩,hm,h⟩ := map_eq_some_iff.mp h
      cases h
      cases r' with
      | error e' => exact .refused htip hprev hm
      | ok u => exact .extended htip hprev hm
  · split at h
    · cases h
    · rename_i tip htip
      split at h
      · cases h
      · rename_i e' m hm
        obtain ⟨m',hm',h⟩ := map_eq_some_iff.mp h
        cases h
        exact .aborted htip hprev hm hm'
      · rename_i m hm
        obtain ⟨⟨all,m'⟩,hm',h⟩ := map_eq_some_iff.mp h
        cases h
        exact .reorganized htip hprev hm hm'

variable {W : World} {tip : Tip} {n' : Node}

/-- Nothing but the database object and the records kept beside the index entries
may differ, of these neither the pointers nor anything committed. -/
structure Untouched (n n' : Node) : Prop where
  globals : n' = { n with chain := n'.chain, nBestInvalidTrust := n'.nBestInvalidTrust }
  pnext : n'.chain.pnext = n.chain.pnext
  pdb : ∀ k, k ≠ .bnBestInvalidTrust → n'.chain.txdb.pdb k = n.chain.txdb.pdb k

theorem Untouched.trans {n''} (h : Untouched n n') (h' : Untouched n' n'') : Untouched n n'' := by
  refine ⟨?_,h'.pnext.trans h.pnext,fun k hk => (h'.pdb k hk).trans (h.pdb k hk)⟩
  rw [h'.globals,h.globals]

theorem untouched_withDb {db} (h : db.pdb = n.chain.txdb.pdb) : Untouched n (n.withDb db) :=
  ⟨rfl,rfl,fun k _ => congrFun h k⟩

theorem untouched_of_pending {s} (hopen : n.chain.txdb.activeBatch.isSome)
    (hp : TxDB.Pending n.chain.txdb s.txdb) (hnext : s.pnext = n.chain.pnext) :
    Untouched n { n with chain := s } :=
  ⟨rfl,hnext,fun k _ => congrFun (hp hopen).1 k⟩

theorem invalidChainFound_spec (h : invalidChainFound pindexNew n = some n') :
    Untouched n n' ∧ n'.chain.txdb.activeBatch = n.chain.txdb.activeBatch ∧
      n'.chain.syncLog = n.chain.syncLog := by
  unfold invalidChainFound at h
  split at h
  · cases h
  · rw [some.injEq] at h
    subst h
    split_ifs
    · exact ⟨⟨rfl,rfl,fun k hk => Function.update_of_ne hk _ _⟩,rfl,rfl⟩
    · exact ⟨⟨rfl,rfl,fun _ _ => rfl⟩,rfl,rfl⟩

variable {b : CBlock} {e : Reject} {r : Except Reject Unit}

theorem setBestChainInner_error (hopen : n.chain.txdb.activeBatch.isSome)
    (h : setBestChainInner P W tip b pindexNew n = some (.error e,n')) :
    Untouched n n' ∧ n'.chain.txdb.activeBatch = none := by
  obtain ⟨hp,hnext⟩ := connectBlock_frame P W tip pindexNew b n.chain
  unfold setBestChainInner at h
  split at h <;> rename_i s hs <;> rw [hs] at hp hnext
  · obtain ⟨m,hm,h⟩ := map_eq_some_iff.mp h
    cases h
    obtain ⟨h1,h2,-⟩ := invalidChainFound_spec hm
    refine ⟨.trans ?_ h1,h2⟩
    exact ⟨rfl,hnext,fun k _ => congrFun (hp hopen).1 k⟩
  · split_ifs at h with hok
    · split at h <;> simp at h
    · cases h
      have hbest := hp.trans (TxDB.pending_put s.txdb .hashBestChain (some (b.getHash P)))
      refine ⟨⟨rfl,hnext,fun k _ => ?_⟩,rfl⟩
      have hpdb := congrFun (hbest hopen).1 k
      simpa [hok,CTxDB.writeHashBestChain,TxDB.write] using hpdb

theorem disconnectBranch_frame (P E l acc s) :
    TxDB.Pending s.txdb (disconnectBranch P E l acc s).2.txdb ∧
      (disconnectBranch P E l acc s).2.pnext = s.pnext := by
  induction l generalizing acc s with
  | nil => exact ⟨.refl _,rfl⟩
  | cons pindex l ih =>
    rw [disconnectBranch]
    split
    · exact ⟨.refl _,rfl⟩
    · rename_i b hb
      obtain ⟨hp,hnext⟩ := disconnectBlock_frame P pindex b s
      split <;> rename_i s' hs <;> rw [hs] at hp hnext
      · exact ⟨hp,hnext⟩
      · obtain ⟨h1,h2⟩ := ih _ s'
        exact ⟨hp.trans h1,h2.trans hnext⟩

theorem connectBranch_frame (P E tip l acc s) :
    TxDB.Pending s.txdb (connectBranch P E tip l acc s).2.txdb ∧
      (connectBranch P E tip l acc s).2.pnext = s.pnext := by
  induction l generalizing acc s with
  | nil => exact ⟨.refl _,rfl⟩
  | cons pindex l ih =>
    rw [connectBranch]
    split
    · exact ⟨.refl _,rfl⟩
    · rename_i b hb
      obtain ⟨hp,hnext⟩ := connectBlock_frame P (E pindex) tip pindex b s
      split <;> rename_i s' hs <;> rw [hs] at hp hnext
      · exact ⟨hp,hnext⟩
      · obtain ⟨h1,h2⟩ := ih _ s'
        exact ⟨hp.trans h1,h2.trans hnext⟩

/-- A reorganisation that fails, at whichever block, has worked in the open
transaction only. -/
theorem reorganize_error (hopen : n.chain.txdb.activeBatch.isSome)
    (h : reorganize P E tip pindexNew n = some (.error e,n')) : Untouched n n' := by
  unfold reorganize at h
  split at h
  · cases h
    exact untouched_of_pending hopen (.refl _) rfl
  · rename_i pfork hfork
    dsimp only at h
    obtain ⟨hp,hnext⟩ := disconnectBranch_frame P E
      (branch pfork tip.pindexBest.data tip.pindexBest.ancestors) [] n.chain
    split at h <;> rename_i s hs <;> rw [hs] at hp hnext
    · cases h
      exact untouched_of_pending hopen hp hnext
    · obtain ⟨hp',hnext'⟩ := connectBranch_frame P E tip
        (branch pfork pindexNew.data pindexNew.ancestors).reverse [] s
      split at h <;> rename_i s' hs' <;> rw [hs'] at hp' hnext'
      · cases h
        exact untouched_of_pending hopen (hp.trans hp') (hnext'.trans hnext)
      · split_ifs at h with hok
        · obtain ⟨m,-,h⟩ := map_eq_some_iff.mp h
          cases h
        · cases h
          have hbest := (hp.trans hp').trans
            (TxDB.pending_put s'.txdb .hashBestChain (some pindexNew.getBlockHash))
          refine ⟨rfl,hnext'.trans hnext,fun k _ => ?_⟩
          have hpdb := congrFun (hbest hopen).1 k
          simpa [hok,CTxDB.writeHashBestChain,TxDB.write] using hpdb

/-- Whatever the point of failure, a failed call leaves everything that counts. -/
theorem switchChain_error (h : switchChain P E pindexNew n = some (.error e,n')) :
    Untouched n n' ∧ n.chain.txdb.activeBatch = none ∧ n'.chain.txdb.activeBatch = none := by
  have hbegin : Untouched n (n.withDb n.chain.txdb.txnBegin) := untouched_withDb rfl
  obtain ⟨hidle,h⟩ := switchChain_cases h
  cases h with
  | firstFailed =>
    refine ⟨untouched_withDb ?_,hidle,rfl⟩
    simp [CTxDB.writeHashBestChain,TxDB.write,TxDB.put,TxDB.txnBegin]
  | refused _ _ hinner =>
    obtain ⟨h1,h2⟩ := setBestChainInner_error rfl hinner
    exact ⟨hbegin.trans h1,hidle,h2⟩
  | @aborted _ m _ _ _ _ _ hre hinv =>
    obtain ⟨h1,h2,-⟩ := invalidChainFound_spec hinv
    have habort : Untouched m (m.withDb m.chain.txdb.txnAbort) := untouched_withDb rfl
    exact ⟨((hbegin.trans (reorganize_error rfl hre)).trans habort).trans h1,hidle,h2⟩

theorem setBestChain_eq_error :
    setBestChain P E pindexNew n = some (.error e,n') ↔
      switchChain P E pindexNew n = some (.error e,n') := by
  unfold setBestChain
  rcases switchChain P E pindexNew n with _ | ⟨e' | f,m⟩ <;> simp

theorem setBestChain_eq_ok :
    setBestChain P E pindexNew n = some (.ok (),n') ↔
      ∃ all m, switchChain P E pindexNew n = some (.ok all,m) ∧ n' = m.newBest P pindexNew := by
  unfold setBestChain
  rcases switchChain P E pindexNew n with _ | ⟨e' | f,m⟩ <;> simp [eq_comm]

theorem setBestChainInner_mapBlockIndex
    (h : setBestChainInner P W tip b pindexNew n = some (r,n')) :
    n'.mapBlockIndex = n.mapBlockIndex := by
  unfold setBestChainInner at h
  split at h
  · obtain ⟨m,hm,h⟩ := map_eq_some_iff.mp h
    cases h
    rw [(invalidChainFound_spec hm).1.globals]
  · split_ifs at h
    · split at h
      · cases h
      · rw [← (Prod.mk.inj (some.inj h)).2]
    · rw [← (Prod.mk.inj (some.inj h)).2]

theorem reorganize_mapBlockIndex
    (h : reorganize P E tip pindexNew n = some (r,n')) : n'.mapBlockIndex = n.mapBlockIndex := by
  unfold reorganize at h
  split at h
  · rw [← (Prod.mk.inj (some.inj h)).2]
  · dsimp only at h
    split at h
    · rw [← (Prod.mk.inj (some.inj h)).2]
    · split at h
      · rw [← (Prod.mk.inj (some.inj h)).2]
      · split_ifs at h
        · obtain ⟨m,-,h⟩ := map_eq_some_iff.mp h
          rw [← (Prod.mk.inj h).2]
        · rw [← (Prod.mk.inj (some.inj h)).2]

theorem attachPostponed_mapBlockIndex {l all} (h : attachPostponed P E tip l n = some (all,n')) :
    n'.mapBlockIndex = n.mapBlockIndex := by
  induction l generalizing n with
  | nil => rw [← (Prod.mk.inj (some.inj h)).2]
  | cons pindex l ih =>
    rw [attachPostponed] at h
    split at h
    · rw [← (Prod.mk.inj (some.inj h)).2]
    · split at h
      · cases h
      · rename_i m hm
        rw [← (Prod.mk.inj (some.inj h)).2]
        have h1 := setBestChainInner_mapBlockIndex hm
        exact h1
      · rename_i m hm
        have h1 := setBestChainInner_mapBlockIndex hm
        exact (ih h).trans h1

theorem setBestChain_mapBlockIndex
    (h : setBestChain P E pindexNew n = some (r,n')) : n'.mapBlockIndex = n.mapBlockIndex := by
  cases r with
  | error e => rw [(switchChain_error (setBestChain_eq_error.mp h)).1.globals]
  | ok u =>
    obtain ⟨all,m,hs,rfl⟩ := setBestChain_eq_ok.mp h
    cases (switchChain_cases hs).2 with
    | first => rfl
    | extended _ _ hinner =>
      have h1 := setBestChainInner_mapBlockIndex hinner
      exact h1
    | reorganized _ _ hre hattach =>
      have h1 := reorganize_mapBlockIndex hre
      exact (attachPostponed_mapBlockIndex hattach).trans h1

/-- A call that returns false changes no record of the database but the trust of the
best invalid chain, no pointer, and nothing of the best chain in memory or the pool. -/
theorem setBestChain_false_unchanged {e : Reject}
    (h : setBestChain P E pindexNew n = some (.error e,n')) :
    (∀ k, k ≠ .bnBestInvalidTrust → n'.chain.txdb.read k = n.chain.txdb.read k) ∧
      n'.hashBestChain = n.hashBestChain ∧ n'.tip = n.tip ∧ n'.nBestChainTrust = n.nBestChainTrust ∧
      n'.chain.pnext = n.chain.pnext ∧ n'.mempool = n.mempool := by
  obtain ⟨hu,hidle,hidle'⟩ := switchChain_error (setBestChain_eq_error.mp h)
  refine ⟨fun k hk => ?_,?_,?_,?_,hu.pnext,?_⟩
  · rw [TxDB.read_eq_view,TxDB.read_eq_view,TxDB.view_of_idle hidle,TxDB.view_of_idle hidle']
    exact hu.pdb k hk
  all_goals rw [hu.globals]

open Sample

/-- The branch is disconnected down to the fork and connected up to the bad block,
and all of it is gone again. -/
theorem setBestChain_false_unchanged_aborted :
    ∃ n', setBestChain chainParams env b₂ extended =
        some (.error ⟨0,"SetBestChain() : Reorganize failed"⟩,n') ∧
      n'.chain.txdb.read .hashBestChain = some a₁.getBlockHash ∧
      n'.hashBestChain = a₁.getBlockHash := by
  have hcall : (setBestChain chainParams env b₂ extended).map Prod.fst =
      some (.error ⟨0,"SetBestChain() : Reorganize failed"⟩) := by decide +kernel
  obtain ⟨⟨r,n'⟩,h,rfl⟩ := map_eq_some_iff.mp hcall
  obtain ⟨hdb,hhash,-⟩ := setBestChain_false_unchanged h
  refine ⟨n',h,(hdb _ (by decide)).trans ?_,hhash.trans ?_⟩
  · decide +kernel
  · decide +kernel

end DarkSilk
