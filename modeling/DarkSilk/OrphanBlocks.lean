import DarkSilk.ChainRuns
import DarkSilk.EvalScript
import DarkSilk.MapSum

/-! Blocks that wait for their predecessor. `ProcessBlock` files a block without a known
predecessor in two maps, prunes them when they grow too large, and hands the blocks that
waited for an accepted block to `AcceptBlock`. -/
namespace DarkSilk

open Std MapSum List Option

abbrev StakeKey := COutPoint × UInt32

namespace CBlock

/-- The kernel input and the time of the coin stake; the null stake for a block without one. -/
def getProofOfStake (b : CBlock) : StakeKey :=
  match b.vtx with
  | _::tx::_ =>
    if tx.isCoinStake then
      match tx.vin with
      | txin::_ => (txin.prevout,tx.nTime)
      | [] => (.setNull,0)
    else (.setNull,0)
  | _ => (.setNull,0)

/-- A signature in the strict encoding, without the byte of the hash type. -/
def isDERBlockSignature (vchSig : List UInt8) : Bool :=
  let byte := fun i => (vchSig[i]?.getD 0).toNat
  let nLenR := byte 3
  let nLenS := byte (5+nLenR)
  9 ≤ vchSig.length && vchSig.length ≤ 73 && byte 0 = 0x30 && byte 1 = vchSig.length-2 &&
    5+nLenR < vchSig.length && nLenR+nLenS+6 = vchSig.length &&
    Script.isDERNumber vchSig 4 nLenR && Script.isDERNumber vchSig (6+nLenR) nLenS

def isCanonicalBlockSignature (b : CBlock) : Bool :=
  if b.isProofOfWork then b.vchBlockSig.isEmpty else isDERBlockSignature b.vchBlockSig

end CBlock

structure COrphanBlock where
  hashBlock : UInt256
  hashPrev : UInt256
  stake : StakeKey
  block : CBlock
  deriving DecidableEq

def COrphanBlock.vchBlock (o : COrphanBlock) : List UInt8 := o.block.serialize

/-- The waiting blocks by their hashes, and by the hashes of their predecessors in the
order of a multimap. -/
structure OrphanBlocks where
  mapOrphanBlocks : HashMap COrphanBlock
  mapOrphanBlocksByPrev : List (UInt256 × COrphanBlock)
  setStakeSeenOrphan : Finset StakeKey
  nOrphanBlocksSize : ℕ

namespace OrphanBlocks

def empty : OrphanBlocks := ⟨∅,[],∅,0⟩

def countByPrev (s : OrphanBlocks) (hash : UInt256) : Bool :=
  s.mapOrphanBlocksByPrev.any fun e => e.1 = hash

def insertByPrev (l : List (UInt256 × COrphanBlock)) (e : UInt256 × COrphanBlock) :
    List (UInt256 × COrphanBlock) :=
  l.takeWhile (fun x => x.1 ≤ e.1)++e::l.dropWhile fun x => x.1 ≤ e.1

/-- From an entry to one that waits for it, as long as there is one. -/
def findLeaf (l : List (UInt256 × COrphanBlock)) :
    ℕ → UInt256 × COrphanBlock → Option (UInt256 × COrphanBlock)
  | 0, _ => none
  | k+1, it =>
    match l.find? fun e => e.1 = it.2.hashBlock with
    | none => some it
    | some it₂ => findLeaf l k it₂

/-- What all removals do to the map by hashes, the stakes and the size. -/
def forget (s : OrphanBlocks) (hash : UInt256) (stake : StakeKey) (nSize : ℕ) : OrphanBlocks :=
  { s with
    mapOrphanBlocks := s.mapOrphanBlocks.erase hash
    setStakeSeenOrphan := s.setStakeSeenOrphan.erase stake
    nOrphanBlocksSize := s.nOrphanBlocksSize-nSize }

def takeOut (s : OrphanBlocks) (it : UInt256 × COrphanBlock) : OrphanBlocks :=
  { s.forget it.2.hashBlock it.2.stake it.2.vchBlock.length with
    mapOrphanBlocksByPrev := s.mapOrphanBlocksByPrev.erase it }

/-- Take out random leaves while the blocks are too large. There is no result if the
search for a leaf goes round in a circle, or the remainder is taken by zero. -/
def pruneOrphanBlocks (nMaxOrphanBlocksSize : ℕ) (insecureRand : ℕ → ℕ) :
    ℕ → OrphanBlocks → Option OrphanBlocks
  | 0, s => if nMaxOrphanBlocksSize < s.nOrphanBlocksSize then none else some s
  | k+1, s =>
    if nMaxOrphanBlocksSize < s.nOrphanBlocksSize then
      let l := s.mapOrphanBlocksByPrev
      ((l[insecureRand k%l.length]?).bind (findLeaf l (l.length+1))).bind fun it =>
        pruneOrphanBlocks nMaxOrphanBlocksSize insecureRand k (s.takeOut it)
    else some s

def store (s : OrphanBlocks) (hash : UInt256) (b : CBlock) : OrphanBlocks :=
  let pblock2 : COrphanBlock := ⟨hash,b.hashPrevBlock,b.getProofOfStake,b⟩
  { mapOrphanBlocks := s.mapOrphanBlocks.insertIfNew hash pblock2
    mapOrphanBlocksByPrev := insertByPrev s.mapOrphanBlocksByPrev (pblock2.hashPrev,pblock2)
    setStakeSeenOrphan :=
      if b.isProofOfStake then insert b.getProofOfStake s.setStakeSeenOrphan else s.setStakeSeenOrphan
    nOrphanBlocksSize := s.nOrphanBlocksSize+pblock2.vchBlock.length }

end OrphanBlocks

/-- What the outside world answers while one received block is processed. A block is
handed to AcceptBlock at most once in a call. -/
structure ProcessEnv where
  fReindex : Bool
  fImporting : Bool
  fromPeer : Bool
  maxorphanblocksmib : ℕ
  insecureRand : ℕ → ℕ
  world : World
  accept : CBlock → AcceptEnv

structure BlockState where
  node : Node
  orphans : OrphanBlocks

def Node.stakeSeen (n : Node) (stake : StakeKey) : Bool :=
  n.mapBlockIndex.toList.any fun e => e.2.data.block.isProofOfStake && e.2.data.block.getProofOfStake = stake

variable (P : Params) (E : ProcessEnv)

/-- One of the blocks that waited for an accepted one; it is queued if it is accepted too. -/
def resolveOrphan (r : List UInt256 × BlockState) (e : UInt256 × COrphanBlock) :
    Option (List UInt256 × BlockState) :=
  (acceptBlock P (E.accept e.2.block) e.2.block r.2.node).map fun a =>
    (match a.1 with
      | .ok _ => r.1++[e.2.hashBlock]
      | .error _ => r.1,
    ⟨a.2,r.2.orphans.forget e.2.hashBlock e.2.block.getProofOfStake e.2.vchBlock.length⟩)

/-- The work queue of the hashes whose waiting blocks are next. -/
def resolveOrphans : ℕ → List UInt256 → BlockState → Option BlockState
  | _, [], s => some s
  | 0, _::_, _ => none
  | k+1, hashPrev::vWorkQueue, s =>
    ((s.orphans.mapOrphanBlocksByPrev.filter fun e => e.1 = hashPrev).foldlM (resolveOrphan P E) (vWorkQueue,s)).bind
      fun r => resolveOrphans k r.1 { r.2 with orphans := { r.2.orphans with
        mapOrphanBlocksByPrev := r.2.orphans.mapOrphanBlocksByPrev.filter fun e => e.1 ≠ hashPrev } }

def processChecks (b : CBlock) (s : BlockState) (tip : Tip) : Except Reject Unit := do
  let hash := b.getHash P
  require (!s.node.mapBlockIndex.contains hash) 0 "ProcessBlock() : already have block"
  require (!s.orphans.mapOrphanBlocks.contains hash) 0 "ProcessBlock() : already have block (orphan)"
  require (!(!E.fReindex && !E.fImporting && b.isProofOfStake && s.node.stakeSeen b.getProofOfStake &&
    !s.orphans.countByPrev hash)) 0 "ProcessBlock() : duplicate proof-of-stake"
  require (b.hashPrevBlock = s.node.hashBestChain ||
    (Checkpoints.autoSelectSyncCheckpoint tip.pindexBest.nHeight tip.pindexBest.data
      tip.pindexBest.ancestors).getBlockTime ≤ b.getBlockTime) 1
    "ProcessBlock() : block with timestamp before last checkpoint"
  require b.isCanonicalBlockSignature 100 "ProcessBlock(): bad block signature encoding"
  match checkBlock P E.world b true true true with
  | .ok _ => .ok ()
  | .error _ => .error ⟨0,"ProcessBlock() : CheckBlock FAILED"⟩

/-- A block without a known predecessor is kept if there is a peer to ask for it. -/
def processOrphan (b : CBlock) (s : BlockState) : Option (Except Reject Unit × BlockState) :=
  if E.fromPeer then
    if b.isProofOfStake && decide (b.getProofOfStake ∈ s.orphans.setStakeSeenOrphan) &&
        !s.orphans.countByPrev (b.getHash P) then
      some (.error ⟨0,"ProcessBlock() : duplicate proof-of-stake for orphan block"⟩,s)
    else
      (s.orphans.pruneOrphanBlocks (E.maxorphanblocksmib*2^20) E.insecureRand
        s.orphans.mapOrphanBlocksByPrev.length).map fun orphans =>
          (.ok (),{ s with orphans := orphans.store (b.getHash P) b })
  else some (.ok (),s)

def processBlock (b : CBlock) (s : BlockState) : Option (Except Reject Unit × BlockState) :=
  match s.node.tip with
  | none => none
  | some tip =>
    match processChecks P E b s tip with
    | .error e => some (.error e,s)
    | .ok _ =>
      if s.node.mapBlockIndex.contains b.hashPrevBlock then
        (acceptBlock P (E.accept b) b s.node).bind fun a =>
          match a.1 with
          | .error _ => some (.error ⟨0,"ProcessBlock() : AcceptBlock FAILED"⟩,{ s with node := a.2 })
          | .ok _ => (resolveOrphans P E (s.orphans.mapOrphanBlocksByPrev.length+1) [b.getHash P]
              { s with node := a.2 }).map fun s => (.ok (),s)
      else processOrphan P E b s

variable {P} {s t : OrphanBlocks} {o : COrphanBlock} {hash : UInt256}

theorem getProofOfStake_of_isProofOfStake {b : CBlock} (h : b.isProofOfStake) :
    b.getProofOfStake.1.isNull = false := by
  rcases b with ⟨hd,_ | ⟨tx₀,_ | ⟨tx,txs⟩⟩,sig⟩
  · simp [CBlock.isProofOfStake] at h
  · simp [CBlock.isProofOfStake] at h
  · have hcs : tx.isCoinStake := h
    rcases tx with ⟨v,t,_ | ⟨i,vin⟩,_ | ⟨x,_ | ⟨y,vout⟩⟩,lock⟩ <;> simp [CTransaction.isCoinStake] at hcs
    simp [CBlock.getProofOfStake,CTransaction.isCoinStake,hcs]

theorem getProofOfStake_of_not {b : CBlock} (h : b.isProofOfStake = false) :
    b.getProofOfStake = (.setNull,0) := by
  rcases b with ⟨hd,_ | ⟨tx₀,_ | ⟨tx,txs⟩⟩,sig⟩
  · rfl
  · rfl
  · have hcs : tx.isCoinStake = false := h
    simp [CBlock.getProofOfStake,hcs]

namespace OrphanBlocks

/-- A block of the map carries its own hash, its predecessor and its stake. -/
def Genuine (P : Params) (h : UInt256) (o : COrphanBlock) : Prop :=
  o.hashBlock = h ∧ o.block.getHash P = h ∧ o.hashPrev = o.block.hashPrevBlock ∧ o.stake = o.block.getProofOfStake

/-- The entries of the second map that belong to the blocks of the first one. -/
def entries (s : OrphanBlocks) : List (UInt256 × COrphanBlock) :=
  s.mapOrphanBlocks.toList.map fun e => (e.2.hashPrev,e.2)

structure Filed (P : Params) (l : List (UInt256 × COrphanBlock)) (s : OrphanBlocks) : Prop where
  genuine : ∀ (h : UInt256) (o : COrphanBlock), s.mapOrphanBlocks[h]? = some o → Genuine P h o
  byPrev : s.entries.Perm l
  size : s.nOrphanBlocksSize = entrySum (fun _ o => o.vchBlock.length) s.mapOrphanBlocks

def Holds (s : OrphanBlocks) (stake : StakeKey) : Prop :=
  ∃ (h : UInt256) (o : COrphanBlock), s.mapOrphanBlocks[h]? = some o ∧ o.block.isProofOfStake ∧
    o.block.getProofOfStake = stake

/-- The stakes that are seen are stakes of waiting blocks. -/
def SeenHeld (s : OrphanBlocks) : Prop := ∀ stake ∈ s.setStakeSeenOrphan, s.Holds stake

structure HeldSeen (s : OrphanBlocks) : Prop where
  seen : ∀ stake, s.Holds stake → stake ∈ s.setStakeSeenOrphan
  distinct : ∀ (h h' : UInt256) (o o' : COrphanBlock), s.mapOrphanBlocks[h]? = some o →
    s.mapOrphanBlocks[h']? = some o' → o.block.isProofOfStake → o'.block.isProofOfStake →
    o.block.getProofOfStake = o'.block.getProofOfStake → h = h'

theorem filed_empty : empty.Filed P empty.mapOrphanBlocksByPrev :=
  ⟨by simp [empty],by simp [empty,entries],by simp [empty]⟩

theorem insertByPrev_perm (l e) : (insertByPrev l e).Perm (e::l) := by
  have hperm := @perm_middle _ e (l.takeWhile fun x => x.1 ≤ e.1) (l.dropWhile fun x => x.1 ≤ e.1)
  rwa [takeWhile_append_dropWhile] at hperm

theorem getElem?_forget {stake n h} :
    (s.forget hash stake n).mapOrphanBlocks[h]? = if hash =
      h then none else s.mapOrphanBlocks[h]? := by
  rw [forget,getElem?_erase]

variable {l : List (UInt256 × COrphanBlock)} {e it : UInt256 × COrphanBlock} {k : ℕ}

theorem Filed.getElem? (h : s.Filed P l)
    (he : e ∈ l) : s.mapOrphanBlocks[e.2.hashBlock]? = some e.2 ∧ e.1 = e.2.hashPrev := by
  obtain ⟨x,hx,rfl⟩ := mem_map.mp (h.byPrev.mem_iff.mpr he)
  have hget := ExtTreeMap.mem_toList_iff_getElem?_eq_some.mp hx
  exact ⟨(h.genuine x.1 x.2 hget).1.symm ▸ hget,rfl⟩

theorem Filed.forget (h : s.Filed P (e::l))
    (stake : StakeKey) : (s.forget e.2.hashBlock stake e.2.vchBlock.length).Filed P l := by
  obtain ⟨hget,hkey⟩ := h.getElem? mem_cons_self
  refine ⟨fun h' o' ho' => ?_,?_,?_⟩
  · rw [getElem?_forget] at ho'
    split_ifs at ho'
    exact h.genuine h' o' ho'
  · have hmap := (toList_perm_erase hget).map fun x => (x.2.hashPrev,x.2)
    have he : (e.2.hashPrev,e.2) = e := Prod.ext hkey.symm rfl
    rw [map_cons,he] at hmap
    exact (hmap.symm.trans h.byPrev).cons_inv
  · have hsum := entrySum_of_getElem? (f := fun _ o => COrphanBlock.vchBlock o |>.length) hget
    have hsize := h.size
    simp only [OrphanBlocks.forget]
    omega

theorem SeenHeld.forget (h : s.SeenHeld) (ho : s.mapOrphanBlocks[hash]? = some o) (n) :
    (s.forget hash o.block.getProofOfStake n).SeenHeld := by
  intro stake hstake
  obtain ⟨hne,hmem⟩ := Finset.mem_erase.mp hstake
  obtain ⟨h',o',ho',hpos,hst⟩ := h stake hmem
  refine ⟨h',o',?_,hpos,hst⟩
  rw [getElem?_forget,if_neg]
  · exact ho'
  · rintro rfl
    rw [ho] at ho'
    cases ho'
    exact hne hst.symm

theorem HeldSeen.forget (h : s.HeldSeen) (ho : s.mapOrphanBlocks[hash]? = some o) (n) :
    (s.forget hash o.block.getProofOfStake n).HeldSeen := by
  constructor
  · rintro stake ⟨h',o',ho',hpos,rfl⟩
    rw [getElem?_forget] at ho'
    split_ifs at ho' with hne
    refine Finset.mem_erase.mpr ⟨fun heq => ?_,h.seen _ ⟨h',o',ho',hpos,rfl⟩⟩
    cases hw : o.block.isProofOfStake with
    | true => exact hne (h.distinct _ _ _ _ ho ho' hw hpos heq.symm)
    | false =>
      -- a block without a stake cannot take away the stake of another one
      have hnull := getProofOfStake_of_isProofOfStake hpos
      rw [heq,getProofOfStake_of_not hw] at hnull
      cases hnull
  · intro h1 h2 o₁ o₂ ho₁ ho₂
    rw [getElem?_forget] at ho₁ ho₂
    split_ifs at ho₁
    split_ifs at ho₂
    exact h.distinct h1 h2 o₁ o₂ ho₁ ho₂

structure Retains (P : Params) (s t : OrphanBlocks) : Prop where
  filed : s.Filed P s.mapOrphanBlocksByPrev → t.Filed P t.mapOrphanBlocksByPrev
  seenHeld : s.Filed P s.mapOrphanBlocksByPrev → s.SeenHeld → t.SeenHeld
  heldSeen : s.Filed P s.mapOrphanBlocksByPrev → s.HeldSeen → t.HeldSeen

theorem Retains.rfl : Retains P s s := ⟨id,fun _ h => h,fun _ h => h⟩

theorem Retains.trans {u} (h1 : Retains P s t) (h2 : Retains P t u) : Retains P s u :=
  ⟨fun h => h2.filed (h1.filed h),fun hf h => h2.seenHeld (h1.filed hf) (h1.seenHeld hf h),
    fun hf h => h2.heldSeen (h1.filed hf) (h1.heldSeen hf h)⟩

theorem mem_of_findLeaf {it'} (hit : it ∈ l) (h : findLeaf l k it = some it') : it' ∈ l := by
  induction k generalizing it with
  | zero => simp [findLeaf] at h
  | succ k ih =>
    unfold findLeaf at h
    split at h
    · exact some.inj h ▸ hit
    · rename_i it₂ h2
      exact ih (mem_of_find?_eq_some h2) h

theorem retains_takeOut (hit : it ∈ s.mapOrphanBlocksByPrev) : Retains P s (s.takeOut it) := by
  have hstake : ∀ hf : s.Filed P s.mapOrphanBlocksByPrev, it.2.stake = it.2.block.getProofOfStake := fun hf =>
    (hf.genuine _ _ (hf.getElem? hit).1).2.2.2
  refine ⟨fun hf => ?_,fun hf h => ?_,fun hf h => ?_⟩
  · have hf' : s.Filed P (it::s.mapOrphanBlocksByPrev.erase it) :=
      ⟨hf.genuine,hf.byPrev.trans (perm_cons_erase hit),hf.size⟩
    obtain ⟨hg,hb,hs⟩ := hf'.forget it.2.stake
    exact ⟨hg,hb,hs⟩
  · have hnew := h.forget (hf.getElem? hit).1 it.2.vchBlock.length
    rw [← hstake hf] at hnew
    exact hnew
  · have hnew := h.forget (hf.getElem? hit).1 it.2.vchBlock.length
    rw [← hstake hf] at hnew
    exact ⟨hnew.seen,hnew.distinct⟩

/-- Pruning takes blocks out and keeps what there is to keep. -/
theorem retains_pruneOrphanBlocks {nMax rand} (h : s.pruneOrphanBlocks nMax rand k = some t) :
    Retains P s t ∧ ∀ (hash : UInt256) (o : COrphanBlock), t.mapOrphanBlocks[hash]? = some o →
      s.mapOrphanBlocks[hash]? = some o := by
  induction k generalizing s with
  | zero =>
    unfold pruneOrphanBlocks at h
    split_ifs at h
    cases h
    exact ⟨Retains.rfl,fun _ _ ho => ho⟩
  | succ k ih =>
    unfold pruneOrphanBlocks at h
    split_ifs at h
    · obtain ⟨it,hit,h⟩ := bind_eq_some_iff.mp h
      obtain ⟨start,hstart,hleaf⟩ := bind_eq_some_iff.mp hit
      have hmem := mem_of_findLeaf (mem_of_getElem? hstart) hleaf
      obtain ⟨hkeep,hsub⟩ := ih h
      refine ⟨(retains_takeOut hmem).trans hkeep,fun hash o ho => ?_⟩
      have hold : (s.takeOut it).mapOrphanBlocks[hash]? = some o := hsub hash o ho
      rw [takeOut,getElem?_forget] at hold
      split_ifs at hold
      exact hold
    · cases h
      exact ⟨Retains.rfl,fun _ _ ho => ho⟩

variable {b : CBlock}

theorem getElem?_store (hnew : s.mapOrphanBlocks[hash]? = none) (h) :
    (s.store hash b).mapOrphanBlocks[h]? =
      if hash = h then some ⟨hash,b.hashPrevBlock,b.getProofOfStake,
        b⟩ else s.mapOrphanBlocks[h]? := by
  simp only [store,ExtTreeMap.getElem?_insertIfNew,ExtTreeMap.mem_iff_isSome_getElem?,hnew]
  by_cases hh : hash = h <;> simp [hh]

theorem store_mapOrphanBlocks (hnew : s.mapOrphanBlocks[hash]? = none) :
    (s.store hash b).mapOrphanBlocks =
      s.mapOrphanBlocks.insert hash ⟨hash,b.hashPrevBlock,b.getProofOfStake,b⟩ := by
  apply ExtTreeMap.ext_getElem?
  intro h
  rw [getElem?_store hnew,getElem?_insert]

theorem Filed.store (h : s.Filed P s.mapOrphanBlocksByPrev) (hnew : s.mapOrphanBlocks[hash]? = none)
    (hhash : b.getHash P = hash) :
    (s.store hash b).Filed P (s.store hash b).mapOrphanBlocksByPrev := by
  refine ⟨fun h' o ho => ?_,?_,?_⟩
  · rw [getElem?_store hnew] at ho
    split_ifs at ho with hh
    · cases ho
      exact ⟨hh,hhash.trans hh,rfl,rfl⟩
    · exact h.genuine h' o ho
  · have hmap := (toList_insert_perm s.mapOrphanBlocks hash ⟨hash,b.hashPrevBlock,b.getProofOfStake,b⟩).map
      fun e => (e.2.hashPrev,e.2)
    have hsame : s.mapOrphanBlocks.erase hash = s.mapOrphanBlocks := by
      apply ExtTreeMap.ext_getElem?
      intro h'
      rw [getElem?_erase]
      split_ifs with hh
      · rw [← hh,hnew]
      · rfl
    rw [hsame,map_cons,← store_mapOrphanBlocks hnew] at hmap
    exact hmap.trans ((h.byPrev.cons _).trans (insertByPrev_perm _ _).symm)
  · rw [store_mapOrphanBlocks hnew,entrySum_insert_new hnew,← h.size]
    exact Nat.add_comm _ _

theorem SeenHeld.store (h : s.SeenHeld) (hnew : s.mapOrphanBlocks[hash]? = none) :
    (s.store hash b).SeenHeld := by
  have hold : ∀ stake, s.Holds stake → (s.store hash b).Holds stake := by
    rintro stake ⟨h',o,ho,hpos,hst⟩
    refine ⟨h',o,?_,hpos,hst⟩
    rw [getElem?_store hnew,if_neg]
    · exact ho
    · rintro rfl
      rw [hnew] at ho
      contradiction
  intro stake hstake
  by_cases hpos : b.isProofOfStake
  · simp only [OrphanBlocks.store,hpos,if_true,Finset.mem_insert] at hstake
    rcases hstake with rfl | hstake
    · exact ⟨hash,_,by rw [getElem?_store hnew,if_pos rfl],hpos,rfl⟩
    · exact hold stake (h stake hstake)
  · simp only [OrphanBlocks.store,hpos] at hstake
    exact hold stake (h stake hstake)

theorem HeldSeen.store (h : s.HeldSeen) (hnew : s.mapOrphanBlocks[hash]? = none)
    (hfresh : b.isProofOfStake → ¬ s.Holds b.getProofOfStake) : (s.store hash b).HeldSeen := by
  constructor
  · rintro stake ⟨h',o,ho,hpos,rfl⟩
    rw [getElem?_store hnew] at ho
    split_ifs at ho
    · cases ho
      have hb : b.isProofOfStake := hpos
      simp [OrphanBlocks.store,hb]
    · have hmem := h.seen _ ⟨h',o,ho,hpos,rfl⟩
      simp only [OrphanBlocks.store]
      split_ifs
      · exact Finset.mem_insert_of_mem hmem
      · exact hmem
  · intro h1 h2 o₁ o₂ ho₁ ho₂ hpos₁ hpos₂ heq
    rw [getElem?_store hnew] at ho₁ ho₂
    split_ifs at ho₁ ho₂ with hh₁ hh₂ hh₂
    · exact hh₁.symm.trans hh₂
    · cases ho₁
      exact absurd ⟨h2,o₂,ho₂,hpos₂,heq.symm⟩ (hfresh hpos₁)
    · cases ho₂
      exact absurd ⟨h1,o₁,ho₁,hpos₁,heq⟩ (hfresh hpos₂)
    · exact h.distinct h1 h2 o₁ o₂ ho₁ ho₂ hpos₁ hpos₂ heq

end OrphanBlocks

open OrphanBlocks

variable {E} {s t : BlockState} {b : CBlock}

theorem foldlM_resolveOrphan {cs rest : List (UInt256 × COrphanBlock)} {r r'}
    (hf : r.2.orphans.Filed P (cs++rest)) (h : cs.foldlM (resolveOrphan P E) r = some r') :
    r'.2.orphans.Filed P rest ∧ r'.2.orphans.mapOrphanBlocksByPrev =
      r.2.orphans.mapOrphanBlocksByPrev ∧
      (r.2.orphans.SeenHeld → r'.2.orphans.SeenHeld) ∧
      (r.2.orphans.HeldSeen → r'.2.orphans.HeldSeen) := by
  induction cs generalizing r with
  | nil =>
    cases h
    exact ⟨hf,rfl,id,id⟩
  | cons e cs ih =>
    rw [foldlM_cons,bind_eq_bind,bind_eq_some_iff] at h
    obtain ⟨u,hu,h⟩ := h
    obtain ⟨a,-,rfl⟩ := map_eq_some_iff.mp hu
    have hget := (hf.getElem? mem_cons_self).1
    obtain ⟨hfiled,hsame,hseen,hheld⟩ := ih (hf.forget e.2.block.getProofOfStake) h
    exact ⟨hfiled,hsame,fun hs => hseen (hs.forget hget _),fun hs => hheld (hs.forget hget _)⟩

theorem retains_resolveOrphans {k : ℕ} {queue} (h : resolveOrphans P E k queue s = some t) :
    Retains P s.orphans t.orphans := by
  induction k generalizing queue s with
  | zero =>
    cases queue with
    | nil =>
      obtain rfl := some.inj (by simpa [resolveOrphans] using h)
      exact Retains.rfl
    | cons q queue => simp [resolveOrphans] at h
  | succ k ih =>
    cases queue with
    | nil =>
      obtain rfl := some.inj (by simpa [resolveOrphans] using h)
      exact Retains.rfl
    | cons q queue =>
      rw [resolveOrphans] at h
      obtain ⟨r,hr,h⟩ := bind_eq_some_iff.mp h
      refine Retains.trans ?_ (ih h)
      -- the entries of the second map are the ones that are resolved and the rest
      have hsplit : s.orphans.Filed P s.orphans.mapOrphanBlocksByPrev →
          s.orphans.Filed P ((s.orphans.mapOrphanBlocksByPrev.filter fun e => e.1 = q)++
            s.orphans.mapOrphanBlocksByPrev.filter fun e => e.1 ≠ q) := by
        intro hf
        refine ⟨hf.genuine,hf.byPrev.trans ?_,hf.size⟩
        have hperm := filter_append_perm (fun e : UInt256 × COrphanBlock => decide (e.1 = q))
          s.orphans.mapOrphanBlocksByPrev
        simpa only [decide_not] using hperm.symm
      refine ⟨fun hf => ?_,fun hf hs => ?_,fun hf hs => ?_⟩
      · obtain ⟨hfiled,hsame,-⟩ := foldlM_resolveOrphan (r := (queue,s)) (hsplit hf) hr
        exact ⟨hfiled.genuine,by dsimp only; rw [hsame]; exact hfiled.byPrev,hfiled.size⟩
      · exact (foldlM_resolveOrphan (r := (queue,s)) (hsplit hf) hr).2.2.1 hs
      · have hnew := (foldlM_resolveOrphan (r := (queue,s)) (hsplit hf) hr).2.2.2 hs
        exact ⟨hnew.seen,hnew.distinct⟩

/-- The exception in the check of the stakes is not used: a block with the stake of a
waiting block, for which a block waits, does not come without its predecessor. -/
def Unduplicated (P : Params) (s : BlockState) (b : CBlock) : Prop :=
  ¬ (b.isProofOfStake ∧ s.node.mapBlockIndex[b.hashPrevBlock]? = none ∧ s.orphans.Holds b.getProofOfStake ∧
    s.orphans.countByPrev (b.getHash P))

theorem processOrphan_spec {r} (hnew : s.orphans.mapOrphanBlocks[b.getHash P]? = none)
    (hprev : s.node.mapBlockIndex[b.hashPrevBlock]? = none) (h : processOrphan P E b s = some (r,t))
    (hf : s.orphans.Filed P s.orphans.mapOrphanBlocksByPrev) :
    t.orphans.Filed P t.orphans.mapOrphanBlocksByPrev ∧ (s.orphans.SeenHeld → t.orphans.SeenHeld) ∧
      (s.orphans.HeldSeen → Unduplicated P s b → t.orphans.HeldSeen) := by
  unfold processOrphan at h
  split_ifs at h with hpeer hdup
  · cases h
    exact ⟨hf,id,fun hs _ => hs⟩
  · obtain ⟨pruned,hprune,h⟩ := map_eq_some_iff.mp h
    cases h
    obtain ⟨hkeep,hsub⟩ := retains_pruneOrphanBlocks (P := P) hprune
    have hnew' : pruned.mapOrphanBlocks[b.getHash P]? = none := by
      refine eq_none_iff_forall_ne_some.mpr fun o ho => ?_
      rw [hsub _ o ho] at hnew
      contradiction
    refine ⟨(hkeep.filed hf).store hnew' rfl,fun hs => (hkeep.seenHeld hf hs).store hnew',fun hs hun => ?_⟩
    refine (hkeep.heldSeen hf hs).store hnew' fun hpos hholds => ?_
    obtain ⟨h',o,ho,hopos,hst⟩ := hholds
    have hheld : s.orphans.Holds b.getProofOfStake := ⟨h',o,hsub h' o ho,hopos,hst⟩
    have hmem := hs.seen _ hheld
    simp only [hpos,hmem,decide_true,Bool.and_self,Bool.true_and,Bool.not_eq_true,Bool.not_eq_false'] at hdup
    exact hun ⟨hpos,hprev,hheld,hdup⟩
  · cases h
    exact ⟨hf,id,fun hs _ => hs⟩

theorem processChecks_new {tip u} (h : processChecks P E b s tip = .ok u) :
    s.orphans.mapOrphanBlocks[b.getHash P]? = none := by
  simp only [processChecks,andThen_eq_ok,require_eq_ok] at h
  obtain ⟨-,hnew,-⟩ := h
  rw [ExtTreeMap.contains_eq_isSome_getElem?,not_isSome,isNone_iff_eq_none] at hnew
  exact hnew

theorem processBlock_spec {r} (h : processBlock P E b s = some (r,t))
    (hf : s.orphans.Filed P s.orphans.mapOrphanBlocksByPrev) :
    t.orphans.Filed P t.orphans.mapOrphanBlocksByPrev ∧ (s.orphans.SeenHeld → t.orphans.SeenHeld) ∧
      (s.orphans.HeldSeen → Unduplicated P s b → t.orphans.HeldSeen) := by
  unfold processBlock at h
  cases htip : s.node.tip with
  | none => simp [htip] at h
  | some tip =>
    simp only [htip] at h
    cases hc : processChecks P E b s tip with
    | error e =>
      simp only [hc,some.injEq,Prod.mk.injEq] at h
      obtain ⟨-,rfl⟩ := h
      exact ⟨hf,id,fun hs _ => hs⟩
    | ok u =>
      simp only [hc] at h
      split_ifs at h with hprev
      · obtain ⟨a,-,h⟩ := bind_eq_some_iff.mp h
        cases ha : a.1 with
        | error e =>
          simp only [ha,some.injEq,Prod.mk.injEq] at h
          obtain ⟨-,rfl⟩ := h
          exact ⟨hf,id,fun hs _ => hs⟩
        | ok u =>
          simp only [ha] at h
          obtain ⟨t',ht',h⟩ := map_eq_some_iff.mp h
          cases h
          have hkeep := retains_resolveOrphans ht'
          exact ⟨hkeep.filed hf,hkeep.seenHeld hf,fun hs _ => hkeep.heldSeen hf hs⟩
      · rw [ExtTreeMap.contains_eq_isSome_getElem?,Bool.not_eq_true,isSome_eq_false_iff,
          isNone_iff_eq_none] at hprev
        exact processOrphan_spec (processChecks_new hc) hprev h hf

def receive (P : Params) (s : BlockState) (m : ProcessEnv × CBlock) :
    Option (Except Reject Unit × BlockState) :=
  processBlock P m.1 m.2 s

/-- After any received blocks the two maps hold the same blocks, each under its hash and
its predecessor, and their size is counted. The stakes that are seen are exactly those of
the waiting blocks as long as the exception in the check of the stakes is not used. -/
theorem orphanBlocks_of_run {P : Params} {n : Node} {l : List (ProcessEnv × CBlock)}
    {s : BlockState} (hrun : (Runs.trace (receive P) ⟨n,.empty⟩ l).2 = some s) :
    (s.orphans.mapOrphanBlocksByPrev.Perm (s.orphans.mapOrphanBlocks.toList.map fun e =>
      (e.2.hashPrev,e.2)) ∧
      (∀ (h : UInt256) (o : COrphanBlock), s.orphans.mapOrphanBlocks[h]? = some o →
        o.hashBlock = h ∧ o.block.getHash P = h ∧ o.hashPrev = o.block.hashPrevBlock ∧
          o.stake = o.block.getProofOfStake) ∧
      s.orphans.nOrphanBlocksSize = (s.orphans.mapOrphanBlocks.toList.map fun e =>
        e.2.vchBlock.length).sum ∧
      ∀ stake ∈ s.orphans.setStakeSeenOrphan, s.orphans.Holds stake) ∧
    (Runs.Along (receive P) (fun s m => Unduplicated P s m.2) ⟨n,.empty⟩ l →
      ∀ stake, stake ∈ s.orphans.setStakeSeenOrphan ↔ s.orphans.Holds stake) := by
  have halways : Runs.Along (receive P) (fun _ _ => True) ⟨n,.empty⟩ l :=
    Runs.along_of_forall (fun _ _ => trivial) _ l
  have hall := halways.invariant
    (I := fun s => s.orphans.Filed P s.orphans.mapOrphanBlocksByPrev ∧ s.orphans.SeenHeld)
    (fun s m o t hs hexec _ => ⟨(processBlock_spec hexec hs.1).1,(processBlock_spec hexec hs.1).2.1 hs.2⟩)
    ⟨OrphanBlocks.filed_empty,by simp [OrphanBlocks.SeenHeld,OrphanBlocks.empty]⟩ hrun
  refine ⟨⟨hall.1.byPrev.symm,hall.1.genuine,hall.1.size,hall.2⟩,fun halong stake => ⟨hall.2 stake,?_⟩⟩
  have hheld := halong.invariant
    (I := fun s => s.orphans.Filed P s.orphans.mapOrphanBlocksByPrev ∧ s.orphans.HeldSeen)
    (fun s m o t hs hexec hok => ⟨(processBlock_spec hexec hs.1).1,(processBlock_spec hexec hs.1).2.2 hs.2 hok⟩)
    ⟨OrphanBlocks.filed_empty,by simp [OrphanBlocks.Holds,OrphanBlocks.empty],by simp [OrphanBlocks.empty]⟩ hrun
  exact hheld.2.seen stake

namespace Sample

/-- A coin stake that spends an output as its kernel. -/
def coinstake (nTime : UInt32) (kernel : COutPoint) : CTransaction :=
  ⟨1,nTime,[⟨kernel,[],0xFFFFFFFF⟩],[.setEmpty,⟨COIN,opTrue⟩],0⟩

def stakeBlock (hashPrevBlock : UInt256) (nHeight : ℕ) (kernel : COutPoint) : CBlock :=
  { block hashPrevBlock 320 [{ coinbase nHeight 320 0 with vout := [.setEmpty] },coinstake 320 kernel] with
    vchBlockSig := [0x30,7,2,2,1,1,2,1,1] }

/-- Two blocks with the same stake, one on the first block and one on a block that never
comes, and a block on the first of them. -/
def kernelBlock : CBlock := stakeBlock a₁.getBlockHash 2 ⟨5,0⟩
def sameKernel : CBlock := stakeBlock 77 9 ⟨5,0⟩
def otherKernel : CBlock := stakeBlock 78 9 ⟨6,0⟩
def onKernelBlock : CBlock := block (kernelBlock.getHash chainParams) 330 [coinbase 3 330 COIN]

def processEnv : ProcessEnv := ⟨false,false,true,512,fun _ => 0,world 400 [],fun _ => acceptEnv⟩

def received (l : List CBlock) : Option BlockState :=
  (Runs.trace (receive chainParams) ⟨started,.empty⟩ (l.map fun b => (processEnv,b))).2

end Sample

open Sample

/-- Of two waiting blocks with different stakes both stakes are seen, and no others. -/
theorem orphanBlocks_of_run_sameKernel :
    ∃ s, received [sameKernel,otherKernel] = some s ∧ s.orphans.mapOrphanBlocks.toList.length = 2 ∧
      ∀ stake, stake ∈ s.orphans.setStakeSeenOrphan ↔ s.orphans.Holds stake := by
  have hrun : (received [sameKernel,otherKernel]).map
      (fun s => s.orphans.mapOrphanBlocks.toList.length) = some 2 := by
    decide +kernel
  have hcount : (receive chainParams ⟨started,.empty⟩ (processEnv,sameKernel)).map (fun r =>
      r.2.orphans.countByPrev (otherKernel.getHash chainParams)) = some false := by decide +kernel
  obtain ⟨s,hs,hlen⟩ := map_eq_some_iff.mp hrun
  refine ⟨s,hs,hlen,(orphanBlocks_of_run hs).2 fun o t ht => ⟨?_,fun _ _ _ => ⟨?_,trivial⟩⟩⟩
  · rintro ⟨-,-,⟨h,x,hx,-⟩,-⟩
    simp [OrphanBlocks.empty] at hx
  · rintro ⟨-,-,-,hwaits⟩
    dsimp only at ht hwaits
    simp [ht,hwaits] at hcount

/-- The block with the same stake comes in because a block waits for it, and takes the
stake away when its predecessor arrives. The stake of the block that is left is not seen. -/
theorem stake_forgotten :
    ∃ s, received [sameKernel,onKernelBlock,kernelBlock,a₁.data.block] = some s ∧
      s.orphans.Holds sameKernel.getProofOfStake ∧
      sameKernel.getProofOfStake ∉ s.orphans.setStakeSeenOrphan := by
  have hrun : (received [sameKernel,onKernelBlock,kernelBlock,a₁.data.block]).map (fun s =>
      (s.orphans.mapOrphanBlocks[sameKernel.getHash chainParams]?.map COrphanBlock.block,
        decide (sameKernel.getProofOfStake ∈ s.orphans.setStakeSeenOrphan))) =
      some (some sameKernel,false) := by decide +kernel
  obtain ⟨s,hs,hval⟩ := map_eq_some_iff.mp hrun
  obtain ⟨hget,hset⟩ := Prod.mk.inj hval
  obtain ⟨o,ho,hblock⟩ := map_eq_some_iff.mp hget
  refine ⟨s,hs,⟨_,o,ho,?_,by rw [hblock]⟩,of_decide_eq_false hset⟩
  rw [hblock]
  decide +kernel

end DarkSilk
