import DarkSilk.ChainRuns

/-! The synchronised checkpoint: the block of the best chain a span below its tip. New blocks
are compared with it by their heights alone. -/
namespace DarkSilk

open List Option

namespace Checkpoints

def syncCheckpoint (tip : Tip) : CBlockIndex :=
  autoSelectSyncCheckpoint tip.pindexBest.nHeight tip.pindexBest.data tip.pindexBest.ancestors

open CBlockIndex

theorem autoSelectSyncCheckpoint_spec (nHeightBest d ds) :
    (autoSelectSyncCheckpoint nHeightBest d ds).path <:+ d::ds ∧
      (autoSelectSyncCheckpoint nHeightBest d ds).nHeight = min ds.length
    (nHeightBest-nCheckpointSpan) := by
  induction ds generalizing d with
  | nil => simp [autoSelectSyncCheckpoint,path,nHeight]
  | cons d' ds ih =>
    obtain ⟨hsuffix,hheight⟩ := ih d'
    rw [autoSelectSyncCheckpoint]
    split_ifs with hspan
    · refine ⟨hsuffix.trans (suffix_cons _ _),hheight.trans ?_⟩
      rw [length_cons]
      omega
    · refine ⟨suffix_rfl,?_⟩
      rw [nHeight,length_cons]
      omega

theorem syncCheckpoint_path (tip) : (syncCheckpoint tip).path <:+ tip.pindexBest.path :=
  (autoSelectSyncCheckpoint_spec _ _ _).1

theorem syncCheckpoint_nHeight (tip) :
    (syncCheckpoint tip).nHeight = tip.pindexBest.nHeight-nCheckpointSpan := by
  rw [syncCheckpoint,(autoSelectSyncCheckpoint_spec _ _ _).2]
  exact min_eq_right (Nat.sub_le _ _)

end Checkpoints

open Checkpoints

variable {P : Params} {gen : CBlock} {good : (CBlockIndex → World) → CBlockIndex → Node → Prop}
  {A : AcceptEnv} {b : CBlock} {n n' : Node} {tip : Tip} {pindexPrev : CBlockIndex}

theorem addToBlockIndex_ok {slot hashProof u}
    (hprev : n.mapBlockIndex[b.hashPrevBlock]? = some pindexPrev)
    (h : addToBlockIndex P A b slot hashProof n = some (.ok u,n')) :
    ∃ d : BlockIndexData, n'.mapBlockIndex[b.getHash P]? = some ⟨d,pindexPrev.path⟩ := by
  have hindex : (n.addIndex A (newIndex P b slot hashProof n.mapBlockIndex)).mapBlockIndex[b.getHash P]? =
      some ⟨(newIndex P b slot hashProof n.mapBlockIndex).data,pindexPrev.path⟩ := by
    simp [Node.addIndex,newIndex,CBlockIndex.getBlockHash,hprev]
  unfold addToBlockIndex at h
  dsimp only at h
  split_ifs at h
  · cases h
  · cases h
  · cases h
  · exact ⟨_,(setBestChain_mapBlockIndex h).symm ▸ hindex⟩
  · cases h
    exact ⟨_,hindex⟩

theorem acceptBlock_ok (h : acceptBlock P A b n = some (.ok (),n')) :
    ∃ tip pindexPrev hashProof, n.tip = some tip ∧ acceptChecks P A tip b n.mapBlockIndex =
      .ok (pindexPrev,hashProof) ∧
      ∃ d : BlockIndexData, n'.mapBlockIndex[b.getHash P]? = some ⟨d,pindexPrev.path⟩ := by
  unfold acceptBlock at h
  split at h
  · cases h
  · rename_i tip htip
    split at h
    · cases h
    · rename_i pindexPrev hashProof hacc
      split at h
      · cases h
      · obtain ⟨⟨r,m⟩,hadd,h⟩ := map_eq_some_iff.mp h
        obtain ⟨hr,rfl⟩ := Prod.mk.inj h
        cases r with
        | error e => cases hr
        | ok u =>
          exact ⟨tip,pindexPrev,hashProof,htip,hacc,addToBlockIndex_ok (acceptChecks_spec hacc).2.1 hadd⟩

def DescendsFrom (m : HashMap CBlockIndex) (hash : UInt256) (p : CBlockIndex) : Prop :=
  ∃ pindex : CBlockIndex, m[hash]? = some pindex ∧ p.path <:+ pindex.ancestors

/-- No other block is known at the height of the checkpoint in force. -/
def CheckpointAlone (n : Node) : Prop :=
  ∀ tip, n.tip = some tip → ∀ (hash : UInt256) (p : CBlockIndex), n.mapBlockIndex[hash]? = some p →
    p.nHeight = (syncCheckpoint tip).nHeight → p = syncCheckpoint tip

theorem checkSync_of_acceptChecks {hashProof}
    (h : acceptChecks P A tip b n.mapBlockIndex = .ok (pindexPrev,hashProof)) :
    (syncCheckpoint tip).nHeight ≤ pindexPrev.nHeight := by
  simp only [acceptChecks,andThen_eq_ok,require_eq_ok] at h
  obtain ⟨-,-,h⟩ := h
  split at h
  · cases h
  · obtain ⟨hash,hc,h⟩ := bind_eq_ok.mp h
    cases h
    simp only [acceptChecksOn,bind_eq_ok,require_eq_ok] at hc
    obtain ⟨_,-,_,-,_,-,_,-,_,-,_,-,_,-,_,-,_,hsync,-⟩ := hc
    exact Nat.lt_succ_iff.mp (of_decide_eq_true hsync)

theorem Reach.tree (h : Reach P gen good n) : Tree P gen n.mapBlockIndex := by
  induction h with
  | start _ h htip => exact (synced_start h htip).tree
  | index _ _ hacc ih => exact ih.insert hacc
  | best _ _ h _ ih => exact (setBestChain_mapBlockIndex h).symm ▸ ih

theorem exists_suffix_of_nHeight_le {k} {q : CBlockIndex} (hk : k ≤ q.nHeight) :
    ∃ p : CBlockIndex, p.nHeight = k ∧ p.path <:+ q.path := by
  obtain ⟨d,ds⟩ := q
  induction ds generalizing d with
  | nil => exact ⟨⟨d,[]⟩,(Nat.le_zero.mp hk).symm,suffix_rfl⟩
  | cons e es ih =>
    by_cases heq : k = es.length+1
    · exact ⟨⟨d,e::es⟩,heq.symm,suffix_rfl⟩
    · obtain ⟨p,hp,hsuffix⟩ := ih e (by
        rw [CBlockIndex.nHeight,length_cons] at hk
        exact Nat.lt_succ_iff.mp (lt_of_le_of_ne hk heq))
      exact ⟨p,hp,hsuffix.trans (suffix_cons _ _)⟩

/-- In every state of every run: the accepted block descends from the checkpoint in force if that
is the only known block at its height. The predecessor is at least as high as the checkpoint, and
so it has an ancestor at this height. -/
theorem accepted_descends_of_checkpointAlone (hn : Reach P gen good n) (halone : CheckpointAlone n)
    (h : acceptBlock P A b n = some (.ok (),n')) :
    ∃ tip, n.tip = some tip ∧ DescendsFrom n'.mapBlockIndex (b.getHash P) (syncCheckpoint tip) := by
  obtain ⟨tip,pindexPrev,hashProof,htip,hacc,d,hnew⟩ := acceptBlock_ok h
  obtain ⟨p,hheight,hsuffix⟩ := exists_suffix_of_nHeight_le (checkSync_of_acceptChecks hacc)
  have hp := hn.tree.mem_of_suffix (acceptChecks_spec hacc).2.1 hsuffix
  obtain rfl := halone tip htip _ p hp hheight
  exact ⟨tip,htip,_,hnew,hsuffix⟩

open Sample

theorem checkpointAlone_a₁ : CheckpointAlone (call files a₁ (started.addIndex acceptEnv a₁)) := by
  have hall : ∀ e ∈ (call files a₁ (started.addIndex acceptEnv a₁)).mapBlockIndex.toList,
      e.2.nHeight = 0 → e.2 = ⟨genesis,[]⟩ := by decide +kernel
  have hcheckpoint : (call files a₁ (started.addIndex acceptEnv a₁)).tip.map syncCheckpoint =
      some ⟨genesis,[]⟩ := by decide +kernel
  intro tip htip hash p hp hheight
  rw [htip] at hcheckpoint
  obtain hgenesis : syncCheckpoint tip = ⟨genesis,[]⟩ := some.inj hcheckpoint
  rw [hgenesis] at hheight ⊢
  exact hall (hash,p) (Std.ExtTreeMap.mem_toList_iff_getElem?_eq_some.mpr hp) hheight

/-- A block beside the best one is accepted; the checkpoint is still the genesis block. -/
theorem accepted_descends_b₁ : CheckpointAlone (call files a₁ (started.addIndex acceptEnv a₁)) ∧
    ∃ n' tip, acceptBlock chainParams acceptEnv b₁.data.block
      (call files a₁ (started.addIndex acceptEnv a₁)) =
        some (.ok (),n') ∧
      (call files a₁ (started.addIndex acceptEnv a₁)).tip = some tip ∧
      DescendsFrom n'.mapBlockIndex (b₁.data.block.getHash chainParams) (syncCheckpoint tip) := by
  have hok : (acceptBlock chainParams acceptEnv b₁.data.block
      (call files a₁ (started.addIndex acceptEnv a₁))).map Prod.fst = some (.ok ()) := by decide +kernel
  obtain ⟨⟨r,n'⟩,hacc,rfl⟩ := map_eq_some_iff.mp hok
  have hreach : Reach chainParams genesis.block (fun _ _ _ => True)
      (call files a₁ (started.addIndex acceptEnv a₁)) :=
    reach_a₁ trivial
  obtain ⟨tip,htip,hdesc⟩ := accepted_descends_of_checkpointAlone hreach checkpointAlone_a₁ hacc
  exact ⟨checkpointAlone_a₁,n',tip,hacc,htip,hdesc⟩

/-! A best chain of more blocks than the span, and a stale block beside its first one. -/
namespace Sample

def mainIndex : ℕ → CBlockIndex
  | 0 => ⟨genesis,[]⟩
  | n+1 =>
    let nTime := UInt32.ofNat (200+n)
    ⟨stored 1000 (block (mainIndex n).getBlockHash nTime [coinbase (n+1) nTime COIN]),(mainIndex n).path⟩

theorem nHeight_mainIndex (n) : (mainIndex n).nHeight = n := by
  induction n with
  | zero => rfl
  | succ n ih =>
    rw [CBlockIndex.nHeight] at ih
    rw [mainIndex,CBlockIndex.nHeight,CBlockIndex.path,length_cons,ih]

theorem mainIndex_path_suffix (n k) : (mainIndex n).path <:+ (mainIndex (n+k)).path := by
  induction k with
  | zero => exact suffix_rfl
  | succ k ih => exact ih.trans (suffix_cons _ _)

def mainTip (n : ℕ) : Tip := ⟨mainIndex n,n,by rw [nHeight_mainIndex]⟩

theorem syncCheckpoint_mainTip (n) :
    syncCheckpoint (mainTip (n+nCheckpointSpan)) = mainIndex n := by
  have hpath := syncCheckpoint_path (mainTip (n+nCheckpointSpan))
  have hheight : (syncCheckpoint (mainTip (n+nCheckpointSpan))).nHeight = (mainIndex n).nHeight := by
    rw [syncCheckpoint_nHeight,mainTip,nHeight_mainIndex,nHeight_mainIndex,Nat.add_sub_cancel]
  have hlen : (syncCheckpoint (mainTip (n+nCheckpointSpan))).path.length = (mainIndex n).path.length := by
    simpa [CBlockIndex.path,CBlockIndex.nHeight] using hheight
  exact CBlockIndex.path_inj
    ((suffix_of_suffix_length_le hpath (mainIndex_path_suffix n nCheckpointSpan) hlen.le).eq_of_length hlen)

def staleTip : Tip := mainTip (1+nCheckpointSpan)

/-- The node knows the first block of a stale branch; its best chain has the trust of many
blocks. -/
def staleNode : Node :=
  { Node.empty with
    mapBlockIndex := ((∅ : HashMap CBlockIndex).insert genesis.hashBlock ⟨genesis,[]⟩).insert b₁.getBlockHash b₁
    hashBestChain := staleTip.pindexBest.getBlockHash
    tip := some staleTip
    nBestChainTrust := 2^128 }

theorem checkSync_staleTip : checkSync staleTip 2 := by
  show decide ((syncCheckpoint staleTip).nHeight < 2)
  rw [staleTip,syncCheckpoint_mainTip,nHeight_mainIndex]
  rfl

theorem acceptChecks_stale :
    acceptChecks chainParams acceptEnv staleTip c₂.data.block staleNode.mapBlockIndex =
    .ok (b₁,c₂.data.block.getPoWHash chainParams) := by
  have hprev : staleNode.mapBlockIndex[c₂.data.block.hashPrevBlock]? = some b₁ := by decide +kernel
  have hchecks : acceptChecksOn chainParams acceptEnv staleTip c₂.data.block b₁ =
      .ok (c₂.data.block.getPoWHash chainParams) := by
    simp only [acceptChecksOn,bind_eq_ok,require_eq_ok]
    refine ⟨(),by decide +kernel,(),by decide +kernel,(),by decide +kernel,(),by decide +kernel,(),by decide +kernel,
      (),by decide +kernel,(),by decide +kernel,_,?_,(),checkSync_staleTip,(),by decide +kernel,(),rfl,rfl⟩
    decide +kernel
  simp only [acceptChecks,andThen_eq_ok,require_eq_ok]
  refine ⟨by decide +kernel,by decide +kernel,?_⟩
  rw [hprev]
  exact bind_eq_ok.mpr ⟨_,hchecks,rfl⟩

end Sample

/-- A block at height two is accepted on the stale block, and does not descend from the
checkpoint, which is the first block of the best chain. -/
theorem stale_branch_extended : staleNode.tip = some staleTip ∧ ∃ n',
      acceptBlock chainParams acceptEnv c₂.data.block staleNode = some (.ok (),n') ∧
        ¬ DescendsFrom n'.mapBlockIndex (c₂.data.block.getHash chainParams)
          (syncCheckpoint staleTip) := by
  have hadd : ∃ n', addToBlockIndex chainParams acceptEnv c₂.data.block ⟨(1,0),by decide⟩
      (c₂.data.block.getPoWHash chainParams) staleNode = some (.ok (),n') := by
    unfold addToBlockIndex
    rw [if_neg (by decide +kernel),if_neg (by decide)]
    rw [if_neg (by decide),if_neg (by decide +kernel)]
    exact ⟨_,rfl⟩
  obtain ⟨n',hadd⟩ := hadd
  have hacc : acceptBlock chainParams acceptEnv c₂.data.block staleNode = some (.ok (),n') := by
    have htip : staleNode.tip = some staleTip := rfl
    have hslot : acceptEnv.slot = some ⟨(1,0),by decide⟩ := rfl
    rw [acceptBlock,htip]
    dsimp only
    rw [acceptChecks_stale]
    rw [hslot]
    dsimp only
    rw [hadd]
    rfl
  refine ⟨rfl,n',hacc,?_⟩
  rintro ⟨pindex,hindex,hsuffix⟩
  obtain ⟨tip,pindexPrev,hashProof,htip,hchecks,d,hnew⟩ := acceptBlock_ok hacc
  obtain rfl : staleTip = tip := some.inj htip
  obtain rfl : b₁ = pindexPrev := by
    rw [acceptChecks_stale] at hchecks
    exact (Prod.mk.inj (Except.ok.inj hchecks)).1
  rw [hindex] at hnew
  rw [some.inj hnew,staleTip,syncCheckpoint_mainTip] at hsuffix
  have hlen : (mainIndex 1).path.length = b₁.path.length := by decide +kernel
  have hpath : (mainIndex 1).path = b₁.path := List.IsSuffix.eq_of_length hsuffix hlen
  have htime := congrArg (fun p : CBlockIndex => p.data.block.nTime) (CBlockIndex.path_inj hpath)
  exact absurd htime (by decide +kernel)

end DarkSilk
