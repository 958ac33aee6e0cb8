import DarkSilk.ConnectBlock

/-! Which parts of the node decide whether a block connects: the records its inputs
name and, through the proof-of-work reward, the height of the current best block. -/
namespace DarkSilk
namespace TipIndependence

open BatchStore

variable {P : Params} {W : World} {pindex : CBlockIndex}

section

variable {db db' : CTxDB} {tip tip' : Tip} {pool : HashMap CTxIndex} {fMiner : Bool}

def refs (vin : List CTxIn) : Set UInt256 := {h | ∃ i ∈ vin, i.prevout.hash = h}

def blockRefs (vtx : List CTransaction) : Set UInt256 := {h | ∃ tx ∈ vtx, h ∈ refs tx.vin}

theorem eqOn_overlay {idx idx' S} (h : Set.EqOn idx idx' S) (q) :
    Set.EqOn (overlay q idx) (overlay q idx') S := by
  intro x hx
  simp [overlay,h hx]

theorem fetchInput_congr {i} (h : db.txView i.prevout.hash = db'.txView i.prevout.hash)
    (inputs : MapPrevTx) :
    fetchInput W db pool true fMiner inputs i = fetchInput W db' pool true fMiner inputs i := by
  simp only [fetchInput,fetchTxIndex_block,overlay,h]

theorem fetchLoop_congr {vin} (h : Set.EqOn db.txView db'.txView (refs vin)) (inputs : MapPrevTx) :
    fetchLoop W db pool true fMiner vin inputs = fetchLoop W db' pool true fMiner vin inputs := by
  induction vin generalizing inputs with
  | nil => rfl
  | cons i vin ih =>
    have hi : fetchInput W db pool true fMiner inputs i = fetchInput W db' pool true fMiner inputs i :=
      fetchInput_congr (h ⟨i,List.mem_cons_self,rfl⟩) inputs
    simp only [fetchLoop,hi]
    congr 1
    funext m
    refine ih ?_ m
    rintro x ⟨j,hj,hx⟩
    exact h ⟨j,List.mem_cons_of_mem _ hj,hx⟩

variable {tx : CTransaction} {p : CDiskTxPos}

theorem fetchInputs_congr (h : Set.EqOn db.txView db'.txView (refs tx.vin)) :
    fetchInputs W db pool true fMiner tx = fetchInputs W db' pool true fMiner tx := by
  simp only [fetchInputs,fetchLoop_congr h]

theorem not_nBestHeight_lt (P) (tip : Tip) :
    ¬ tip.nBestHeight < Checkpoints.getTotalBlocksEstimate P := by
  rw [Checkpoints.getTotalBlocksEstimate_eq_zero,tip.height_eq]
  omega

/-- No checkpoint lies above the first block, so the signatures are always checked. -/
theorem spendInputs_tip (tip tip') {fBlock flags fSig} (nIn : ℕ) (vin)
    (s : MapPrevTx × HashMap CTxIndex) :
    spendInputs P tip tx p fBlock fMiner flags fSig nIn vin s =
      spendInputs P tip' tx p fBlock fMiner flags fSig nIn vin s := by
  induction vin generalizing nIn s with
  | nil => rfl
  | cons i vin ih =>
    have hi : spendInput P tip tx p fBlock fMiner flags fSig nIn i s =
        spendInput P tip' tx p fBlock fMiner flags fSig nIn i s := by
      simp only [spendInput,not_nBestHeight_lt]
    simp only [spendInputs,hi]
    congr 1
    funext m
    exact ih (nIn+1) m

theorem connectTx_congr (tip') (h : Set.EqOn db.txView db'.txView (refs tx.vin)) (t) :
    connectTx P W tip db pindex tx p t = connectTx P W tip' db' pindex tx p t := by
  have hc : ∀ inputs q, connectInputs P tip tx p pindex true false Flags.block true inputs q =
      connectInputs P tip' tx p pindex true false Flags.block true inputs q := by
    intro inputs q
    simp only [connectInputs,spendInputs_tip tip tip']
  simp only [connectTx,fetchInputs_congr h,hc]

theorem connectTxs_congr (tip') {l} (h : Set.EqOn db.txView db'.txView (blockRefs (l.map Prod.fst)))
    (t) :
    connectTxs P W tip db pindex l t = connectTxs P W tip' db' pindex l t := by
  induction l generalizing t with
  | nil => rfl
  | cons x l ih =>
    have hx : Set.EqOn db.txView db'.txView (refs x.1.vin) := fun y hy => h ⟨x.1,by simp,hy⟩
    have hl : Set.EqOn db.txView db'.txView (blockRefs (l.map Prod.fst)) :=
      fun y ⟨tx,htx,hy⟩ => h ⟨tx,List.mem_cons_of_mem _ htx,hy⟩
    simp only [connectTxs,connectTx_congr tip' hx]
    congr 1
    funext m
    exact ih hl m

theorem writeBlockAddrs_congr {vtx} (h : Set.EqOn db.txView db'.txView (blockRefs vtx)) :
    (writeBlockAddrs P W vtx db).1 = (writeBlockAddrs P W vtx db').1 := by
  induction vtx generalizing db db' with
  | nil => rfl
  | cons tx vtx ih =>
    have hx : Set.EqOn db.txView db'.txView (refs tx.vin) := fun y hy => h ⟨tx,List.mem_cons_self,hy⟩
    have hfst : (writeTxAddrs P W tx db).1 = (writeTxAddrs P W tx db').1 := by
      unfold writeTxAddrs
      rw [fetchInputs_congr hx]
      split_ifs
      · rfl
      · cases fetchInputs W db' ∅ true false tx <;> rfl
    have hq := (quiet_writeTxAddrs (P := P) (W := W) tx db).1
    have hq' := (quiet_writeTxAddrs (P := P) (W := W) tx db').1
    unfold writeBlockAddrs
    rcases hd : writeTxAddrs P W tx db with ⟨e | u,d⟩ <;>
      rcases hd' : writeTxAddrs P W tx db' with ⟨e' | u',d'⟩ <;> rw [hd,hd'] at hfst
    · exact hfst
    · cases hfst
    · cases hfst
    · rw [hd] at hq
      rw [hd'] at hq'
      apply ih
      rintro y ⟨t,ht,hy⟩
      have := h ⟨t,List.mem_cons_of_mem _ ht,hy⟩
      simpa [hq,hq'] using this

end

variable {b : CBlock} {fJustCheck : Bool}

/-- All that ConnectBlock asks of a block but for the proof-of-work reward. -/
structure PassesOtherChecks (P : Params) (W : World) (tip : Tip) (pindex : CBlockIndex) (b : CBlock)
    (fJustCheck : Bool) (s : ChainState) (t : Tally) : Prop where
  block : checkBlock P W b (!fJustCheck) (!fJustCheck) false = .ok ()
  txs : connectTxs P W tip s.txdb pindex (blockPositions pindex.data b fJustCheck) .zero = .ok t
  stake : b.isProofOfStake = true → t.nStakeReward ≤ STATIC_POS_REWARD+t.nFees
  addrs : fJustCheck = false → (writeBlockAddrs P W b.vtx (s.txdb.writeQueue t.pool)).1 = .ok ()

theorem PassesOtherChecks.congr {tip tip' s s' t}
    (h : Set.EqOn s.txdb.txView s'.txdb.txView (blockRefs b.vtx))
    (hp : PassesOtherChecks P W tip pindex b fJustCheck s t) :
    PassesOtherChecks P W tip' pindex b fJustCheck s' t := by
  refine ⟨hp.block,?_,hp.stake,fun hf => ?_⟩
  · have h' : Set.EqOn s.txdb.txView s'.txdb.txView
        (blockRefs ((blockPositions pindex.data b fJustCheck).map Prod.fst)) := by
      rwa [blockPositions,map_fst_txPositions]
    rw [← connectTxs_congr tip' h']
    exact hp.txs
  · rw [← hp.addrs hf]
    apply writeBlockAddrs_congr
    rw [CTxDB.txView_writeQueue,CTxDB.txView_writeQueue]
    exact (eqOn_overlay h _).symm

open Sample

end TipIndependence
end DarkSilk
