import DarkSilk.ChainRuns

/-! The spent marks of the transaction index along runs: an output carries the
position of the one transaction of the recorded chain that spends it, or the null mark. -/
namespace DarkSilk

open BatchStore List SpendIndex

def chainPositions : List BlockIndexData → List (CTransaction × CDiskTxPos)
  | [] => []
  | d::ds => chainPositions ds++blockPositions d d.block false

/-- The transactions of a path with an input that names an output. -/
def spenders (path : List BlockIndexData) (o : UInt256 × ℕ) : List (CTransaction × CDiskTxPos) :=
  (chainPositions path).filter fun x => o ∈ x.1.vin.map fun i => i.prevout.key

/-- The database records a chain of the index, and every recorded output is marked
with the position of its only spender on that chain, or not marked and not spent. -/
def MarksExact (n : Node) : Prop :=
  ∃ pindex : CBlockIndex, n.mapBlockIndex[pindex.getBlockHash]? = some pindex ∧
    n.chain.txdb.readHashBestChain = some pindex.getBlockHash ∧
    ∀ hash txindex, n.chain.txdb.readTxIndex hash = some txindex → ∀ nOut x, txindex.vSpent[nOut]? = some x →
      (spenders pindex.path (hash,nOut)).map Prod.snd = if x = .setNull then [] else [x]

variable {P : Params} {gen : CBlock} {idx : TxIndex} {path : List BlockIndexData}

theorem chainPositions_eq (h : path ≠ []) :
    chainPositions path = blockPositions (path.getLast h) (path.getLast h).block
      false++pathPositions path := by
  induction path with
  | nil => exact absurd rfl h
  | cons d ds ih =>
    by_cases hds : ds = []
    · subst hds
      simp [chainPositions,pathPositions]
    · rw [chainPositions,ih hds,pathPositions_cons d hds,getLast_cons hds,append_assoc]

/-- The input of a coinbase names no output of a transaction that fits into a block. -/
theorem cell_setNull_key (ha : Applied P idx path) (hs : Sound P path) :
    cell idx COutPoint.setNull.key = none := by
  cases hr : idx COutPoint.setNull.hash with
  | none => simp [cell,COutPoint.key,hr]
  | some r =>
    obtain ⟨e,he,-,-,hlen⟩ := (ha.tracks hs).recorded _ r hr
    obtain ⟨x,hx,rfl⟩ := mem_map.mp he
    have hchk : x.1.Checked := Ruled.tx_checked
      (fun d ds hd hne => ⟨ha.checked d ds hd hne,hs.height d ds hd hne⟩) (mem_map_of_mem hx)
    have hsize := x.1.vout_length_le.trans hchk.size
    have hout : r.vSpent.length ≤ 20000000 := hlen.trans_le hsize
    have hn : r.vSpent[COutPoint.setNull.n.toNat]? = none := by
      rw [getElem?_eq_none_iff]
      exact hout.trans (by decide)
    simp [cell,COutPoint.key,hr,hn]

theorem key_of_isCoinBase {tx : CTransaction} (hcb : tx.isCoinBase) {o}
    (ho : o ∈ tx.vin.map fun i => i.prevout.key) : o = COutPoint.setNull.key := by
  unfold CTransaction.isCoinBase at hcb
  split at hcb
  · rename_i i hv
    simp only [Bool.and_eq_true] at hcb
    rw [hv,map_singleton,mem_singleton] at ho
    rw [ho,(COutPoint.isNull_iff _).mp hcb.1]
  · cases hcb

theorem map_snd_spenders (ha : Applied P idx path) (hs : Sound P path) (hne : path ≠ [])
    (hgen : ∀ tx ∈ (path.getLast hne).block.vtx, tx.isCoinBase) {o : UInt256 × ℕ}
    (ho : (cell idx o).isSome) :
    (spenders path o).map Prod.snd =
      ((pathEntries P path).filter fun e => o ∈ e.ins).map Entry.pos := by
  have hnull : o ≠ COutPoint.setNull.key := by
    rintro rfl
    rw [cell_setNull_key ha hs] at ho
    cases ho
  have hcb : ∀ tx : CTransaction, tx.isCoinBase → o ∉ tx.vin.map fun i => i.prevout.key :=
    fun tx htx hmem => hnull (key_of_isCoinBase htx hmem)
  have hfirst : (blockPositions (path.getLast hne) (path.getLast hne).block false).filter
      (fun x => o ∈ x.1.vin.map fun i => i.prevout.key) = [] := by
    rw [filter_eq_nil_iff]
    intro x hx hmem
    exact hcb x.1 (hgen x.1 (fst_mem_of_mem_blockPositions hx)) (of_decide_eq_true hmem)
  have hins : ∀ x : CTransaction × CDiskTxPos,
      (o ∈ x.1.vin.map fun i => i.prevout.key) ↔ o ∈ (txEntry P x).ins := by
    intro x
    by_cases hx : x.1.isCoinBase
    · simp only [hcb x.1 hx,txEntry,hx,if_true,not_mem_nil]
    · simp [txEntry,hx]
  rw [spenders,chainPositions_eq hne,filter_append,hfirst,nil_append,pathEntries,filter_map, map_map]
  simp only [hins,Function.comp_def]
  rfl

variable {n : Node}

/-- In every run whose calls attach all postponed blocks, the marks are exact in every
state reached. -/
theorem marksExact_of_reach (hgen : ∀ tx ∈ gen.vtx, tx.isCoinBase) (h : Reach P gen (Attaches P) n)
    (hinj : Set.InjOn (CTransaction.getHash P) (treeTxs n.mapBlockIndex)) : MarksExact n := by
  have hsync := h.synced (fun _ _ _ h => h) hinj
  obtain ⟨tip,htip,htree,hhash,hcomm⟩ := hsync.best
  have hs := hsync.tree.sound hinj htree
  have ha := hcomm.applied_readTxIndex
  refine ⟨tip.pindexBest,htree,hcomm.readHashBestChain,fun hash txindex hread nOut x hx => ?_⟩
  have hcell : cell n.chain.txdb.readTxIndex (hash,nOut) = some x := by
    simp [cell,hread,hx]
  have hlast : ∀ tx ∈ (tip.pindexBest.path.getLast tip.pindexBest.path_ne_nil).block.vtx, tx.isCoinBase := by
    rw [hsync.tree.getLast_block htree]
    exact hgen
  rw [map_snd_spenders ha hs tip.pindexBest.path_ne_nil hlast (by rw [hcell]; rfl)]
  rcases (ha.tracks hs).map_pos_filter (fun e he => pos_ne_null_of_mem_pathEntries he) hcell with
    ⟨h₁,h₂⟩ | ⟨h₁,h₂⟩
  · rw [h₁,if_pos h₂]
  · rw [h₁,if_neg h₂]

open Sample

theorem marksExact_of_reach_waiting : MarksExact waiting :=
  marksExact_of_reach (show ∀ tx ∈ genesis.block.vtx, tx.isCoinBase by decide +kernel)
    (reach_waiting attaches_a₁ attaches_c₂)
    (injOn_treeTxs (by decide +kernel))

/-- A block on top of the one that was refused: the chain recorded afterwards has the
refused block on it, and what this block spends was never marked. -/
def Sample.extendedRefused : Node :=
  call files c₄ ((call files c₃ waiting).addIndex acceptEnv c₄)

theorem marks_not_exact : ∃ n, Reach chainParams genesis.block (fun _ _ _ => True) n ∧
      (∀ tx ∈ genesis.block.vtx, tx.isCoinBase) ∧
      Set.InjOn (CTransaction.getHash chainParams) (treeTxs n.mapBlockIndex) ∧ ¬ MarksExact n := by
  have h₀ : Reach chainParams genesis.block (fun _ _ _ => True) waiting :=
    reach_waiting trivial trivial
  have h₁ := reach_call h₀ files c₃ (by decide +kernel) trivial
  have h₂ := reach_addIndex h₁ c₄ c₃ (by decide +kernel)
  have h₃ := reach_call h₂ files c₄ (by decide +kernel) trivial
  refine ⟨extendedRefused,h₃,by decide +kernel,injOn_treeTxs (by decide +kernel),?_⟩
  rintro ⟨pindex,hmem,hrec,hmarks⟩
  -- what the last state holds is read off one evaluation of the run
  obtain ⟨hrec',hmem',hread⟩ : extendedRefused.chain.txdb.readHashBestChain = some c₄.getBlockHash ∧
      extendedRefused.mapBlockIndex[c₄.getBlockHash]? = some c₄ ∧
      (extendedRefused.chain.txdb.readTxIndex
        ((coinbase 1 210 COIN).getHash params)).map SpendIndex.Record.vSpent =
          some [CDiskTxPos.setNull] := by decide +kernel
  have hhash : pindex.getBlockHash = c₄.getBlockHash := Option.some.inj (hrec.symm.trans hrec')
  rw [hhash] at hmem
  obtain rfl := Option.some.inj (hmem.symm.trans hmem')
  obtain ⟨r,hr,hspent⟩ := Option.map_eq_some_iff.mp hread
  have hempty := hmarks _ r hr 0 .setNull (by rw [hspent]; rfl)
  have hsome : (spenders c₄.path ((coinbase 1 210 COIN).getHash params,0)).map Prod.snd ≠ [] := by
    decide +kernel
  exact hsome hempty

end DarkSilk
