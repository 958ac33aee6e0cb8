import DarkSilk.ChainRuns

/-! The notifications that the wallets receive along runs, replayed: a connected block
adds its transactions, a disconnected one takes them away again. -/
namespace DarkSilk

open BatchStore List Option

/-- Notifications of loose transactions belong to no block. -/
def replayStep (acc : Multiset (CBlock × CTransaction)) (e : SyncEvent) :
    Multiset (CBlock × CTransaction) :=
  match e.pblock with
  | none => acc
  | some b => if e.fConnect then (b,e.tx) ::ₘ acc else acc.erase (b,e.tx)

def replay (log : List SyncEvent) : Multiset (CBlock × CTransaction) := log.foldl replayStep 0

def blockPairs (d : BlockIndexData) : Multiset (CBlock × CTransaction) :=
  (d.block.vtx.map fun tx => (d.block,tx) : List (CBlock × CTransaction))

/-- The transactions of a path with their blocks. The first block is never connected
and never announced. -/
def chainPairs : List BlockIndexData → Multiset (CBlock × CTransaction)
  | d::d'::ds => blockPairs d+chainPairs (d'::ds)
  | _ => 0

/-- The wallets have heard of exactly the blocks of the recorded chain. -/
def WalletsFollow (n : Node) : Prop :=
  ∃ pindex : CBlockIndex, n.mapBlockIndex[pindex.getBlockHash]? = some pindex ∧
    n.chain.txdb.readHashBestChain = some pindex.getBlockHash ∧
    replay n.chain.syncLog = chainPairs pindex.path

/-- The entries that a call disconnects (`false`) and connects (`true`) in one database
transaction, in this order. -/
def moveSteps (n : Node) (tip : Tip) (pindexNew : CBlockIndex) : List (Bool × CBlockIndex) :=
  let target := switchTarget n tip pindexNew
  match findFork target tip.pindexBest.data tip.pindexBest.ancestors with
  | none => []
  | some pfork =>
    (branch pfork tip.pindexBest.data tip.pindexBest.ancestors).map (Prod.mk false)++
      (branch pfork target.data target.ancestors).reverse.map (Prod.mk true)

section

variable (P : Params) (E : CBlockIndex → World)

def applyStep (tip : Tip) (step : Bool × CBlockIndex) (b : CBlock) (s : ChainState) :
    Except Reject Unit × ChainState :=
  if step.1 then connectBlock P (E step.2) tip step.2 b false s else disconnectBlock P step.2 b s

/-- The first block that a call has to connect or to disconnect cannot be read from the
disk, or is refused. A block on the best one is there already and is not read. -/
def FirstRefused (pindexNew : CBlockIndex) (n : Node) : Prop :=
  ∀ tip ∈ n.tip, let s := (n.withDb n.chain.txdb.txnBegin).chain
    (pindexNew.data.block.hashPrevBlock = n.hashBestChain →
      (applyStep P E tip (true,pindexNew) pindexNew.data.block s).1.isOk = false) ∧
    (pindexNew.data.block.hashPrevBlock ≠ n.hashBestChain →
      ∀ step ∈ (moveSteps n tip pindexNew).head?, ∀ b ∈ readFromDisk P (E step.2) step.2,
        (applyStep P E tip step b s).1.isOk = false)

/-- A call that fails does so at the first block it comes to, and not at a later one or
in the commit. -/
def FailsFirst (pindexNew : CBlockIndex) (n : Node) : Prop :=
  (setBestChain P E pindexNew n).map (fun r => r.1.isOk) = some false → FirstRefused P E pindexNew n

end

variable {base l : List BlockIndexData}

theorem chainPairs_cons (d) (h : base ≠ []) :
    chainPairs (d::base) = blockPairs d+chainPairs base := by
  cases base with
  | nil => exact absurd rfl h
  | cons d' ds => rfl

theorem replay_connect (acc d) : (blockEvents true d).foldl replayStep acc = blockPairs d+acc := by
  have h : ∀ vtx : List CTransaction,
      (vtx.map fun tx => (⟨tx,some d.block,true⟩ : SyncEvent)).foldl replayStep acc =
      (vtx.map fun tx => (d.block,tx) : List (CBlock × CTransaction))+acc := by
    intro vtx
    induction vtx generalizing acc with
    | nil => simp
    | cons tx vtx ih =>
      rw [map_cons,foldl_cons,ih,map_cons,← Multiset.cons_coe,Multiset.cons_add]
      exact Multiset.add_cons _ _ _
  exact h d.block.vtx

theorem replay_disconnect (acc d) :
    (blockEvents false d).foldl replayStep acc = acc-blockPairs d := by
  have h : ∀ vtx : List CTransaction,
      (vtx.map fun tx => (⟨tx,some d.block,false⟩ : SyncEvent)).foldl replayStep acc =
      acc-(vtx.map fun tx => (d.block,tx) : List (CBlock × CTransaction)) := by
    intro vtx
    induction vtx generalizing acc with
    | nil => simp
    | cons tx vtx ih =>
      rw [map_cons,foldl_cons,ih,map_cons,← Multiset.cons_coe,Multiset.sub_cons]
      rfl
  exact h d.block.vtx

theorem replay_loose {r : List SyncEvent} (hr : ∀ e ∈ r, e.pblock = none) (acc) :
    r.foldl replayStep acc = acc := by
  induction r with
  | nil => rfl
  | cons e r ih =>
    rw [forall_mem_cons] at hr
    rw [foldl_cons,replayStep,hr.1]
    exact ih hr.2

theorem replay_detach (hbase : base ≠ []) :
    (l.flatMap (blockEvents false)).foldl replayStep (chainPairs (l++base)) = chainPairs base := by
  induction l with
  | nil => rfl
  | cons d l ih =>
    have hne : l++base ≠ [] := fun he => hbase (append_eq_nil_iff.mp he).2
    rw [flatMap_cons,foldl_append,replay_disconnect,cons_append,chainPairs_cons d hne, add_tsub_cancel_left,ih]

theorem replay_attach (hbase : base ≠ []) :
    (l.flatMap (blockEvents true)).foldl replayStep (chainPairs base) =
      chainPairs (l.reverse++base) := by
  induction l generalizing base with
  | nil => rfl
  | cons d l ih =>
    rw [flatMap_cons,foldl_append,replay_connect,← chainPairs_cons d hbase,ih (by simp),
      reverse_cons,append_assoc]
    rfl

variable {P : Params} {gen : CBlock} {n₀ n n' : Node} {tip : Tip} {pindexNew : CBlockIndex}

theorem Moved.replay {target : CBlockIndex}
    {detached common connected attached left : List BlockIndexData}
    (hm : Moved P tip target pindexNew n n' true detached common connected attached left)
    (h : replay n.chain.syncLog = chainPairs tip.pindexBest.path) :
    replay n'.chain.syncLog = chainPairs pindexNew.path := by
  obtain ⟨r,hr,hlog⟩ := hm.log rfl
  have hleft : left = [] := hm.finished.mp rfl
  have hnew := hm.new
  rw [hleft,reverse_nil,nil_append] at hnew
  have hmid : connected.reverse++common ≠ [] := fun he => hm.common_ne (append_eq_nil_iff.mp he).2
  unfold DarkSilk.replay at h ⊢
  rw [hlog,foldl_append,h,hm.old,foldl_append,replay_detach hm.common_ne,foldl_append,
    replay_attach hm.common_ne,foldl_append,replay_loose hr,replay_attach hmid,hnew]

section

variable {E : CBlockIndex → World} {W : World} {b : CBlock} {e : Reject} {s s' : ChainState} {p : CBlockIndex}

theorem connectBlock_error_syncLog (h : connectBlock P W tip p b false s = (.error e,s')) :
    s'.syncLog = s.syncLog := by
  unfold connectBlock at h
  split at h
  · exact (Prod.mk.inj h).2 ▸ rfl
  · rw [if_neg Bool.false_ne_true] at h
    dsimp only at h
    split at h
    · exact (Prod.mk.inj h).2 ▸ rfl
    · cases h

theorem disconnectBlock_error_syncLog (h : disconnectBlock P p b s = (.error e,s')) :
    s'.syncLog = s.syncLog := by
  unfold disconnectBlock at h
  split at h
  · exact (Prod.mk.inj h).2 ▸ rfl
  · cases h

/-- A branch whose first block is refused leaves the notifications alone. -/
theorem disconnectBranch_first_refused (l acc)
    (h : ∀ b ∈ readFromDisk P (E p) p, (disconnectBlock P p b s).1.isOk = false) :
    ∃ e s', disconnectBranch P E (p::l) acc s = (.error e,s') ∧ s'.syncLog = s.syncLog := by
  rw [disconnectBranch]
  split
  · exact ⟨_,_,rfl,rfl⟩
  · rename_i b hb
    have hb := h b hb
    split <;> rename_i s' hs <;> rw [hs] at hb
    · exact ⟨_,_,rfl,disconnectBlock_error_syncLog hs⟩
    · exact absurd hb (by simp [Except.isOk,Except.toBool])

theorem connectBranch_first_refused (l acc)
    (h : ∀ b ∈ readFromDisk P (E p) p, (connectBlock P (E p) tip p b false s).1.isOk = false) :
    ∃ e s', connectBranch P E tip (p::l) acc s = (.error e,s') ∧ s'.syncLog = s.syncLog := by
  rw [connectBranch]
  split
  · exact ⟨_,_,rfl,rfl⟩
  · rename_i b hb
    have hb := h b hb
    split <;> rename_i s' hs <;> rw [hs] at hb
    · exact ⟨_,_,rfl,connectBlock_error_syncLog hs⟩
    · exact absurd hb (by simp [Except.isOk,Except.toBool])

theorem setBestChainInner_syncLog
    (h : setBestChainInner P W tip b pindexNew n = some (.error e,n'))
    (hrefused : (connectBlock P W tip pindexNew b false n.chain).1.isOk = false) :
    n'.chain.syncLog = n.chain.syncLog := by
  unfold setBestChainInner at h
  split at h <;> rename_i s hs <;> rw [hs] at hrefused
  · obtain ⟨m,hm,h⟩ := map_eq_some_iff.mp h
    cases h
    have hlog := connectBlock_error_syncLog hs
    exact (invalidChainFound_spec hm).2.2.trans hlog
  · exact absurd hrefused (by simp [Except.isOk,Except.toBool])

theorem reorganize_syncLog {target : CBlockIndex} (htarget : switchTarget n₀ tip pindexNew = target)
    (h : reorganize P E tip target n = some (.error e,n'))
    (hrefused : ∀ step ∈ (moveSteps n₀ tip pindexNew).head?, ∀ b ∈ readFromDisk P (E step.2) step.2,
      (applyStep P E tip step b n.chain).1.isOk = false) :
    n'.chain.syncLog = n.chain.syncLog := by
  unfold reorganize at h
  rw [moveSteps,htarget] at hrefused
  split at h
  · exact (Prod.mk.inj (some.inj h)).2 ▸ rfl
  · rename_i pfork hfork
    dsimp only at h
    rw [hfork] at hrefused
    dsimp only at hrefused
    -- the first entry stands on the branch that is left, or else on the one that is taken
    cases hdis : branch pfork tip.pindexBest.data tip.pindexBest.ancestors with
    | cons p l =>
      rw [hdis,map_cons,cons_append,head?_cons] at hrefused
      rw [hdis] at h
      obtain ⟨e',s',hs',hlog⟩ := disconnectBranch_first_refused l [] (hrefused _ rfl)
      rw [hs'] at h
      exact (Prod.mk.inj (some.inj h)).2 ▸ hlog
    | nil =>
      rw [hdis,map_nil,nil_append] at hrefused
      rw [hdis,disconnectBranch] at h
      dsimp only at h
      cases hcon : (branch pfork target.data target.ancestors).reverse with
      | cons p l =>
        rw [hcon,map_cons,head?_cons] at hrefused
        rw [hcon] at h
        obtain ⟨e',s',hs',hlog⟩ := connectBranch_first_refused l [] (hrefused _ rfl)
        rw [hs'] at h
        exact (Prod.mk.inj (some.inj h)).2 ▸ hlog
      | nil =>
        rw [hcon,connectBranch] at h
        dsimp only at h
        split_ifs at h with hok
        · obtain ⟨m,-,h⟩ := map_eq_some_iff.mp h
          cases h
        · exact (Prod.mk.inj (some.inj h)).2 ▸ rfl

/-- A call that fails at its first block has notified nobody. -/
theorem switchChain_syncLog (h : switchChain P E pindexNew n = some (.error e,n'))
    (hrefused : FirstRefused P E pindexNew n) : n'.chain.syncLog = n.chain.syncLog := by
  obtain ⟨-,h⟩ := switchChain_cases h
  cases h with
  | firstFailed => rfl
  | refused htip hext hinner =>
    have hfirst := (hrefused _ htip).1 hext
    have hlog := setBestChainInner_syncLog hinner hfirst
    exact hlog
  | aborted htip hext hre hinv =>
    have hfirst := (hrefused _ htip).2 hext
    have hlog := reorganize_syncLog (show switchTarget n _ pindexNew = _ from if_neg hext) hre hfirst
    exact (invalidChainFound_spec hinv).2.2.trans hlog

end

theorem start_syncLog {A slot hashProof}
    (h : addToBlockIndex P A gen slot hashProof .empty = some (.ok (),n))
    (htip : n.tip = some tip) :
    replay n.chain.syncLog = chainPairs tip.pindexBest.path := by
  obtain ⟨p,hroot,-,-,rfl⟩ := addToBlockIndex_first h (by rw [htip]; rfl)
  cases htip
  rw [CBlockIndex.path,hroot]
  rfl

theorem Reach.replay (h : Reach P gen (fun E p n => Attaches P E p n ∧ FailsFirst P E p n) n)
    (hinj : Set.InjOn (CTransaction.getHash P) (treeTxs n.mapBlockIndex))
    (htip : n.tip = some tip) :
    replay n.chain.syncLog = chainPairs tip.pindexBest.path := by
  induction h generalizing tip with
  | start _ h _ => exact start_syncLog h htip
  | index hn _ hacc ih => exact ih (hinj.mono (treeTxs_addIndex hacc)) htip
  | @best n n' E pindexNew r hn hmem h hgood ih =>
    rw [setBestChain_mapBlockIndex h] at hinj
    have hsync := hn.synced (fun _ _ _ h => h.1) hinj
    cases r with
    | error e =>
      have hs := setBestChain_eq_error.mp h
      rw [(switchChain_error hs).1.globals] at htip
      rw [switchChain_syncLog hs (hgood.2 (by rw [h]; rfl))]
      exact ih hinj htip
    | ok u =>
      obtain ⟨all,m,hs,rfl⟩ := setBestChain_eq_ok.mp h
      obtain ⟨tip₀,htip₀,detached,common,connected,attached,left,hm⟩ := hsync.moved hinj hmem hs
      rw [hgood.1.eq_true hs] at hm
      cases htip
      exact hm.replay (ih hinj htip₀)

/-- In every run whose calls attach all postponed blocks, or fail at the first block they
come to, the wallets follow the recorded chain in every state reached. -/
theorem walletsFollow_of_reach
    (h : Reach P gen (fun E p n => Attaches P E p n ∧ FailsFirst P E p n) n)
    (hinj : Set.InjOn (CTransaction.getHash P) (treeTxs n.mapBlockIndex)) : WalletsFollow n := by
  obtain ⟨tip,htip,htree,hhash,hcomm⟩ := (h.synced (fun _ _ _ h => h.1) hinj).best
  exact ⟨tip.pindexBest,htree,hcomm.readHashBestChain,h.replay hinj htip⟩

open Sample

theorem Sample.failsFirst {E p} (h : setBestChain chainParams E p n = some (.ok (),n')) :
    FailsFirst chainParams E p n := by
  intro hfail
  rw [h] at hfail
  exact Bool.noConfusion (some.inj hfail)

/-- Where nothing can be read, a reorganisation fails at its first block. -/
theorem Sample.failsFirst_unreadable {p} (h : p.data.block.hashPrevBlock ≠ n.hashBestChain) :
    FailsFirst chainParams unreadable p n := by
  refine fun _ tip _ => ⟨fun hext => absurd hext h,fun _ step _ b hb => ?_⟩
  simp [readFromDisk,unreadable] at hb

theorem walletsFollow_of_reach_waiting : WalletsFollow waiting := by
  have ha : FailsFirst chainParams files a₁ (started.addIndex acceptEnv a₁) := failsFirst setBestChain_a₁
  have hc : FailsFirst chainParams unreadable c₂ (forked.addIndex acceptEnv c₂) :=
    failsFirst_unreadable (by decide +kernel)
  exact walletsFollow_of_reach (reach_waiting ⟨attaches_a₁,ha⟩ ⟨attaches_c₂,hc⟩)
    (injOn_treeTxs (by decide +kernel))

/-- The reorganisation to the branch whose second block pays out too much: the wallets
hear that the best block is gone and that the first block of the branch is there, and
nothing else after the transaction is aborted. -/
theorem wallets_not_follow : ∃ n n', Reach chainParams genesis.block (fun _ _ _ => True) n ∧
      n.mapBlockIndex[b₂.getBlockHash]? = some b₂ ∧
      Set.InjOn (CTransaction.getHash chainParams) (treeTxs n.mapBlockIndex) ∧
      setBestChain chainParams files b₂ n =
        some (.error ⟨0,"SetBestChain() : Reorganize failed"⟩,n') ∧ ¬ WalletsFollow n' := by
  have hforked : Reach chainParams genesis.block (fun _ _ _ => True) forked :=
    reach_forked trivial
  have hn := reach_addIndex hforked b₂ b₁ (by decide +kernel)
  have hcall : (setBestChain chainParams files b₂ (forked.addIndex acceptEnv b₂)).map (fun r =>
        (r.1,r.2.chain.txdb.readHashBestChain,r.2.mapBlockIndex[a₁.getBlockHash]?,
          decide (replay r.2.chain.syncLog = chainPairs a₁.path))) =
      some (.error ⟨0,"SetBestChain() : Reorganize failed"⟩,some a₁.getBlockHash,some a₁,false) := by
    decide +kernel
  obtain ⟨⟨r,m⟩,hm,hr⟩ := map_eq_some_iff.mp hcall
  simp only [Prod.mk.injEq,decide_eq_false_iff_not] at hr
  obtain ⟨rfl,hrec,hmem,hreplay⟩ := hr
  refine ⟨_,m,hn,by decide +kernel,injOn_treeTxs (by decide +kernel),hm,?_⟩
  rintro ⟨pindex,hmem',hrec',hfollow⟩
  have hhash : pindex.getBlockHash = a₁.getBlockHash := some.inj (hrec'.symm.trans hrec)
  rw [hhash] at hmem'
  obtain rfl := some.inj (hmem'.symm.trans hmem)
  exact hreplay hfollow

end DarkSilk
