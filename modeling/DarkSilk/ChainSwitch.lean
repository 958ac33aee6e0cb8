import DarkSilk.ChainTxids

/-! What a successful call does to the committed chain: back from the old branch to
the fork, forward along the new one, and block by block along the postponed rest. -/
namespace DarkSilk

open BatchStore List Option Function SpendIndex

variable {d : BlockIndexData} {base path l : List BlockIndexData} {s s' : ChainState} {W : World}
  {E : CBlockIndex → World} {tip : Tip}

def entriesOn (base : List BlockIndexData) : List BlockIndexData → List CBlockIndex
  | [] => []
  | d::l => ⟨d,l++base⟩::entriesOn base l

def stackOn : List BlockIndexData → List BlockIndexData → List CBlockIndex
  | _, [] => []
  | base, d::l => ⟨d,base⟩::stackOn (d::base) l

theorem stackOn_concat (base l d) :
    stackOn base (l++[d]) = stackOn base l++[⟨d,l.reverse++base⟩] := by
  induction l generalizing base with
  | nil => rfl
  | cons d' l ih => simp [stackOn,ih]

theorem reverse_entriesOn (base l) :
    (entriesOn base l).reverse = stackOn base l.reverse := by
  induction l with
  | nil => rfl
  | cons d l ih => simp [entriesOn,ih,stackOn_concat]

variable {p pfork : CBlockIndex} {ds : List BlockIndexData}

theorem CBlockIndex.path_inj {q} (h : p.path = q.path) : p = q := by
  rcases p with ⟨d,ds⟩
  rcases q with ⟨d',ds'⟩
  cases h
  rfl

theorem CBlockIndex.path_ne_nil (p : CBlockIndex) : p.path ≠ [] := by simp [path]

theorem descend_suffix (nHeight d ds) :
    (descend nHeight d ds).path <:+ d::ds := by
  induction ds generalizing d with
  | nil => exact suffix_rfl
  | cons d' ds ih =>
    rw [descend]
    split_ifs
    · exact (ih d').trans (suffix_cons d _)
    · exact suffix_rfl

theorem findFork_suffix {plonger} (h : findFork plonger d ds = some pfork) :
    pfork.path <:+ d::ds ∧ pfork.path <:+ plonger.path := by
  induction ds generalizing d plonger with
  | nil =>
    rw [findFork] at h
    split_ifs at h with hc
    cases h
    refine ⟨suffix_rfl,?_⟩
    rcases hc with hc | hc
    · rw [hc]
    · rw [hc]
      exact descend_suffix _ _ _
  | cons d' ds ih =>
    rw [findFork] at h
    dsimp only at h
    split_ifs at h with h1 h2
    · cases h
      exact ⟨suffix_rfl,by rw [h1]⟩
    · cases h
      refine ⟨suffix_rfl,?_⟩
      rw [h2]
      exact descend_suffix _ _ _
    · obtain ⟨h3,h4⟩ := ih h
      exact ⟨h3.trans (suffix_cons d _),h4.trans (descend_suffix _ _ _)⟩

theorem branch_eq
    (h : pfork.path <:+ d::ds) :
    ∃ l, d::ds = l++pfork.path ∧ branch pfork d ds = entriesOn pfork.path l := by
  induction ds generalizing d with
  | nil =>
    have hp : pfork = ⟨d,[]⟩ := by
      rcases suffix_cons_iff.mp h with he | hs
      · exact CBlockIndex.path_inj he
      · exact absurd (suffix_nil.mp hs) pfork.path_ne_nil
    exact ⟨[],by simp [hp,CBlockIndex.path],by simp [branch,hp,entriesOn]⟩
  | cons d' ds ih =>
    by_cases hp : (⟨d,d'::ds⟩ : CBlockIndex) = pfork
    · exact ⟨[],by simp [← hp,CBlockIndex.path],by simp [branch,hp,entriesOn]⟩
    · have hs : pfork.path <:+ d'::ds := by
        rcases suffix_cons_iff.mp h with he | hs
        · exact absurd (CBlockIndex.path_inj he).symm hp
        · exact hs
      obtain ⟨l,hl,hb⟩ := ih hs
      refine ⟨d::l,by rw [hl]; rfl,?_⟩
      rw [branch,if_neg hp,entriesOn,hb,hl]

/-- The two branches of a reorganisation, the one that is left from its newest block on and
the one that is taken from its oldest. -/
theorem findFork_branches {pold pnew : CBlockIndex}
    (h : findFork pnew pold.data pold.ancestors = some pfork) :
    ∃ detached connected, pold.path = detached++pfork.path ∧
      branch pfork pold.data pold.ancestors = entriesOn pfork.path detached ∧
      pnew.path = connected.reverse++pfork.path ∧
      (branch pfork pnew.data pnew.ancestors).reverse = stackOn pfork.path connected := by
  obtain ⟨hold,hnew⟩ := findFork_suffix h
  obtain ⟨detached,hd,hbd⟩ := branch_eq hold
  obtain ⟨l,hl,hbl⟩ := branch_eq (show pfork.path <:+ pnew.data::pnew.ancestors from hnew)
  refine ⟨detached,l.reverse,hd,hbd,?_,?_⟩
  · rw [reverse_reverse]
    exact hl
  · rw [hbl,reverse_entriesOn]

theorem postpone_spec {nTrust acc sec} (h : postpone nTrust d ds acc = (p,sec)) :
    ∃ l, d::ds = l.reverse++p.path ∧ sec = stackOn p.path l++acc := by
  induction ds generalizing d acc with
  | nil =>
    cases h
    exact ⟨[],rfl,rfl⟩
  | cons d' ds ih =>
    rw [postpone] at h
    split_ifs at h
    · obtain ⟨l,hl,hsec⟩ := ih h
      refine ⟨l++[d],by simp [hl],?_⟩
      rw [hsec,stackOn_concat,hl,append_assoc]
      rfl
    · cases h
      exact ⟨[],rfl,rfl⟩

def Linked (pnext : UInt256 → Option CBlockIndex) : List BlockIndexData → Prop
  | d::d'::ds => pnext d'.hashBlock = some ⟨d,d'::ds⟩ ∧ Linked pnext (d'::ds)
  | _ => True

variable {pnext : UInt256 → Option CBlockIndex}

def Distinct (path : List BlockIndexData) : Prop := (path.map BlockIndexData.hashBlock).Nodup

theorem Distinct.suffix {path'} (h : Distinct path) (hs : path' <:+ path) :
    Distinct path' := h.sublist (hs.sublist.map _)

theorem Linked.update {hash} (h : Linked pnext (d::ds)) (target)
    (hn : hash ∉ ds.map BlockIndexData.hashBlock) :
    Linked (update pnext hash target) (d::ds) := by
  induction ds generalizing d with
  | nil => trivial
  | cons d' ds ih =>
    rw [map_cons,mem_cons,not_or] at hn
    refine ⟨?_,ih h.2 hn.2⟩
    rw [update_of_ne (Ne.symm hn.1)]
    exact h.1

theorem linked_disconnect (hbase : base ≠ []) (hd : Distinct (l++base))
    (h : Linked pnext (l++base)) :
    Linked ((entriesOn base l).foldl (setNext fun _ => none) pnext) base := by
  induction l generalizing pnext with
  | nil => exact h
  | cons d l ih =>
    rw [entriesOn,foldl_cons]
    have hd' : Distinct (l++base) := hd.suffix (suffix_cons d _)
    refine ih hd' ?_
    cases hl : l++base with
    | nil => exact absurd (append_eq_nil_iff.mp hl).2 hbase
    | cons d' ds =>
      rw [cons_append,hl] at h
      rw [hl] at hd'
      exact h.2.update _ (nodup_cons.mp hd').1

theorem linked_connect (hbase : base ≠ []) (hd : Distinct (l.reverse++base))
    (h : Linked pnext base) :
    Linked ((stackOn base l).foldl (setNext some) pnext) (l.reverse++base) := by
  induction l generalizing pnext base with
  | nil => exact h
  | cons d l ih =>
    rw [stackOn,foldl_cons,reverse_cons,append_assoc,singleton_append]
    rw [reverse_cons,append_assoc,singleton_append] at hd
    refine ih (by simp) hd ?_
    cases base with
    | nil => exact absurd rfl hbase
    | cons d' ds =>
      have hd' : Distinct (d'::ds) := hd.suffix ((suffix_cons d _).trans (suffix_append _ _))
      exact ⟨update_self _ _ _,h.update _ (nodup_cons.mp hd').1⟩

variable (P : Params)

/-- The records are those that connecting the blocks above the first one gives, and
these blocks passed the block check. -/
structure Applied (idx : TxIndex) (path : List BlockIndexData) : Prop where
  index : SpendIndex.connectAll .setNull (pathEntries P path) SpendIndex.empty = some idx
  checked : ∀ d ds, d::ds <:+ path → ds ≠ [] → d.block.Checked P

/-- What keeps the ids of a path apart: the heights, and a hash without collisions on it. -/
structure Sound (path : List BlockIndexData) : Prop where
  height : ∀ d ds, d::ds <:+ path → ds ≠ [] → HeightRule d.block ds.length
  inj : Set.InjOn (CTransaction.getHash P) { tx | tx ∈ pathTxs path }

variable {P} {idx : TxIndex}

theorem Sound.suffix {path'} (h : Sound P path) (hs : path' <:+ path) : Sound P path' := by
  refine ⟨fun d ds hd => h.height d ds (hd.trans hs),h.inj.mono fun tx htx => ?_⟩
  exact mem_pathTxs_of_suffix hs htx

theorem Applied.txids_nodup (h : Applied P idx path) (hs : Sound P path) :
    ((pathEntries P path).map Entry.id).Nodup :=
  pathTxids_nodup (fun d ds hd hne => ⟨h.checked d ds hd hne,hs.height d ds hd hne⟩) hs.inj h.index

theorem Applied.tracks (h : Applied P idx path) (hs : Sound P path) :
    Tracks .setNull (pathEntries P path) idx :=
  tracks_connectAll (fun _ he => pos_ne_null_of_mem_pathEntries he) (h.txids_nodup hs) h.index

theorem Applied.connect (h : Applied P s.txdb.txView base) (hbase : base ≠ [])
    (hc : connectBlock P W tip ⟨d,base⟩ d.block false s = (.ok (),s')) :
    Applied P s'.txdb.txView (d::base) := by
  refine ⟨?_,fun d' ds hs hne => ?_⟩
  · rw [pathEntries_cons d hbase,connectAll_append,h.index,bind_some]
    exact connectBlock_entries hc
  · rcases suffix_cons_iff.mp hs with he | hs
    · cases he
      exact connectBlock_checked hc
    · exact h.checked d' ds hs hne

theorem Applied.disconnect (h : Applied P s.txdb.txView (d::base)) (hbase : base ≠ [])
    (hs : Sound P (d::base)) (hc : disconnectBlock P ⟨d,base⟩ d.block s = (.ok (),s')) :
    Applied P s'.txdb.txView base := by
  have hchk : ∀ d' ds, d'::ds <:+ base → ds ≠ [] → d'.block.Checked P :=
    fun d' ds hd => h.checked d' ds (hd.trans (suffix_cons d base))
  have hids := h.txids_nodup hs
  have hindex := h.index
  rw [pathEntries_cons d hbase,map_append,nodup_append] at hids
  rw [pathEntries_cons d hbase,connectAll_append] at hindex
  obtain ⟨i,hi,hblock⟩ := bind_eq_some_iff.mp hindex
  have htracks := tracks_connectAll (fun _ he => pos_ne_null_of_mem_pathEntries he) hids.1 hi
  have hfresh : ∀ e ∈ blockEntries P d d.block, i e.id = none := by
    intro e he
    refine htracks.eq_none fun hmem => ?_
    exact hids.2.2 _ hmem _ (mem_map_of_mem he) rfl
  have hback := disconnectAll_connectAll (fun _ he => pos_ne_null_of_mem_blockEntries P he)
    hids.2.1 hfresh hblock
  obtain ⟨s'',hs'',hview⟩ := (disconnectBlock_entries P ⟨d,base⟩ d.block s i).mp hback
  rw [hc] at hs''
  cases hs''
  exact ⟨hview ▸ hi,hchk⟩

def blockEvents (fConnect : Bool) (d : BlockIndexData) : List SyncEvent :=
  d.block.vtx.map fun tx => ⟨tx,some d.block,fConnect⟩

def blocksTxs (l : List BlockIndexData) : List CTransaction := l.flatMap fun d => d.block.vtx

theorem blocksTxs_cons (d l) :
    blocksTxs (d::l) = d.block.vtx++blocksTxs l := flatMap_cons

variable {tx : CTransaction}

theorem mem_blocksTxs_reverse :
    tx ∈ blocksTxs l.reverse ↔ tx ∈ blocksTxs l := by simp [blocksTxs]

theorem pathTxs_append (hbase : base ≠ []) :
    pathTxs (l++base) = pathTxs base++blocksTxs l.reverse := by
  induction l with
  | nil => simp [blocksTxs]
  | cons d l ih =>
    have hne : l++base ≠ [] := fun he => hbase (append_eq_nil_iff.mp he).2
    rw [cons_append,pathTxs_cons d hne,ih]
    simp [blocksTxs]

theorem mem_pathTxs_append (hbase : base ≠ []) :
    tx ∈ pathTxs (l++base) ↔ tx ∈ blocksTxs l ∨ tx ∈ pathTxs base := by
  rw [pathTxs_append hbase,mem_append,or_comm,mem_blocksTxs_reverse]

theorem readFromDisk_eq_some {pindex b} (h : readFromDisk P W pindex = some b) :
    b = pindex.data.block ∧ b.getHash P = pindex.getBlockHash := by
  unfold readFromDisk at h
  dsimp only at h
  split_ifs at h with hc
  cases h
  simp only [Bool.and_eq_true,decide_eq_true_eq] at hc
  exact ⟨rfl,hc.2⟩

theorem disconnectBranch_ok {acc vResurrect} (hbase : base ≠ [])
    (ha : Applied P s.txdb.txView (l++base))
    (hs : Sound P (l++base))
    (h : disconnectBranch P E (entriesOn base l) acc s = (.ok vResurrect,s')) :
    Applied P s'.txdb.txView base ∧ s'.syncLog = s.syncLog++l.flatMap (blockEvents false) ∧
      ∀ tx ∈ vResurrect, tx ∈ acc ∨ tx ∈ blocksTxs l := by
  induction l generalizing acc s with
  | nil =>
    obtain ⟨hr,rfl⟩ := Prod.mk.inj h
    rw [Except.ok.injEq] at hr
    exact ⟨ha,by simp,fun tx htx => .inl (hr ▸ htx)⟩
  | cons d l ih =>
    rw [entriesOn,disconnectBranch] at h
    split at h
    · cases h
    · rename_i b hb
      obtain ⟨rfl,-⟩ := readFromDisk_eq_some hb
      split at h
      · cases h
      · rename_i m hm
        have hne : l++base ≠ [] := fun he => hbase (append_eq_nil_iff.mp he).2
        obtain ⟨h1,h2,h3⟩ := ih (ha.disconnect hne hs hm) (hs.suffix (suffix_cons d _)) h
        refine ⟨h1,?_,fun tx htx => ?_⟩
        · rw [h2,disconnectBlock_syncLog hm,flatMap_cons,append_assoc]
          rfl
        · rw [blocksTxs_cons,mem_append]
          rcases h3 tx htx with hacc | hl
          · rcases mem_append.mp hacc with hf | hacc
            · exact .inr (.inl (mem_of_mem_filter hf))
            · exact .inl hacc
          · exact .inr (.inr hl)

theorem connectBranch_ok {acc vDelete} (hbase : base ≠ []) (ha : Applied P s.txdb.txView base)
    (h : connectBranch P E tip (stackOn base l) acc s = (.ok vDelete,s')) :
    Applied P s'.txdb.txView (l.reverse++base) ∧
      s'.syncLog = s.syncLog++l.flatMap (blockEvents true) ∧
      vDelete = acc++blocksTxs l := by
  induction l generalizing acc s base with
  | nil =>
    obtain ⟨hr,rfl⟩ := Prod.mk.inj h
    rw [Except.ok.injEq] at hr
    exact ⟨ha,by simp,by simp [blocksTxs,hr]⟩
  | cons d l ih =>
    rw [stackOn,connectBranch] at h
    split at h
    · cases h
    · rename_i b hb
      obtain ⟨rfl,-⟩ := readFromDisk_eq_some hb
      split at h
      · cases h
      · rename_i m hm
        obtain ⟨h1,h2,h3⟩ := ih (by simp) (ha.connect hbase hm) h
        obtain ⟨-,-,-,-,hlog⟩ := connectBlock_ok hm
        refine ⟨by simpa using h1,?_,by simp [h3,blocksTxs]⟩
        rw [h2,hlog,flatMap_cons,append_assoc]
        rfl

theorem resurrect_syncLog (P W tip) (db : CTxDB) (v x) :
    ∃ r, (resurrect P W tip db v x).2 = x.2++r ∧ ∀ e ∈ r, e.pblock = none := by
  induction v generalizing x with
  | nil => exact ⟨[],by simp [resurrect],by simp⟩
  | cons tx v ih =>
    rw [resurrect]
    split
    · exact ih x
    · rename_i pool hpool
      obtain ⟨r,hr,hn⟩ := ih (pool,x.2++[⟨tx,none,true⟩])
      refine ⟨⟨tx,none,true⟩::r,by simp [hr],?_⟩
      exact forall_mem_cons.mpr ⟨rfl,hn⟩

/-- The database and the pointers stand for a path: nothing is open, the record of
the best chain names its head, and records and successors are those of the path. -/
structure Committed (P : Params) (s : ChainState) (path : List BlockIndexData) : Prop where
  idle : s.txdb.activeBatch = none
  record : s.txdb.pdb .hashBestChain = (path.head?).map BlockIndexData.hashBlock
  applied : Applied P (txPart s.txdb.pdb) path
  linked : Linked s.pnext path

variable {n n' : Node}

variable {all : Bool} {pindexNew : CBlockIndex}

theorem Committed.readHashBestChain (h : Committed P s path) :
    s.txdb.readHashBestChain = (path.head?).map BlockIndexData.hashBlock := by
  rw [CTxDB.readHashBestChain,TxDB.read_eq_view,TxDB.view_of_idle h.idle,h.record]

theorem Committed.applied_readTxIndex (h : Committed P s path) :
    Applied P s.txdb.readTxIndex path := by
  have hread : s.txdb.readTxIndex = txPart s.txdb.pdb := by
    funext i
    rw [CTxDB.readTxIndex_eq,CTxDB.txView,TxDB.view_of_idle h.idle]
  rw [hread]
  exact h.applied

theorem Committed.of_untouched (h : Committed P n.chain path) (hu : Untouched n n')
    (hidle : n'.chain.txdb.activeBatch = none) : Committed P n'.chain path := by
  have htx : txPart n'.chain.txdb.pdb = txPart n.chain.txdb.pdb := funext fun _ => hu.pdb _ (by simp)
  refine ⟨hidle,(hu.pdb _ (by simp)).trans h.record,htx ▸ h.applied,?_⟩
  rw [hu.pnext]
  exact h.linked

theorem view_writeHashBestChain (db : CTxDB) (hash) :
    (db.writeHashBestChain hash).view .hashBestChain = some hash := by
  rw [CTxDB.writeHashBestChain,TxDB.view_write]
  exact update_self _ _ _

theorem txPart_commit (db : CTxDB) (hash) :
    txPart ((db.writeHashBestChain hash).txnCommit true).pdb = db.txView := by
  rw [TxDB.pdb_txnCommit_true]
  exact CTxDB.txView_writeHashBestChain db hash

/-- An attached block is one more on the committed path; its transactions leave the pool. -/
theorem setBestChainInner_ok (hbase : base ≠ []) (hn : Committed P n.chain base)
    (hhash : d.block.getHash P = d.hashBlock) (hdist : Distinct base)
    (h : setBestChainInner P W tip d.block ⟨d,base⟩ (n.withDb n.chain.txdb.txnBegin) =
      some (.ok (),n')) :
    Committed P n'.chain (d::base) ∧ n' = { n with chain := n'.chain, mempool := n'.mempool } ∧
      n'.mempool = d.block.vtx.foldl (CTxMemPool.remove P) n.mempool ∧
      n'.chain.syncLog = n.chain.syncLog++blockEvents true d := by
  unfold setBestChainInner at h
  split at h
  · obtain ⟨m,-,h⟩ := map_eq_some_iff.mp h
    cases h
  · rename_i s hs
    obtain ⟨-,-,-,-,hlog⟩ := connectBlock_ok hs
    have hnext := (connectBlock_frame P W tip ⟨d,base⟩ d.block (n.withDb n.chain.txdb.txnBegin).chain).2
    rw [hs] at hnext
    have hview : Applied P s.txdb.txView (d::base) :=
      Applied.connect (s := (n.withDb n.chain.txdb.txnBegin).chain) hn.applied hbase hs
    cases hok : W.commitOk with
    | false => simp [hok] at h
    | true =>
      rw [hok] at h
      cases base with
      | nil => exact absurd rfl hbase
      | cons d' ds =>
        cases h
        refine ⟨⟨rfl,?_,?_,?_⟩,rfl,rfl,hlog⟩
        · change TxDB.view _ _ = _
          rw [view_writeHashBestChain,hhash]
          rfl
        · rw [txPart_commit]
          exact hview
        · have hlinked := hn.linked.update (some ⟨d,d'::ds⟩) (nodup_cons.mp hdist).1
          rw [hnext]
          exact ⟨update_self _ _ _,hlinked⟩

/-- The loop over the postponed blocks attaches a first part of them, all if it
goes through. -/
theorem attachPostponed_ok (hbase : base ≠ []) (hn : Committed P n.chain base)
    (hdist : Distinct (l.reverse++base)) (h : attachPostponed P E tip (stackOn base l) n = some (all,n')) :
    ∃ l₁ l₂, l = l₁++l₂ ∧ Committed P n'.chain (l₁.reverse++base) ∧ (all ↔ l₂ = []) ∧
      n' = { n with chain := n'.chain, mempool := n'.mempool, nBestInvalidTrust := n'.nBestInvalidTrust } ∧
      n'.mempool = (blocksTxs l₁).foldl (CTxMemPool.remove P) n.mempool ∧
      (all → n'.chain.syncLog = n.chain.syncLog++l₁.flatMap (blockEvents true)) := by
  induction l generalizing n base with
  | nil =>
    cases h
    exact ⟨[],[],rfl,hn,by simp,rfl,rfl,by simp⟩
  | cons d l ih =>
    rw [stackOn,attachPostponed] at h
    rw [reverse_cons,append_assoc,singleton_append] at hdist
    have hdist' : Distinct base := hdist.suffix ((suffix_cons d _).trans (suffix_append _ _))
    split at h
    · cases h
      exact ⟨[],d::l,rfl,hn,by simp,rfl,rfl,by simp⟩
    · rename_i b hb
      obtain ⟨rfl,hhash⟩ := readFromDisk_eq_some hb
      split at h
      · cases h
      · rename_i e m hm
        cases h
        obtain ⟨hu,hidle⟩ := setBestChainInner_error rfl hm
        have hbegin : Untouched n (n.withDb n.chain.txdb.txnBegin) := untouched_withDb rfl
        have hu' := hbegin.trans hu
        exact ⟨[],d::l,rfl,hn.of_untouched hu' hidle,
          by simp,by rw [hu'.globals],by rw [hu'.globals]; rfl,by simp⟩
      · rename_i m hm
        obtain ⟨h1,h2,h3,h4⟩ := setBestChainInner_ok hbase hn hhash hdist' hm
        obtain ⟨l₁,l₂,rfl,h5,h6,h7,h8,h9⟩ := ih (by simp) h1 hdist h
        refine ⟨d::l₁,l₂,rfl,by simpa using h5,h6,by rw [h7,h2],?_,fun hall => ?_⟩
        · rw [h8,h3,blocksTxs_cons,foldl_append]
        · rw [h9 hall,h4,flatMap_cons,append_assoc]

/-- What happens to the pool: the transactions of the blocks that were left are
offered to it, those of the branch that was taken go with their conflicts, and those
of the blocks attached afterwards go alone. -/
def PoolMoved (P : Params) (tip : Tip) (detached connected attached common : List BlockIndexData)
    (pool pool' : CTxMemPool) : Prop :=
  ∃ W db vResurrect log mid, db.activeBatch = none ∧ Applied P db.txView (connected.reverse++common) ∧
    (∀ tx ∈ vResurrect, tx ∈ blocksTxs detached) ∧
    deleteRedundant P (blocksTxs connected) (resurrect P W tip db vResurrect (pool,log)).1 = some mid ∧
    pool' = (blocksTxs attached).foldl (CTxMemPool.remove P) mid

/-- The block that a call switches to in one database transaction. An extension
switches nothing, and attaches the new block to the best one. -/
def switchTarget (n : Node) (tip : Tip) (pindexNew : CBlockIndex) : CBlockIndex :=
  if pindexNew.data.block.hashPrevBlock = n.hashBestChain then tip.pindexBest
  else (postpone tip.pindexBest.nChainTrust pindexNew.data pindexNew.ancestors []).1

/-- A call that goes through: the blocks it leaves, the fork, and, the oldest first,
the blocks it takes in one transaction, attaches one by one, and does not reach. -/
structure Moved (P : Params) (tip : Tip) (target pindexNew : CBlockIndex) (n n' : Node) (all : Bool)
    (detached common connected attached left : List BlockIndexData) : Prop where
  old : tip.pindexBest.path = detached++common
  mid : target.path = connected.reverse++common
  new : pindexNew.path = left.reverse++(attached.reverse++(connected.reverse++common))
  common_ne : common ≠ []
  committed : Committed P n'.chain (attached.reverse++(connected.reverse++common))
  finished : all = true ↔ left = []
  globals : n' = { n with chain := n'.chain, mempool := n'.mempool, nBestInvalidTrust := n'.nBestInvalidTrust }
  log : all = true → ∃ r, (∀ e ∈ r, e.pblock = none) ∧
    n'.chain.syncLog = n.chain.syncLog++(detached.flatMap (blockEvents false)++
      (connected.flatMap (blockEvents true)++(r++attached.flatMap (blockEvents true))))
  pool : PoolMoved P tip detached connected attached common n.mempool n'.mempool

theorem reorganize_ok (hn : Committed P n.chain tip.pindexBest.path)
    (hs : Sound P tip.pindexBest.path) (hdist : Distinct tip.pindexBest.path)
    (hdist' : Distinct pindexNew.path)
    (h : reorganize P E tip pindexNew (n.withDb n.chain.txdb.txnBegin) = some (.ok (),n')) :
    ∃ detached common connected, Moved P tip pindexNew pindexNew n n' true detached common connected
      [] [] := by
  unfold reorganize at h
  split at h
  · cases h
  · rename_i pfork hfork
    obtain ⟨detached,connected,hold',hbd,hnew',hbl⟩ := findFork_branches hfork
    have hne := pfork.path_ne_nil
    dsimp only at h
    rw [hbd,hbl] at h
    rw [hold'] at hn hs hdist
    rw [hnew'] at hdist'
    obtain ⟨-,hnext⟩ := disconnectBranch_frame P E (entriesOn pfork.path detached) []
      (n.withDb n.chain.txdb.txnBegin).chain
    split at h <;> rename_i v s hdis <;> rw [hdis] at hnext
    · cases h
    · obtain ⟨ha,hlog,hres⟩ := disconnectBranch_ok (s := (n.withDb n.chain.txdb.txnBegin).chain) hne
        hn.applied hs hdis
      obtain ⟨-,hnext'⟩ := connectBranch_frame P E tip (stackOn pfork.path connected) [] s
      split at h <;> rename_i v' s' hcon <;> rw [hcon] at hnext'
      · cases h
      · obtain ⟨ha',hlog',rfl⟩ := connectBranch_ok hne ha hcon
        split_ifs at h with hok
        · rw [hok] at h
          obtain ⟨pool,hpool,h⟩ := map_eq_some_iff.mp h
          cases h
          obtain ⟨r,hr,hrn⟩ := resurrect_syncLog P (E pindexNew) tip
            ((s'.txdb.writeHashBestChain pindexNew.getBlockHash).txnCommit true) v (n.mempool,s'.syncLog)
          refine ⟨detached,pfork.path,connected,hold',hnew',by simpa using hnew',hne,⟨rfl,?_,?_,?_⟩,by simp,rfl,
            fun _ => ⟨r,hrn,?_⟩,?_⟩
          · change TxDB.view _ _ = _
            rw [view_writeHashBestChain,reverse_nil,nil_append,← hnew']
            rfl
          · rw [txPart_commit]
            simpa using ha'
          · change Linked (foldl _ (foldl _ s'.pnext _) _) _
            rw [hnext',hnext]
            exact linked_connect hne hdist' (linked_disconnect hne hdist hn.linked)
          · change (resurrect P _ tip _ v (n.mempool,s'.syncLog)).2 = _
            rw [hr,hlog',hlog]
            simp [Node.withDb]
          · refine ⟨E pindexNew,_,v,s'.syncLog,pool,rfl,?_,fun tx htx => ?_,hpool,rfl⟩
            · have hcommit := txPart_commit s'.txdb pindexNew.getBlockHash
              rw [CTxDB.txView,TxDB.view_of_idle rfl,hcommit]
              exact ha'
            · simpa using hres tx htx
        · cases h

theorem ancestors_ne_nil_of_setBestChainInner {b}
    (h : setBestChainInner P W tip b pindexNew n = some (.ok (),n')) :
    pindexNew.ancestors ≠ [] := by
  intro hnil
  have hprev : pindexNew.pprev = none := by simp [CBlockIndex.pprev,hnil]
  unfold setBestChainInner at h
  split at h
  · obtain ⟨m,-,h⟩ := map_eq_some_iff.mp h
    cases h
  · split_ifs at h
    · simp [hprev] at h
    · cases h

/-- A call for a block on the best one leaves nothing and attaches that block. -/
theorem switchChain_extended (htip : n.tip = some tip)
    (hn : Committed P n.chain tip.pindexBest.path) (hdist : Distinct tip.pindexBest.path)
    (hfirst : n.pindexGenesisBlock ≠ none)
    (hhash : pindexNew.data.block.getHash P = pindexNew.getBlockHash)
    (hext : pindexNew.data.block.hashPrevBlock = n.hashBestChain)
    (hprev : pindexNew.ancestors ≠ [] → pindexNew.ancestors = tip.pindexBest.path)
    (h : switchChain P E pindexNew n = some (.ok all,n')) :
    Moved P tip (switchTarget n tip pindexNew) pindexNew n n' all [] tip.pindexBest.path []
      [pindexNew.data] [] := by
  obtain ⟨-,h⟩ := switchChain_cases h
  cases h with
  | first hnone => exact absurd hnone hfirst
  | extended htip' _ hinner =>
    obtain rfl : tip = _ := some.inj (htip.symm.trans htip')
    have hne := ancestors_ne_nil_of_setBestChainInner hinner
    obtain ⟨d,ds⟩ := pindexNew
    obtain rfl : ds = _ := hprev hne
    obtain ⟨h1,h2,h3,h4⟩ := setBestChainInner_ok tip.pindexBest.path_ne_nil hn hhash hdist hinner
    refine ⟨rfl,?_,rfl,tip.pindexBest.path_ne_nil,h1,by simp,by rw [h2],
      fun _ => ⟨[],by simp,by simpa using h4⟩,?_⟩
    · rw [switchTarget,if_pos hext]
      rfl
    · refine ⟨E ⟨d,tip.pindexBest.path⟩,n.chain.txdb,[],[],n.mempool,hn.idle,?_,by simp,rfl,?_⟩
      · rw [CTxDB.txView,TxDB.view_of_idle hn.idle]
        exact hn.applied
      · rw [h3,blocksTxs_cons]
        simp [blocksTxs]
  | reorganized _ hne => exact absurd hext hne

/-- Whichever way a call on a committed chain goes through, it is one move. -/
theorem switchChain_moved (htip : n.tip = some tip)
    (hn : Committed P n.chain tip.pindexBest.path) (hs : Sound P tip.pindexBest.path)
    (hdist : Distinct pindexNew.path) (hdist' : Distinct tip.pindexBest.path)
    (hfirst : n.pindexGenesisBlock ≠ none) (hhash : pindexNew.data.block.getHash P = pindexNew.getBlockHash)
    (hprev : pindexNew.data.block.hashPrevBlock = n.hashBestChain → pindexNew.ancestors ≠ [] →
      pindexNew.ancestors = tip.pindexBest.path)
    (h : switchChain P E pindexNew n = some (.ok all,n')) :
    ∃ detached common connected attached left,
      Moved P tip (switchTarget n tip pindexNew) pindexNew n n' all detached common connected attached left := by
  obtain ⟨-,hc⟩ := switchChain_cases h
  cases hc with
  | first hnone => exact absurd hnone hfirst
  | extended _ hext _ =>
    exact ⟨_,_,_,_,_,switchChain_extended htip hn hdist' hfirst hhash hext (hprev hext) h⟩
  | reorganized htip' hext hre hattach =>
    obtain rfl : tip = _ := some.inj (htip.symm.trans htip')
    obtain ⟨l,hl,hsec⟩ := postpone_spec
      (p := (postpone tip.pindexBest.nChainTrust pindexNew.data pindexNew.ancestors []).1) rfl
    rw [hsec,append_nil] at hattach
    have htarget : switchTarget n tip pindexNew =
        (postpone tip.pindexBest.nChainTrust pindexNew.data pindexNew.ancestors []).1 := if_neg hext
    rw [htarget]
    generalize (postpone tip.pindexBest.nChainTrust pindexNew.data pindexNew.ancestors []).1 = mid
      at hl hre hattach
    have hpath : pindexNew.path = l.reverse++mid.path := hl
    rw [hpath] at hdist
    obtain ⟨detached,common,connected,hm⟩ := reorganize_ok hn hs hdist'
      (hdist.suffix (suffix_append _ _)) hre
    have hmid : mid.path = connected.reverse++common := hm.new
    have hcomm := hm.committed
    rw [reverse_nil,nil_append,← hmid] at hcomm
    obtain ⟨l₁,l₂,rfl,h1,h2,h3,h4,h5⟩ := attachPostponed_ok mid.path_ne_nil hcomm hdist hattach
    obtain ⟨W,db,vR,log,pool,hdb,happ,hvR,hdel,hpool⟩ := hm.pool
    refine ⟨detached,common,connected,l₁,l₂,hm.old,hmid,?_,hm.common_ne,hmid ▸ h1,h2,?_,fun hall => ?_,?_⟩
    · rw [hpath,hmid,reverse_append,append_assoc]
    · rw [h3,hm.globals]
    · obtain ⟨r,hr,hlog⟩ := hm.log rfl
      refine ⟨r,hr,?_⟩
      rw [h5 hall,hlog]
      simp
    · refine ⟨W,db,vR,log,pool,hdb,happ,hvR,hdel,?_⟩
      rw [h4,hpool]
      simp [blocksTxs]

end DarkSilk
