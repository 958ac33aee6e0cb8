import DarkSilk.ChainSwitch

/-! Runs of the node: blocks enter the index, and SetBestChain is called for entries of
the index. As long as no postponed block fails, the node, the database and the
wallets follow one chain. -/
namespace DarkSilk

open BatchStore List Option CTransaction

variable {P : Params} {gen : CBlock} {good : (CBlockIndex → World) → CBlockIndex → Node → Prop} {E : CBlockIndex → World}
  {n n' : Node} {pindexNew : CBlockIndex}

/-- The block index is a tree on the genesis block, keyed by the block hashes. -/
structure Tree (P : Params) (gen : CBlock) (m : HashMap CBlockIndex) : Prop where
  key : ∀ (h : UInt256) (p : CBlockIndex), m[h]? = some p → p.getBlockHash = h
  hash : ∀ (h : UInt256) (p : CBlockIndex), m[h]? = some p → p.data.block.getHash P = h
  parent : ∀ (h : UInt256) (p : CBlockIndex), m[h]? = some p → ∀ d ds, p.ancestors = d::ds →
    m[d.hashBlock]? = some ⟨d,ds⟩ ∧ p.data.block.hashPrevBlock = d.hashBlock
  root : ∀ (h : UInt256) (p : CBlockIndex), m[h]? = some p → p.ancestors = [] → p.data.block = gen
  height : ∀ (h : UInt256) (p : CBlockIndex), m[h]? = some p → p.ancestors ≠ [] →
    HeightRule p.data.block p.ancestors.length

def treeTxs (m : HashMap CBlockIndex) : Set CTransaction :=
  { tx | ∃ (h : UInt256) (p : CBlockIndex), m[h]? = some p ∧ tx ∈ p.data.block.vtx }

variable {m : HashMap CBlockIndex} {p : CBlockIndex} {h : UInt256}

theorem Tree.mem_of_suffix (ht : Tree P gen m) (hp : m[h]? = some p) {d ds}
    (hs : d::ds <:+ p.path) : m[d.hashBlock]? = some ⟨d,ds⟩ := by
  obtain ⟨e,es⟩ := p
  induction es generalizing e h with
  | nil =>
    rcases suffix_cons_iff.mp hs with he | hs
    · cases he
      rw [← ht.key h _ hp] at hp
      exact hp
    · cases suffix_nil.mp hs
  | cons e' es ih =>
    rcases suffix_cons_iff.mp hs with he | hs
    · cases he
      rw [← ht.key h _ hp] at hp
      exact hp
    · exact ih e' (ht.parent h _ hp e' es rfl).1 hs

open CBlockIndex

theorem Tree.distinct (ht : Tree P gen m) (hp : m[h]? = some p) : Distinct p.path := by
  have hall : ∀ l, l <:+ p.path → Distinct l := by
    intro l
    induction l with
    | nil => exact fun _ => nodup_nil
    | cons d ds ih =>
      intro hs
      refine nodup_cons.mpr ⟨fun hmem => ?_,ih ((suffix_cons d ds).trans hs)⟩
      -- a second block of the same hash would be the same entry, with a shorter path
      obtain ⟨d',hd',hhash⟩ := mem_map.mp hmem
      obtain ⟨l₁,l₂,rfl⟩ := append_of_mem hd'
      have h1 := ht.mem_of_suffix hp hs
      have h2 := ht.mem_of_suffix hp (((suffix_append l₁ (d'::l₂)).trans (suffix_cons d _)).trans hs)
      rw [hhash,h1,some.injEq,CBlockIndex.mk.injEq] at h2
      have hlen := congrArg length h2.2
      simp only [length_append,length_cons] at hlen
      omega
  exact hall _ suffix_rfl

theorem Tree.mem_treeTxs (ht : Tree P gen m) (hp : m[h]? = some p) {tx}
    (htx : tx ∈ pathTxs p.path) : tx ∈ treeTxs m := by
  obtain ⟨d,ds,hs,-,htx⟩ := mem_pathTxs.mp htx
  exact ⟨_,_,ht.mem_of_suffix hp hs,htx⟩

theorem Tree.sound (ht : Tree P gen m) (hinj : Set.InjOn (getHash P) (treeTxs m))
    (hp : m[h]? = some p) : Sound P p.path :=
  ⟨fun _ _ hs hne => ht.height _ _ (ht.mem_of_suffix hp hs) hne,hinj.mono fun _ htx => ht.mem_treeTxs hp htx⟩

theorem Tree.getLast_block (ht : Tree P gen m) (hp : m[h]? = some p) :
    (p.path.getLast p.path_ne_nil).block = gen := by
  have hs : [p.path.getLast p.path_ne_nil] <:+ p.path := by
    rw [suffix_iff_exists_eq_append]
    exact ⟨p.path.dropLast,(dropLast_append_getLast p.path_ne_nil).symm⟩
  exact ht.root _ _ (ht.mem_of_suffix hp hs) rfl

theorem Tree.insert (ht : Tree P gen m) {A tip b pindexPrev hashProof slot}
    (hacc : acceptChecks P A tip b m = .ok (pindexPrev,hashProof)) :
    Tree P gen (m.insert (b.getHash P) (newIndex P b slot hashProof m)) := by
  obtain ⟨hnew,hprev,hheight⟩ := acceptChecks_spec hacc
  have hpath : (newIndex P b slot hashProof m).ancestors = pindexPrev.path := by simp [newIndex,hprev]
  have hlookup : ∀ (h : UInt256) (p : CBlockIndex),
      (m.insert (b.getHash P) (newIndex P b slot hashProof m))[h]? = some p →
        (h = b.getHash P ∧ p = newIndex P b slot hashProof m) ∨ m[h]? = some p := by
    intro h p hp
    rw [getElem?_insert] at hp
    split_ifs at hp with hh
    · exact .inl ⟨hh.symm,(some.inj hp).symm⟩
    · exact .inr hp
  have hkeep : ∀ (h : UInt256) (p : CBlockIndex), m[h]? = some p →
      (m.insert (b.getHash P) (newIndex P b slot hashProof m))[h]? = some p := by
    intro h p hp
    rw [getElem?_insert,if_neg]
    · exact hp
    · rintro rfl
      rw [hnew] at hp
      cases hp
  refine ⟨fun h p hp => ?_,fun h p hp => ?_,fun h p hp d ds hd => ?_,fun h p hp hnil => ?_,
    fun h p hp hne => ?_⟩ <;>
    rcases hlookup h p hp with ⟨rfl,rfl⟩ | hp
  · rfl
  · exact ht.key h p hp
  · rfl
  · exact ht.hash h p hp
  · rw [hpath] at hd
    cases hd
    have hkey := ht.key _ _ hprev
    refine ⟨hkeep _ _ ?_,hkey.symm⟩
    rw [← hkey] at hprev
    exact hprev
  · obtain ⟨h1,h2⟩ := ht.parent h p hp d ds hd
    exact ⟨hkeep _ _ h1,h2⟩
  · exact absurd (hpath.symm.trans hnil) pindexPrev.path_ne_nil
  · exact ht.root h p hp hnil
  · rw [hpath]
    exact hheight
  · exact ht.height h p hp hne

/-- The tip in memory is what is connected: the database record names it, the
transaction records are those of connecting exactly the blocks of its path, and every
block on the path is the successor of its predecessor. -/
def TipConnected (P : Params) (n : Node) : Prop :=
  ∃ tip, n.tip = some tip ∧ n.hashBestChain = tip.pindexBest.getBlockHash ∧
    Committed P n.chain tip.pindexBest.path

/-- No postponed block fails in the call: the loop over them, if the call gets there,
goes through to its end. -/
def Attaches (P : Params) (E : CBlockIndex → World) (pindexNew : CBlockIndex) (n : Node) : Prop :=
  (switchChain P E pindexNew n).map Prod.fst ≠ some (.ok false)

instance (P : Params) (E : CBlockIndex → World) (pindexNew : CBlockIndex) (n : Node) :
    Decidable (Attaches P E pindexNew n) := inferInstanceAs (Decidable (_ ≠ _))

structure Synced (P : Params) (gen : CBlock) (n : Node) : Prop where
  tree : Tree P gen n.mapBlockIndex
  first : n.pindexGenesisBlock ≠ none
  best : ∃ tip, n.tip = some tip ∧ n.mapBlockIndex[tip.pindexBest.getBlockHash]? = some tip.pindexBest ∧
    n.hashBestChain = tip.pindexBest.getBlockHash ∧ Committed P n.chain tip.pindexBest.path

/-- The states that a node reaches: the genesis block is added to an empty index, and
then blocks are accepted into the index and SetBestChain is called for indexed blocks,
with any outcome, as long as the calls are good. -/
inductive Reach (P : Params) (gen : CBlock)
    (good : (CBlockIndex → World) → CBlockIndex → Node → Prop) :
    Node → Prop
  | start {A : AcceptEnv} {slot : { p : UInt32 × UInt32 // p.1 ≠ 0xFFFFFFFF }} {hashProof : UInt256} {n : Node}
      (hgen : gen.getHash P = P.hashGenesisBlock)
      (h : addToBlockIndex P A gen slot hashProof .empty = some (.ok (),n)) (htip : n.tip.isSome) :
      Reach P gen good n
  | index {n : Node} {A : AcceptEnv} {tip : Tip} {b : CBlock} {pindexPrev : CBlockIndex} {hashProof : UInt256}
      {slot : { p : UInt32 × UInt32 // p.1 ≠ 0xFFFFFFFF }} (hn : Reach P gen good n) (htip : n.tip = some tip)
      (hacc : acceptChecks P A tip b n.mapBlockIndex = .ok (pindexPrev,hashProof)) :
      Reach P gen good (n.addIndex A (newIndex P b slot hashProof n.mapBlockIndex))
  | best {n n' : Node} {E : CBlockIndex → World} {pindexNew : CBlockIndex} {r : Except Reject Unit}
      (hn : Reach P gen good n) (hmem : n.mapBlockIndex[pindexNew.getBlockHash]? = some pindexNew)
      (h : setBestChain P E pindexNew n = some (r,n')) (hgood : good E pindexNew n) : Reach P gen good n'

theorem Attaches.eq_true (h : Attaches P E pindexNew n) {all}
    (hs : switchChain P E pindexNew n = some (.ok all,n')) : all := by
  cases all with
  | true => rfl
  | false => exact absurd (by rw [hs]; rfl) h

variable {tip : Tip} {A : AcceptEnv} {b : CBlock} {pindexPrev : CBlockIndex} {hashProof : UInt256}
  {slot :
  {p : UInt32 × UInt32 // p.1 ≠ 0xFFFFFFFF} }

theorem Synced.ancestors_eq (hn : Synced P gen n) (htip : n.tip = some tip)
    (hmem : n.mapBlockIndex[pindexNew.getBlockHash]? = some pindexNew)
    (hprev : pindexNew.data.block.hashPrevBlock = n.hashBestChain)
    (hne : pindexNew.ancestors ≠ []) :
    pindexNew.ancestors = tip.pindexBest.path := by
  obtain ⟨tip',htip',htree,hhash,-⟩ := hn.best
  obtain rfl : tip' = tip := some.inj (htip'.symm.trans htip)
  obtain ⟨d,ds,hds⟩ := exists_cons_of_ne_nil hne
  obtain ⟨h1,h2⟩ := hn.tree.parent _ _ hmem d ds hds
  -- the predecessor is indexed under the hash of the best block, so it is the best block
  rw [← h2,hprev,hhash,htree,some.injEq] at h1
  rw [hds,h1]
  rfl

theorem Synced.moved (hn : Synced P gen n) (hinj : Set.InjOn (getHash P) (treeTxs n.mapBlockIndex))
    (hmem : n.mapBlockIndex[pindexNew.getBlockHash]? = some pindexNew) {all}
    (h : switchChain P E pindexNew n = some (.ok all,n')) :
    ∃ tip, n.tip = some tip ∧ ∃ detached common connected attached left,
      Moved P tip (switchTarget n tip pindexNew) pindexNew n n' all detached common connected
        attached left := by
  obtain ⟨tip,htip,htree,-,hcomm⟩ := hn.best
  exact ⟨tip,htip,switchChain_moved htip hcomm (hn.tree.sound hinj htree) (hn.tree.distinct hmem)
    (hn.tree.distinct htree) hn.first (hn.tree.hash _ _ hmem) (hn.ancestors_eq htip hmem) h⟩

theorem Synced.extended (hn : Synced P gen n) (htip : n.tip = some tip)
    (hmem : n.mapBlockIndex[pindexNew.getBlockHash]? = some pindexNew)
    (hext : pindexNew.data.block.hashPrevBlock = n.hashBestChain) {all}
    (h : switchChain P E pindexNew n = some (.ok all,n')) :
    Moved P tip (switchTarget n tip pindexNew) pindexNew n n' all [] tip.pindexBest.path []
      [pindexNew.data] [] := by
  obtain ⟨tip',htip',htree,-,hcomm⟩ := hn.best
  obtain rfl : tip = tip' := some.inj (htip.symm.trans htip')
  exact switchChain_extended htip hcomm (hn.tree.distinct htree) hn.first (hn.tree.hash _ _ hmem) hext
    (hn.ancestors_eq htip hmem hext) h

theorem Synced.of_untouched (hn : Synced P gen n) (hu : Untouched n n')
    (hidle : n'.chain.txdb.activeBatch = none) : Synced P gen n' := by
  obtain ⟨tip,htip,htree,hhash,hcomm⟩ := hn.best
  have hcomm' := hcomm.of_untouched hu hidle
  rw [hu.globals]
  exact ⟨hn.tree,hn.first,tip,htip,htree,hhash,hcomm'⟩

theorem Synced.setBestChain (hn : Synced P gen n)
    (hinj : Set.InjOn (getHash P) (treeTxs n.mapBlockIndex))
    (hmem : n.mapBlockIndex[pindexNew.getBlockHash]? = some pindexNew)
    (hgood : Attaches P E pindexNew n) {r}
    (h : setBestChain P E pindexNew n = some (r,n')) : Synced P gen n' := by
  cases r with
  | error e =>
    obtain ⟨hu,-,hidle⟩ := switchChain_error (setBestChain_eq_error.mp h)
    exact hn.of_untouched hu hidle
  | ok u =>
    obtain ⟨all,m,hs,rfl⟩ := setBestChain_eq_ok.mp h
    obtain ⟨tip,htip,detached,common,connected,attached,left,hm⟩ := hn.moved hinj hmem hs
    have hleft : left = [] := hm.finished.mp (hgood.eq_true hs)
    have hcomm := hm.committed
    have hnew := hm.new
    rw [hleft,reverse_nil,nil_append] at hnew
    rw [← hnew] at hcomm
    have hmap : m.mapBlockIndex = n.mapBlockIndex := by rw [hm.globals]
    have hfirst : m.pindexGenesisBlock = n.pindexGenesisBlock := by rw [hm.globals]
    refine ⟨hmap.symm ▸ hn.tree,hfirst.symm ▸ hn.first,⟨pindexNew,pindexNew.nHeight,rfl⟩,rfl,?_,?_,hcomm⟩
    · change m.mapBlockIndex[pindexNew.getBlockHash]? = some pindexNew
      rw [hmap]
      exact hmem
    · exact hn.tree.hash _ _ hmem

theorem pdb_addIndex (A) (n : Node) (p) {k} (hk : ∀ h, k ≠ .blockindex h) :
    (n.addIndex A p).chain.txdb.pdb k = n.chain.txdb.pdb k := by
  unfold Node.addIndex
  cases A.commitOk with
  | false => rfl
  | true =>
    change TxDB.view _ k = _
    rw [CTxDB.writeBlockIndex,TxDB.view_write,Function.update_of_ne (hk _)]
    rfl

theorem txPart_addIndex (A) (n : Node) (p) :
    txPart (n.addIndex A p).chain.txdb.pdb = txPart n.chain.txdb.pdb :=
  funext fun _ => pdb_addIndex A n p (by simp)

theorem Synced.addIndex (hn : Synced P gen n)
    (hacc : acceptChecks P A tip b n.mapBlockIndex = .ok (pindexPrev,hashProof)) :
    Synced P gen (n.addIndex A (newIndex P b slot hashProof n.mapBlockIndex)) := by
  obtain ⟨tip',htip,htree,hhash,hcomm⟩ := hn.best
  have hnew := (acceptChecks_spec hacc).1
  refine ⟨hn.tree.insert hacc,hn.first,tip',htip,?_,hhash,⟨rfl,?_,?_,?_⟩⟩
  · change (n.mapBlockIndex.insert (b.getHash P) _)[_]? = _
    rw [getElem?_insert,if_neg]
    · exact htree
    · intro he
      rw [he,htree] at hnew
      cases hnew
  · rw [pdb_addIndex A n _ (by simp)]
    exact hcomm.record
  · rw [txPart_addIndex]
    exact hcomm.applied
  · refine hcomm.linked.update _ fun hmem => ?_
    obtain ⟨d,hd,he⟩ := mem_map.mp hmem
    obtain ⟨l₁,l₂,hl⟩ := append_of_mem hd
    have hs : d::l₂ <:+ tip'.pindexBest.path := by
      rw [path,hl]
      exact (suffix_append l₁ _).trans (suffix_cons _ _)
    have hin := hn.tree.mem_of_suffix htree hs
    rw [he] at hin
    cases hnew.symm.trans hin

def Node.first (P : Params) (A : AcceptEnv) (p : CBlockIndex) : Node :=
  let n := Node.empty.addIndex A p
  Node.newBest P { n.withDb ((CTxDB.writeHashBestChain n.chain.txdb.txnBegin
    (p.data.block.getHash P)).txnCommit true) with pindexGenesisBlock := some p } p

theorem addToBlockIndex_first
    (h : addToBlockIndex P A gen slot hashProof .empty = some (.ok (),n))
    (htip : n.tip.isSome) :
    ∃ p : CBlockIndex, p.ancestors = [] ∧ p.data.block = gen ∧ p.getBlockHash = gen.getHash P ∧
      n = .first P A p := by
  unfold addToBlockIndex at h
  dsimp only at h
  refine ⟨newIndex P gen slot hashProof Node.empty.mapBlockIndex,by simp [newIndex,Node.empty],rfl,rfl,?_⟩
  generalize newIndex P gen slot hashProof Node.empty.mapBlockIndex = p at h
  split_ifs at h
  · cases h
  · cases h
  · cases h
  · obtain ⟨all,m,hs,rfl⟩ := setBestChain_eq_ok.mp h
    cases (switchChain_cases hs).2 with
    | first => rfl
    | extended hnone => exact absurd hnone (by simp [Node.addIndex,Node.empty])
    | reorganized hnone => exact absurd hnone (by simp [Node.addIndex,Node.empty])
  · cases h
    exact absurd htip (by simp [Node.addIndex,Node.empty])

theorem tree_singleton (hroot : p.ancestors = [])
    (hhash : p.data.block.getHash P = p.getBlockHash) :
    Tree P p.data.block ((∅ : HashMap CBlockIndex).insert p.getBlockHash p) := by
  have hone : ∀ (h : UInt256) (q : CBlockIndex),
      ((∅ : HashMap CBlockIndex).insert p.getBlockHash p)[h]? = some q → q = p ∧ h = p.getBlockHash := by
    intro h q hq
    rw [getElem?_insert] at hq
    split_ifs at hq with hh
    · exact ⟨(some.inj hq).symm,hh.symm⟩
    · simp at hq
  refine ⟨fun h q hq => ?_,fun h q hq => ?_,fun h q hq d ds hd => ?_,fun h q hq _ => ?_,fun h q hq hne => ?_⟩ <;>
    obtain ⟨rfl,rfl⟩ := hone h q hq
  · rfl
  · exact hhash
  · cases hroot.symm.trans hd
  · rfl
  · exact absurd hroot hne

theorem applied_singleton (d) : Applied P SpendIndex.empty [d] := by
  refine ⟨rfl,fun d' ds hsuf hne => ?_⟩
  rcases suffix_cons_iff.mp hsuf with he | hsuf
  · exact absurd (cons.inj he).2 hne
  · cases suffix_nil.mp hsuf

theorem synced_start
    (h : addToBlockIndex P A gen slot hashProof .empty = some (.ok (),n))
    (htip : n.tip.isSome) : Synced P gen n := by
  obtain ⟨p,hroot,rfl,hkey,rfl⟩ := addToBlockIndex_first h htip
  refine ⟨tree_singleton hroot hkey.symm,by simp [Node.first,Node.newBest],⟨p,p.nHeight,rfl⟩,rfl,?_,hkey.symm,
    ⟨rfl,?_,?_,?_⟩⟩
  · change ((∅ : HashMap CBlockIndex).insert p.getBlockHash p)[_]? = _
    rw [getElem?_insert,if_pos rfl]
  · change TxDB.view _ _ = _
    rw [view_writeHashBestChain,← hkey]
    rfl
  · have hidx : txPart ((CTxDB.writeHashBestChain (Node.empty.addIndex A p).chain.txdb.txnBegin
        (p.data.block.getHash P)).txnCommit true).pdb = SpendIndex.empty := by
      rw [txPart_commit]
      exact txPart_addIndex A .empty p
    change Applied P (txPart ((CTxDB.writeHashBestChain _ _).txnCommit true).pdb) p.path
    rw [hidx,path,hroot]
    exact applied_singleton p.data
  · change Linked _ p.path
    rw [path,hroot]
    trivial

theorem treeTxs_addIndex
    (hacc : acceptChecks P A tip b n.mapBlockIndex = .ok (pindexPrev,hashProof)) :
    treeTxs n.mapBlockIndex ⊆ treeTxs
      (n.addIndex A (newIndex P b slot hashProof n.mapBlockIndex)).mapBlockIndex := by
  rintro tx ⟨h,p,hp,htx⟩
  refine ⟨h,p,?_,htx⟩
  change (n.mapBlockIndex.insert (b.getHash P) _)[_]? = _
  rw [getElem?_insert,if_neg]
  · exact hp
  · rintro rfl
    rw [(acceptChecks_spec hacc).1] at hp
    cases hp

theorem Reach.synced (h : Reach P gen good n) (hgood : ∀ E p n, good E p n → Attaches P E p n)
    (hinj : Set.InjOn (getHash P) (treeTxs n.mapBlockIndex)) : Synced P gen n := by
  induction h with
  | start _ h htip => exact synced_start h htip
  | index hn htip hacc ih => exact (ih (hinj.mono (treeTxs_addIndex hacc))).addIndex hacc
  | @best n n' E pindexNew r hn hmem h hcall ih =>
    rw [setBestChain_mapBlockIndex h] at hinj
    exact (ih hinj).setBestChain hinj hmem (hgood _ _ _ hcall) h

/-! A run of the small instance: a block on the genesis block, a branch beside it
whose second block cannot be read back when it becomes the better one, and a third
block on that branch that spends an immature coinbase. -/
namespace Sample

def c₂ : CBlockIndex := ⟨stored 3000 (block b₁.getBlockHash 300 [coinbase 2 300 COIN]),b₁.path⟩

def immature : CTransaction :=
  payment 310 [⟨(coinbase 1 210 COIN).getHash params,0⟩] [⟨COIN,opTrue⟩]

def c₃ : CBlockIndex :=
  ⟨stored 4000 (block c₂.getBlockHash 310 [coinbase 3 310 COIN,immature]),c₂.path⟩
def c₄ : CBlockIndex := ⟨stored 5000 (block c₃.getBlockHash 320 [coinbase 4 320 COIN]),c₃.path⟩

def files : CBlockIndex → World := fun _ => world 400 [a₁.data,b₁.data,c₂.data,c₃.data,c₄.data]
def unreadable : CBlockIndex → World := fun _ => { world 400 [] with readOk := false }

def started : Node :=
  ((addToBlockIndex chainParams acceptEnv genesis.block ⟨(genesis.nFile,genesis.nBlockPos),genesis.stored⟩
    genesis.hashProof .empty).map Prod.snd).getD .empty

def call (E : CBlockIndex → World) (pindexNew : CBlockIndex) (n : Node) : Node :=
  ((setBestChain chainParams E pindexNew n).map Prod.snd).getD n

def forked : Node := (call files a₁ (started.addIndex acceptEnv a₁)).addIndex acceptEnv b₁

/-- The better branch is indexed, after a failed attempt to switch to it. -/
def waiting : Node := (call unreadable c₂ (forked.addIndex acceptEnv c₂)).addIndex acceptEnv c₃

theorem reach_started (good : (CBlockIndex → World) → CBlockIndex → Node → Prop) :
    Reach chainParams genesis.block good started := by
  have h : (addToBlockIndex chainParams acceptEnv genesis.block
      ⟨(genesis.nFile,genesis.nBlockPos),genesis.stored⟩ genesis.hashProof .empty).map Prod.fst =
        some (.ok ()) := by decide +kernel
  obtain ⟨⟨r,m⟩,hm,rfl⟩ := map_eq_some_iff.mp h
  have hstarted : started = m := by simp [started,hm]
  refine .start (by decide +kernel) (hstarted ▸ hm) ?_
  decide +kernel

def Accepts (n : Node) (p prev : CBlockIndex) : Prop :=
  (n.tip.map fun tip => acceptChecks chainParams acceptEnv tip p.data.block n.mapBlockIndex) =
      some (.ok (prev,p.data.hashProof)) ∧
    newIndex chainParams p.data.block ⟨(p.data.nFile,p.data.nBlockPos),p.data.stored⟩ p.data.hashProof
      n.mapBlockIndex = p

instance (n : Node) (p prev : CBlockIndex) : Decidable (Accepts n p prev) :=
  inferInstanceAs (Decidable (_ ∧ _))

theorem reach_addIndex (hn : Reach chainParams genesis.block good n) (p prev : CBlockIndex)
    (h : Accepts n p prev) : Reach chainParams genesis.block good (n.addIndex acceptEnv p) := by
  obtain ⟨hacc,hp⟩ := h
  obtain ⟨tip,htip,hacc⟩ := map_eq_some_iff.mp hacc
  rw [← hp]
  exact .index hn htip hacc

theorem reach_call (hn : Reach chainParams genesis.block good n) (E : CBlockIndex → World)
    (p : CBlockIndex)
    (h : n.mapBlockIndex[p.getBlockHash]? = some p ∧ (setBestChain chainParams E p n).isSome)
    (hgood : good E p n) : Reach chainParams genesis.block good (call E p n) := by
  obtain ⟨⟨r,m⟩,hm⟩ := isSome_iff_exists.mp h.2
  have hcall : call E p n = m := by simp [call,hm]
  exact .best hn h.1 (hcall ▸ hm) hgood

theorem injOn_treeTxs
    (h : ∀ e ∈ m.toList, ∀ f ∈ m.toList, ∀ tx ∈ e.2.data.block.vtx, ∀ tx' ∈ f.2.data.block.vtx,
      tx.getHash chainParams = tx'.getHash chainParams → tx = tx') :
    Set.InjOn (getHash chainParams) (treeTxs m) := by
  rintro tx ⟨k,p,hp,htx⟩ tx' ⟨k',p',hp',htx'⟩ he
  exact h (k,p) (Std.ExtTreeMap.mem_toList_iff_getElem?_eq_some.mpr hp) (k',p')
    (Std.ExtTreeMap.mem_toList_iff_getElem?_eq_some.mpr hp') tx htx tx' htx' he

/-- The first block, evaluated: it is accepted, indexed, attached, and becomes the best one. -/
theorem run_a₁ : Accepts started a₁ ⟨genesis,[]⟩ ∧
    (started.addIndex acceptEnv a₁).mapBlockIndex[a₁.getBlockHash]? = some a₁ ∧
    (setBestChain chainParams files a₁ (started.addIndex acceptEnv a₁)).map Prod.fst =
      some (.ok ()) ∧
    Attaches chainParams files a₁ (started.addIndex acceptEnv a₁) := by decide +kernel

/-- The branch beside it, evaluated: its blocks are accepted, the second one cannot be read. -/
theorem run_c₂ :
    Accepts (call files a₁ (started.addIndex acceptEnv a₁)) b₁ ⟨genesis,[]⟩ ∧ Accepts forked c₂ b₁ ∧
    ((forked.addIndex acceptEnv c₂).mapBlockIndex[c₂.getBlockHash]? = some c₂ ∧
      (setBestChain chainParams unreadable c₂ (forked.addIndex acceptEnv c₂)).isSome) ∧
    Attaches chainParams unreadable c₂ (forked.addIndex acceptEnv c₂) ∧
    Accepts (call unreadable c₂ (forked.addIndex acceptEnv c₂)) c₃ c₂ := by decide +kernel

theorem attaches_a₁ : Attaches chainParams files a₁ (started.addIndex acceptEnv a₁) := run_a₁.2.2.2

theorem attaches_c₂ : Attaches chainParams unreadable c₂ (forked.addIndex acceptEnv c₂) :=
  run_c₂.2.2.2.1

theorem setBestChain_a₁ : setBestChain chainParams files a₁ (started.addIndex acceptEnv a₁) =
    some (.ok (),call files a₁ (started.addIndex acceptEnv a₁)) := by
  obtain ⟨⟨r,m⟩,hm,rfl⟩ := map_eq_some_iff.mp run_a₁.2.2.1
  rw [call,hm]
  rfl

theorem reach_index_a₁ (good : (CBlockIndex → World) → CBlockIndex → Node → Prop) :
    Reach chainParams genesis.block good (started.addIndex acceptEnv a₁) :=
  reach_addIndex (reach_started good) a₁ ⟨genesis,[]⟩ run_a₁.1

theorem reach_a₁ (h : good files a₁ (started.addIndex acceptEnv a₁)) :
    Reach chainParams genesis.block good (call files a₁ (started.addIndex acceptEnv a₁)) :=
  reach_call (reach_index_a₁ good) files a₁ ⟨run_a₁.2.1,by rw [setBestChain_a₁]; rfl⟩ h

theorem reach_forked (h : good files a₁ (started.addIndex acceptEnv a₁)) :
    Reach chainParams genesis.block good forked :=
  reach_addIndex (reach_a₁ h) b₁ ⟨genesis,[]⟩ run_c₂.1

theorem reach_waiting (h : good files a₁ (started.addIndex acceptEnv a₁))
    (h' : good unreadable c₂ (forked.addIndex acceptEnv c₂)) :
    Reach chainParams genesis.block good waiting := by
  have h1 := reach_addIndex (reach_forked h) c₂ b₁ run_c₂.2.1
  have h2 := reach_call h1 unreadable c₂ run_c₂.2.2.1 h'
  exact reach_addIndex h2 c₃ c₂ run_c₂.2.2.2.2

end Sample

/-- After a run in which no postponed block failed, a call that returns true leaves a
tip that is connected exactly if no postponed block fails in it. -/
theorem tipConnected_iff_attaches (hn : Reach P gen (Attaches P) n)
    (hinj : Set.InjOn (getHash P) (treeTxs n.mapBlockIndex))
    (hmem : n.mapBlockIndex[pindexNew.getBlockHash]? = some pindexNew)
    (h : setBestChain P E pindexNew n = some (.ok (),n')) :
    TipConnected P n' ↔ Attaches P E pindexNew n := by
  have hsync := hn.synced (fun _ _ _ h => h) hinj
  constructor
  · rintro ⟨tip,htip,-,hcomm⟩ hfail
    obtain ⟨all,m,hs,rfl⟩ := setBestChain_eq_ok.mp h
    obtain ⟨tip₀,-,detached,common,connected,attached,left,hm⟩ := hsync.moved hinj hmem hs
    rw [hs] at hfail
    have hleft : left ≠ [] := by
      intro hnil
      rw [hm.finished.mpr hnil] at hfail
      cases hfail
    cases htip
    -- the record names the last block that was attached, which is not the tip
    have hrec : (pindexNew.path.head?).map BlockIndexData.hashBlock =
        ((attached.reverse++(connected.reverse++common)).head?).map BlockIndexData.hashBlock :=
      hcomm.record.symm.trans hm.committed.record
    have hdist := hsync.tree.distinct hmem
    rw [hm.new] at hdist hrec
    obtain ⟨d,l,hd⟩ := exists_cons_of_ne_nil (mt reverse_eq_nil_iff.mp hleft)
    obtain ⟨d',l',hd'⟩ := exists_cons_of_ne_nil (l := attached.reverse++(connected.reverse++common))
      (by simp [hm.common_ne])
    rw [hd,hd'] at hdist hrec
    have hnot := (nodup_cons.mp hdist).1
    refine hnot ?_
    have hhead : d.hashBlock = d'.hashBlock := by simpa using hrec
    simp [hhead]
  · intro hgood
    obtain ⟨tip,htip,-,hhash,hcomm⟩ := (hsync.setBestChain hinj hmem hgood h).best
    exact ⟨tip,htip,hhash,hcomm⟩

open Sample

/-- The first block on the genesis block is attached and connected. -/
theorem tipConnected_iff_attaches_a₁ :
    TipConnected chainParams (call files a₁
      (started.addIndex acceptEnv a₁)) :=
  (tipConnected_iff_attaches (reach_index_a₁ _) (injOn_treeTxs (by decide +kernel))
    run_a₁.2.1 setBestChain_a₁).mpr attaches_a₁

/-- The branch is switched to, its last block is refused, and the node takes that
block for the best one all the same. -/
theorem tip_not_connected :
    ∃ n n', Reach chainParams genesis.block (Attaches chainParams) n ∧
      Set.InjOn (getHash chainParams) (treeTxs n.mapBlockIndex) ∧
      n.mapBlockIndex[c₃.getBlockHash]? = some c₃ ∧
      setBestChain chainParams files c₃ n = some (.ok (),n') ∧
      n'.hashBestChain = c₃.getBlockHash ∧
      n'.chain.txdb.pdb .hashBestChain = some c₂.getBlockHash ∧
      ¬ TipConnected chainParams n' := by
  have hn : Reach chainParams genesis.block (Attaches chainParams) waiting :=
    reach_waiting attaches_a₁ attaches_c₂
  have hcall : (setBestChain chainParams files c₃ waiting).map
      (fun r => (r.1,r.2.hashBestChain,r.2.chain.txdb.pdb .hashBestChain)) =
        some (.ok (),c₃.getBlockHash,some c₂.getBlockHash) := by decide +kernel
  obtain ⟨⟨r,m⟩,hm,hr⟩ := map_eq_some_iff.mp hcall
  obtain ⟨rfl,hhash,hrec⟩ : r = .ok () ∧ m.hashBestChain = c₃.getBlockHash ∧
      m.chain.txdb.pdb .hashBestChain = some c₂.getBlockHash := by
    simpa only [Prod.mk.injEq] using hr
  refine ⟨waiting,m,hn,injOn_treeTxs (by decide +kernel),by decide +kernel,hm,hhash,hrec,?_⟩
  rintro ⟨tip,-,hbest,hcomm⟩
  have hne : c₂.getBlockHash ≠ c₃.getBlockHash := by decide +kernel
  have h₁ := hcomm.record
  rw [hrec] at h₁
  have h₂ : c₂.getBlockHash = tip.pindexBest.getBlockHash := some.inj h₁
  exact hne (h₂.trans (hbest.symm.trans hhash))

end DarkSilk
