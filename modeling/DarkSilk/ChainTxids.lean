import DarkSilk.AcceptBlock

/-! The transactions of a chain. No two of them share an id: coinbases carry the
height of their block, and anything else spends an output that is spent only once. -/
namespace DarkSilk

open List CTransaction SpendIndex

variable {d : BlockIndexData} {pindex : CBlockIndex}

variable (P : Params)

/-- The transactions above the first block of a path, the oldest first, with their
positions. The first block itself is never connected. -/
def pathPositions : List BlockIndexData → List (CTransaction × CDiskTxPos)
  | d::d'::ds => pathPositions (d'::ds)++blockPositions d d.block false
  | _ => []

def pathTxs (path : List BlockIndexData) : List CTransaction := (pathPositions path).map Prod.fst

def pathEntries (path : List BlockIndexData) : List (SpendIndex.Entry UInt256 CDiskTxPos) :=
  (pathPositions path).map (txEntry P)

def Ruled (path : List BlockIndexData) : Prop :=
  ∀ d ds, d::ds <:+ path → ds ≠ [] → d.block.Checked P ∧ HeightRule d.block ds.length

variable {P} {path : List BlockIndexData} {ds : List BlockIndexData}

theorem pathPositions_cons (d) (h : ds ≠ []) :
    pathPositions (d::ds) = pathPositions ds++blockPositions d d.block false := by
  cases ds with
  | nil => exact absurd rfl h
  | cons d' ds => rfl

theorem map_fst_blockPositions (d b) :
    (blockPositions d b false).map Prod.fst = b.vtx := map_fst_txPositions d false _ b.vtx

theorem pathTxs_cons (d) (h : ds ≠ []) : pathTxs (d::ds) = pathTxs ds++d.block.vtx := by
  rw [pathTxs,pathPositions_cons d h,map_append,map_fst_blockPositions]
  rfl

theorem pathEntries_cons (d) (h : ds ≠ []) :
    pathEntries P (d::ds) = pathEntries P ds++blockEntries P d d.block := by
  rw [pathEntries,pathPositions_cons d h,map_append]
  rfl

theorem map_id_pathEntries (path) :
    (pathEntries P path).map Entry.id = (pathTxs path).map (getHash P) := by
  simp [pathEntries,pathTxs,Function.comp_def,txEntry]

variable {x : CTransaction × CDiskTxPos} {b : CBlock} {tx : CTransaction} {path' : List BlockIndexData}

theorem mem_pathPositions :
    x ∈ pathPositions path ↔
      ∃ d ds, d::ds <:+ path ∧ ds ≠ [] ∧ x ∈ blockPositions d d.block false := by
  induction path with
  | nil => simp [pathPositions]
  | cons d ds ih =>
    by_cases hds : ds = []
    · subst hds
      simp only [pathPositions,not_mem_nil,suffix_cons_iff,suffix_nil,cons.injEq,
        reduceCtorEq,or_false,false_iff]
      rintro ⟨d',ds',⟨-,rfl⟩,hne,-⟩
      exact hne rfl
    · rw [pathPositions_cons d hds,mem_append,ih]
      constructor
      · rintro (⟨d',ds',hs,hne,hx⟩ | hx)
        · exact ⟨d',ds',hs.trans (suffix_cons d ds),hne,hx⟩
        · exact ⟨d,ds,suffix_rfl,hds,hx⟩
      · rintro ⟨d',ds',hs,hne,hx⟩
        rcases suffix_cons_iff.mp hs with he | hs
        · cases he
          exact .inr hx
        · exact .inl ⟨d',ds',hs,hne,hx⟩

theorem fst_mem_of_mem_blockPositions
    (hx : x ∈ blockPositions d b false) : x.1 ∈ b.vtx := by
  rw [← map_fst_blockPositions d b]
  exact mem_map_of_mem hx

theorem mem_pathTxs :
    tx ∈ pathTxs path ↔ ∃ d ds, d::ds <:+ path ∧ ds ≠ [] ∧ tx ∈ d.block.vtx := by
  simp only [pathTxs,mem_map,mem_pathPositions]
  constructor
  · rintro ⟨x,⟨d,ds,hs,hne,hx⟩,rfl⟩
    exact ⟨d,ds,hs,hne,fst_mem_of_mem_blockPositions hx⟩
  · rintro ⟨d,ds,hs,hne,htx⟩
    rw [← map_fst_blockPositions d,mem_map] at htx
    obtain ⟨x,hx,rfl⟩ := htx
    exact ⟨x,⟨d,ds,hs,hne,hx⟩,rfl⟩

theorem mem_pathTxs_of_suffix (hs : path' <:+ path)
    (htx : tx ∈ pathTxs path') : tx ∈ pathTxs path := by
  obtain ⟨d,ds,hd,hne,htx⟩ := mem_pathTxs.mp htx
  exact mem_pathTxs.mpr ⟨d,ds,hd.trans hs,hne,htx⟩

theorem pos_ne_null_of_mem_pathEntries {e} (he : e ∈ pathEntries P path) : e.pos ≠ .setNull := by
  obtain ⟨x,hx,rfl⟩ := mem_map.mp he
  obtain ⟨d,ds,-,-,hx⟩ := mem_pathPositions.mp hx
  exact pos_ne_null_of_mem_txPositions hx

theorem Ruled.suffix (h : Ruled P path) (hs : path' <:+ path) : Ruled P path' :=
  fun d ds hd => h d ds (hd.trans hs)

theorem Ruled.cons (h : Ruled P ds) (hd : d.block.Checked P) (hh : HeightRule d.block ds.length) :
    Ruled P (d::ds) := by
  intro d' ds' hs hne
  rcases suffix_cons_iff.mp hs with he | hs
  · cases he
    exact ⟨hd,hh⟩
  · exact h d' ds' hs hne

theorem Ruled.tx_checked (h : Ruled P path) (htx : tx ∈ pathTxs path) : tx.Checked := by
  obtain ⟨d,ds,hs,hne,htx⟩ := mem_pathTxs.mp htx
  exact (h d ds hs hne).1.txs tx htx

/-- A coinbase of a checked block starts with the height that the block carries. -/
theorem coinbase_height {nHeight} (hb : b.Checked P) (hh : HeightRule b nHeight) (htx : tx ∈ b.vtx)
    (hcb : tx.isCoinBase) :
    ∃ i ∈ tx.vin, tx.vin.head? = some i ∧ Script.startsWithHeight i.scriptSig nHeight := by
  obtain ⟨cb,txs,hv,-,hrest⟩ := hb.layout
  have htx' : tx = cb := by
    rw [hv] at htx
    rcases mem_cons.mp htx with h | h
    · exact h
    · exact absurd hcb (by simp [hrest tx h])
  subst htx'
  obtain ⟨script,hs,hp⟩ := hh
  simp only [CBlock.coinbaseScript,hv,head?_cons,Option.bind_some,Option.map_eq_some_iff] at hs
  obtain ⟨i,hi,rfl⟩ := hs
  exact ⟨i,mem_of_mem_head? hi,hi,hp⟩

theorem coinbase_height_unique {b' m n} (hb : b.Checked P) (hh : HeightRule b m) (htx : tx ∈ b.vtx)
    (hb' : b'.Checked P) (hh' : HeightRule b' n) (htx' : tx ∈ b'.vtx) (hcb : tx.isCoinBase) :
    m = n := by
  obtain ⟨i,hi,hhead,hm⟩ := coinbase_height hb hh htx hcb
  obtain ⟨j,hj,hhead',hn⟩ := coinbase_height hb' hh' htx' hcb
  rw [hhead,Option.some.injEq] at hhead'
  subst hhead'
  have hlen := (hb.txs tx htx).coinbase hcb i hi
  exact Script.startsWithHeight_inj (by omega) hm hn

theorem isCoinBase_of_ins_eq_nil (hx : x.1.Checked)
    (h : (txEntry P x).ins = []) : x.1.isCoinBase := by
  by_contra hcb
  simp only [txEntry,hcb,if_false,map_eq_nil_iff] at h
  exact hx.vin_ne h

theorem pathEntries_base (hr : Ruled P path)
    (hinj : Set.InjOn (getHash P) { tx | tx ∈ pathTxs path }) :
    (pathEntries P path).Pairwise fun e f => e.ins = [] → f.ins = [] → e.id ≠ f.id := by
  induction path with
  | nil => exact Pairwise.nil
  | cons d ds ih =>
    by_cases hds : ds = []
    · subst hds
      exact Pairwise.nil
    · have hsub : ∀ tx ∈ pathTxs ds, tx ∈ pathTxs (d::ds) := by
        intro tx htx
        rw [pathTxs_cons d hds]
        exact mem_append_left _ htx
      obtain ⟨hd,hh⟩ := hr d ds suffix_rfl hds
      rw [pathEntries_cons d hds,pairwise_append]
      refine ⟨ih (hr.suffix (suffix_cons d ds)) (hinj.mono hsub),?_,?_⟩
      · -- within the block the check for duplicates applies
        have hids := hd.txids
        rw [← map_id_blockEntries P d,Nodup,pairwise_map] at hids
        exact hids.imp fun hne _ _ => hne
      · -- across blocks two coinbases of one id would be one coinbase of two heights
        intro e he f hf hei hfi hid
        obtain ⟨x,hx,rfl⟩ := mem_map.mp he
        obtain ⟨y,hy,rfl⟩ := mem_map.mp hf
        obtain ⟨d',ds',hs,hne,hx⟩ := mem_pathPositions.mp hx
        obtain ⟨hd',hh'⟩ := hr d' ds' (hs.trans (suffix_cons d ds)) hne
        have hx₁ := fst_mem_of_mem_blockPositions hx
        have hy₁ := fst_mem_of_mem_blockPositions hy
        have hxy : x.1 = y.1 := hinj (mem_pathTxs.mpr ⟨d',ds',hs.trans (suffix_cons d ds),hne,hx₁⟩)
          (mem_pathTxs.mpr ⟨d,ds,suffix_rfl,hds,hy₁⟩) hid
        have hcb := isCoinBase_of_ins_eq_nil (hd'.txs x.1 hx₁) hei
        have hheight := coinbase_height_unique hd' hh' hx₁ hd hh (hxy ▸ hy₁) hcb
        have hlen := hs.length_le
        simp only [length_cons] at hlen
        omega

/-- On a connected path that keeps the rules no id is used twice. -/
theorem pathTxids_nodup {idx} (hr : Ruled P path)
    (hinj : Set.InjOn (getHash P) { tx | tx ∈ pathTxs path })
    (h : connectAll .setNull (pathEntries P path) empty = some idx) :
    ((pathEntries P path).map Entry.id).Nodup := by
  refine connectAll_ids_nodup (fun e he => pos_ne_null_of_mem_pathEntries he) ?_
    (pathEntries_base hr hinj) h
  intro e he f hf hid
  obtain ⟨x,hx,rfl⟩ := mem_map.mp he
  obtain ⟨y,hy,rfl⟩ := mem_map.mp hf
  have hxy : x.1 = y.1 := hinj (mem_map_of_mem hx) (mem_map_of_mem hy) hid
  simp [txEntry,hxy]

/-- The chains that are built by accepting a block on the last one and connecting it,
with the transaction records they leave. The two calls may see different nodes. -/
inductive Accepted (P : Params) : CBlockIndex → TxIndex → Prop
  | genesis (d : BlockIndexData) : Accepted P ⟨d,[]⟩ SpendIndex.empty
  | link {pindex : CBlockIndex} {d : BlockIndexData} {A : AcceptEnv} {tip tip' : Tip}
      {m : HashMap CBlockIndex} {hashProof : UInt256} {W : World} {s s' : ChainState}
      (h : Accepted P pindex s.txdb.txView)
      (hacc : acceptChecks P A tip d.block m = .ok (pindex,hashProof))
      (hcon : connectBlock P W tip' ⟨d,pindex.path⟩ d.block false s = (.ok (),s')) :
      Accepted P ⟨d,pindex.path⟩ s'.txdb.txView

variable {idx : TxIndex}

/-- An accepted chain keeps the rules, and its records come from connecting its entries. -/
theorem Accepted.ruled (h : Accepted P pindex idx) :
    Ruled P pindex.path ∧
      connectAll .setNull (pathEntries P pindex.path) empty = some idx := by
  induction h with
  | genesis d =>
    refine ⟨fun d' ds hs hne => ?_,rfl⟩
    rcases suffix_cons_iff.mp hs with he | hs
    · exact absurd (cons.inj he).2 hne
    · cases suffix_nil.mp hs
  | @link pindex d A tip tip' m hashProof W s s' _ hacc hcon ih =>
    have hne : pindex.path ≠ [] := by simp [CBlockIndex.path]
    refine ⟨ih.1.cons (connectBlock_checked hcon) (acceptChecks_spec hacc).2.2,?_⟩
    change connectAll .setNull (pathEntries P (d::pindex.path)) empty = _
    rw [pathEntries_cons d hne,connectAll_append,ih.2,Option.bind_some]
    exact connectBlock_entries hcon

theorem getHash_injOn (hr : Ruled P path)
    (hinj : Set.InjOn P.hash { l | ∃ tx ∈ pathTxs path, tx.serialize = l }) :
    Set.InjOn (getHash P) { tx | tx ∈ pathTxs path } := by
  intro tx htx tx' htx' he
  have hsize := (hr.tx_checked htx).size
  refine serialize_inj ?_ (hinj ⟨tx,htx,rfl⟩ ⟨tx',htx',rfl⟩ he)
  calc tx.serialize.length ≤ MAX_BLOCK_SIZE := hsize
    _ < 2^64 := by decide

/-! A second block on the first one of the small chain. -/
namespace Sample

def a₂ : CBlockIndex := ⟨stored 1500 (block a₁.getBlockHash 290 [coinbase 2 290 COIN]),a₁.path⟩

def acceptEnv : AcceptEnv where
  adjustedTime := 400
  proofOfStake := none
  diskSpace := true
  slot := some ⟨(1,0),by decide⟩
  stakeModifier := true
  commitOk := true
  world := env

def connectedA₁ : Except Reject Unit × ChainState :=
  connectBlock chainParams (world 400 []) tip a₁ a₁.data.block false Node.empty.chain

def connectedA₂ : Except Reject Unit × ChainState :=
  connectBlock chainParams (world 400 []) tip a₂ a₂.data.block false connectedA₁.2

theorem connectedA₁_fst : connectedA₁.1 = .ok () := by decide +kernel

theorem connectedA₂_fst : connectedA₂.1 = .ok () := by decide +kernel

def indexA : HashMap CBlockIndex :=
  ((∅ : HashMap CBlockIndex).insert genesis.hashBlock ⟨genesis,[]⟩).insert a₁.getBlockHash a₁

theorem accepted_a₁ : Accepted chainParams a₁ connectedA₁.2.txdb.txView := by
  have hacc : acceptChecks chainParams acceptEnv tip a₁.data.block
      ((∅ : HashMap CBlockIndex).insert genesis.hashBlock ⟨genesis,[]⟩) =
        .ok (⟨genesis,[]⟩,a₁.data.block.getPoWHash params) := by decide +kernel
  have hcon : connectBlock chainParams (world 400 []) tip ⟨a₁.data,CBlockIndex.path ⟨genesis,[]⟩⟩
      a₁.data.block false Node.empty.chain = (.ok (),connectedA₁.2) :=
    show connectedA₁ = _ by rw [← connectedA₁_fst]
  have hempty : Node.empty.chain.txdb.txView = empty := rfl
  have hgen : Accepted chainParams ⟨genesis,[]⟩ Node.empty.chain.txdb.txView := by
    rw [hempty]
    exact .genesis genesis
  have hlink := Accepted.link (d := a₁.data) (s := Node.empty.chain) hgen hacc hcon
  exact hlink

end Sample

variable {A : AcceptEnv} {tip tip' : Tip} {m : HashMap CBlockIndex} {hashProof : UInt256} {W : World} {s s' : ChainState}

/-- On a chain of accepted and connected blocks all transaction ids differ, the last
block finds none of its ids recorded, and no coinbase fits two heights. -/
theorem accepted_txids_unique (h : Accepted P pindex s.txdb.txView)
    (hacc : acceptChecks P A tip d.block m = .ok (pindex,hashProof))
    (hcon : connectBlock P W tip' ⟨d,pindex.path⟩ d.block false s = (.ok (),s'))
    (hinj : Set.InjOn P.hash { l | ∃ tx ∈ pathTxs (d::pindex.path), tx.serialize = l }) :
    ((pathTxs (d::pindex.path)).map (getHash P)).Nodup ∧
      (∀ tx ∈ d.block.vtx, s.txdb.readTxIndex (tx.getHash P) = none) ∧
      ∀ tx : CTransaction, tx.Checked → tx.isCoinBase → ∀ i ∈ tx.vin, ∀ nHeight nHeight' : ℕ,
        Script.startsWithHeight i.scriptSig nHeight → Script.startsWithHeight i.scriptSig nHeight' →
          nHeight = nHeight' := by
  have hne : pindex.path ≠ [] := by simp [CBlockIndex.path]
  obtain ⟨hr,hall⟩ := (Accepted.link h hacc hcon).ruled
  have hids : ((pathTxs (d::pindex.path)).map (getHash P)).Nodup := by
    rw [← map_id_pathEntries]
    exact pathTxids_nodup hr (getHash_injOn hr hinj) hall
  refine ⟨hids,fun tx htx => ?_,fun tx hchk hcb i hi m n hm hn => ?_⟩
  · -- the records before the block are those of the chain below it
    obtain ⟨hr₀,hall₀⟩ := h.ruled
    rw [pathTxs_cons d hne,map_append,nodup_append] at hids
    have htracks := tracks_connectAll (fun e he => pos_ne_null_of_mem_pathEntries he)
      (by rw [map_id_pathEntries]; exact hids.1) hall₀
    rw [CTxDB.readTxIndex_eq]
    refine htracks.eq_none fun hmem => ?_
    rw [map_id_pathEntries] at hmem
    exact hids.2.2 _ hmem _ (mem_map_of_mem htx) rfl
  · have hlen := hchk.coinbase hcb i hi
    exact Script.startsWithHeight_inj (by omega) hm hn

open Sample

theorem accepted_txids_unique_a₂ :
    ((pathTxs a₂.path).map (getHash chainParams)).Nodup ∧
      ∀ tx ∈ a₂.data.block.vtx,
        connectedA₁.2.txdb.readTxIndex (tx.getHash chainParams) = none := by
  have hacc : acceptChecks chainParams acceptEnv tip a₂.data.block indexA =
      .ok (a₁,a₂.data.block.getPoWHash params) := by decide +kernel
  have hinj : Set.InjOn chainParams.hash { l | ∃ tx ∈ pathTxs a₂.path, tx.serialize = l } := by
    have hlist : ∀ tx ∈ pathTxs a₂.path, ∀ tx' ∈ pathTxs a₂.path,
        chainParams.hash tx.serialize = chainParams.hash tx'.serialize →
          tx.serialize = tx'.serialize := by decide +kernel
    rintro _ ⟨tx,htx,rfl⟩ _ ⟨tx',htx',rfl⟩ he
    exact hlist tx htx tx' htx' he
  obtain ⟨h1,h2,-⟩ := accepted_txids_unique (s := connectedA₁.2) accepted_a₁ hacc
    (show connectedA₂ = _ by rw [← connectedA₂_fst]) hinj
  exact ⟨h1,h2⟩

end DarkSilk
