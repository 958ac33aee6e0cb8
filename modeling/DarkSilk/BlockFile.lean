import DarkSilk.MemPoolReads
import DarkSilk.SpentMarks
import DarkSilk.Unserialize

/-! The block files. Blocks are appended with the disk serialisation and read back in
full or, by a type flag, as a header only; the look-up of a transaction and of its depth
start from the second way. -/
namespace DarkSilk

open BatchStore PrefixCode List Option CTransaction

variable {nCurrentBlockFile : UInt32} {messageStart : List UInt8} {d : BlockIndexData}

abbrev BlockFiles := UInt32 → Option (List UInt8)

def openBlockFile (files : BlockFiles) (nFile nBlockPos : UInt32) : Option (List UInt8) :=
  if nFile < 1 || nFile = 0xFFFFFFFF then none else (files nFile).map (List.drop nBlockPos.toNat)

/-- The first file from the current one on with room for a block; a missing one is created. -/
def appendBlockFile (files : BlockFiles) (nCurrentBlockFile : UInt32) :
    Option (UInt32 × List UInt8) :=
  if h : nCurrentBlockFile < 1 ∨ nCurrentBlockFile = 0xFFFFFFFF then none
  else
    let content := (files nCurrentBlockFile).getD []
    if content.length < 0x7F000000-MAX_SIZE then some (nCurrentBlockFile,content)
    else appendBlockFile files (nCurrentBlockFile+1)
termination_by 2^32-nCurrentBlockFile.toNat
decreasing_by
  have hne : nCurrentBlockFile.toNat ≠ 0xFFFFFFFF := fun he => h (.inr (UInt32.toNat.inj he))
  have hlt := nCurrentBlockFile.toNat_lt
  rw [UInt32.toNat_add]
  simp only [UInt32.toNat_one]
  omega

/-- Append a block behind the message start and its size. Returned are the files, the
file that is now the current one, and the position of the block. -/
def CBlock.writeToDisk (messageStart : List UInt8) (files : BlockFiles) (nCurrentBlockFile : UInt32)
    (b : CBlock) :
    Option (BlockFiles × UInt32 × UInt32) :=
  (appendBlockFile files nCurrentBlockFile).map fun (nFile,content) =>
    let block := b.serializeAs Ser.DISK
    let front := content++messageStart++leBytes 4 block.length
    (Function.update files nFile (some (front++block)),nFile,UInt32.ofNat front.length)

variable (P : Params)

def CBlock.readFromDisk (files : BlockFiles) (nFile nBlockPos : UInt32) (fReadTransactions : Bool) :
    Option CBlock := do
  let filein ← openBlockFile files nFile nBlockPos
  let nType := if fReadTransactions then Ser.DISK else Ser.DISK ||| Ser.BLOCKHEADERONLY
  let (b,_) ← (CBlock.unserialize nType .setNull).run filein
  if fReadTransactions && b.isProofOfWork && !checkProofOfWork P (b.getPoWHash P) b.nBits then none else some b

def CBlockIndex.getBlockHeader (pindex : CBlockIndex) : CBlock :=
  let b := pindex.data.block
  ⟨⟨b.nVersion,(pindex.pprev.map CBlockIndex.getBlockHash).getD 0,b.hashMerkleRoot,b.nTime,b.nBits,b.nNonce⟩,[],[]⟩

def CBlockIndex.readFromDisk (files : BlockFiles) (pindex : CBlockIndex)
    (fReadTransactions : Bool) :
    Option CBlock :=
  if fReadTransactions then do
    let b ← CBlock.readFromDisk P files pindex.data.nFile pindex.data.nBlockPos true
    if b.getHash P = pindex.getBlockHash then some b else none
  else some pindex.getBlockHeader

def CTransaction.readFromDisk (files : BlockFiles) (pos : CDiskTxPos) : Option CTransaction := do
  let filein ← openBlockFile files pos.nFile 0
  let (tx,_) ← CTransaction.unserialize.run (filein.drop pos.nTxPos.toNat)
  some tx

section

def Stands (files : BlockFiles) (nFile nBlockPos : UInt32) (b : CBlock) : Prop :=
  ∃ rest, openBlockFile files nFile nBlockPos = some (b.serialize++rest)

variable {P} {files files' : BlockFiles} {nFile nBlockPos : UInt32} {b : CBlock}

theorem openBlockFile_eq_some {l} :
    openBlockFile files nFile nBlockPos = some l ↔
      (nFile ≠ 0 ∧ nFile ≠ 0xFFFFFFFF) ∧ ∃ content, files nFile = some content ∧
      content.drop nBlockPos.toNat = l := by
  have hlt : nFile < 1 ↔ nFile = 0 := by
    rw [UInt32.lt_iff_toNat_lt,← UInt32.toNat_inj]
    simp
  unfold openBlockFile
  split_ifs with h
  · simp only [Bool.or_eq_true,decide_eq_true_eq,hlt] at h
    simp only [false_iff]
    rintro ⟨⟨h0,h1⟩,-⟩
    exact h.elim h0 h1
  · simp only [Bool.or_eq_true,decide_eq_true_eq,hlt,not_or] at h
    rw [map_eq_some_iff]
    exact (and_iff_right h).symm

variable {nTxPos : UInt32} {content : List UInt8} {vtx : List CTransaction}

theorem appendBlockFile_spec
    (h : appendBlockFile files nCurrentBlockFile = some (nFile,content)) :
    (nFile ≠ 0 ∧ nFile ≠ 0xFFFFFFFF) ∧ content = (files nFile).getD [] ∧
      content.length < 0x7F000000-MAX_SIZE := by
  fun_induction appendBlockFile files nCurrentBlockFile with
  | case1 n hn => cases h
  | case2 n hn content' hlen =>
    obtain ⟨rfl,rfl⟩ := Prod.mk.inj (some.inj h)
    refine ⟨⟨?_,fun h1 => hn (.inr h1)⟩,rfl,hlen⟩
    rintro rfl
    exact hn (.inl (by decide))
  | case3 n hn content' hlen ih => exact ih h

theorem length_serialize_pos (b : CBlock) : 0 < b.serialize.length := by
  simp only [CBlock.serialize,CBlockHeader.serialize,length_append,length_leBytes]
  omega

variable {b' : CBlock}

theorem writeToDisk_spec
    (h : b.writeToDisk messageStart files nCurrentBlockFile = some (files',nFile,nBlockPos)) :
    ∃ content, (nFile ≠ 0 ∧ nFile ≠ 0xFFFFFFFF) ∧ content = (files nFile).getD [] ∧
      content.length < 0x7F000000-MAX_SIZE ∧
      files' = Function.update files nFile
        (some (content++messageStart++leBytes 4 b.serialize.length++b.serialize)) ∧
      nBlockPos = UInt32.ofNat (content++messageStart++leBytes 4 b.serialize.length).length := by
  obtain ⟨⟨f,content⟩,hf,heq⟩ := map_eq_some_iff.mp h
  obtain ⟨rfl,rfl,rfl⟩ := heq
  obtain ⟨hfile,hcontent,hlen⟩ := appendBlockFile_spec hf
  exact ⟨content,hfile,hcontent,hlen,rfl,rfl⟩

theorem stands_writeToDisk (hstart : messageStart.length = 4)
    (h : b.writeToDisk messageStart files nCurrentBlockFile = some (files',nFile,nBlockPos)) :
    Stands files' nFile nBlockPos b := by
  obtain ⟨content,hfile,-,hlen,rfl,rfl⟩ := writeToDisk_spec h
  refine ⟨[],openBlockFile_eq_some.mpr ⟨hfile,_,Function.update_self _ _ _,?_⟩⟩
  have hpos : (UInt32.ofNat (content++messageStart++leBytes 4 b.serialize.length).length).toNat =
      (content++messageStart++leBytes 4 b.serialize.length).length := by
    simp only [UInt32.toNat_ofNat',length_append,length_leBytes,hstart]
    omega
  rw [hpos,drop_left,append_nil]

theorem Stands.writeToDisk (hs : Stands files nFile nBlockPos b) {nFile' nBlockPos'}
    (h : b'.writeToDisk messageStart files nCurrentBlockFile = some (files',nFile',nBlockPos')) :
    Stands files' nFile nBlockPos b := by
  obtain ⟨content,-,hcontent,-,rfl,-⟩ := writeToDisk_spec h
  obtain ⟨rest,hrest⟩ := hs
  obtain ⟨hfile,old,hold,hdrop⟩ := openBlockFile_eq_some.mp hrest
  by_cases hff : nFile = nFile'
  · subst hff
    rw [hold,getD_some] at hcontent
    subst hcontent
    have hpos : nBlockPos.toNat ≤ content.length := by
      have hlen := congrArg length hdrop
      have hb := length_serialize_pos b
      simp only [length_drop,length_append] at hlen
      omega
    refine ⟨rest++(messageStart++(leBytes 4 b'.serialize.length++b'.serialize)),
      openBlockFile_eq_some.mpr ⟨hfile,_,Function.update_self _ _ _,?_⟩⟩
    simp only [append_assoc]
    rw [drop_append_of_le_length hpos,hdrop,append_assoc]
  · refine ⟨rest,openBlockFile_eq_some.mpr ⟨hfile,old,?_,hdrop⟩⟩
    rw [Function.update_of_ne hff]
    exact hold

/-- The header of a block that is read without its transactions is the null one,
whatever stands in the file. -/
theorem readFromDisk_false (hs : Stands files nFile nBlockPos b) :
    CBlock.readFromDisk P files nFile nBlockPos false = some .setNull := by
  obtain ⟨rest,hrest⟩ := hs
  rw [CBlock.readFromDisk,hrest]
  rfl

/-- Read in full, a block comes back, and the entry of the index has what it says. -/
theorem readFromDisk_index {W pindex} (hW : W.readOk)
    (hs : Stands files pindex.data.nFile pindex.data.nBlockPos pindex.data.block)
    (hsize : pindex.data.block.serialize.length ≤ MAX_SIZE) :
    CBlockIndex.readFromDisk P files pindex true = readFromDisk P W pindex := by
  obtain ⟨rest,hrest⟩ := hs
  have hdisk : Ser.DISK &&& (Ser.GETHASH ||| Ser.BLOCKHEADERONLY) = 0 := by decide
  simp only [CBlockIndex.readFromDisk,CBlock.readFromDisk,hrest,if_true,bind_eq_bind,bind_some,
    reads_block hdisk .setNull (CBlock.withinMax_of_length hsize) rest,readFromDisk,hW,CBlock.isProofOfWork]
  by_cases hstake : pindex.data.block.isProofOfStake <;>
    by_cases hwork : checkProofOfWork P (pindex.data.block.getPoWHash P) pindex.data.block.nBits <;>
      simp [hstake,hwork]

theorem isPrefix_txPositions {rest}
    (hdrop : content.drop nTxPos.toNat = vtx.flatMap serialize++rest)
    (hlow : nTxPos.toNat+(vtx.flatMap serialize).length < 2^32) {x}
    (hx : x ∈ txPositions d false nTxPos vtx) :
    x.1.serialize <+: content.drop x.2.nTxPos.toNat := by
  induction vtx generalizing nTxPos with
  | nil => exact absurd hx not_mem_nil
  | cons tx vtx ih =>
    rw [flatMap_cons,append_assoc] at hdrop
    rw [flatMap_cons,length_append] at hlow
    rcases mem_cons.mp hx with rfl | hx
    · exact ⟨_,hdrop.symm⟩
    · have hnext : (nTxPos+UInt32.ofNat tx.serialize.length).toNat = nTxPos.toNat+tx.serialize.length := by
        rw [UInt32.toNat_add,UInt32.toNat_ofNat']
        omega
      rw [if_neg Bool.false_ne_true] at hx
      refine ih ?_ (by rw [hnext]; omega) hx
      rw [hnext,← drop_drop,hdrop,drop_left]

theorem length_header (b : CBlockHeader) : b.serialize.length = 80 := by
  simp [CBlockHeader.serialize]

theorem mem_txPositions_pos {fJustCheck x} (hx : x ∈ txPositions d fJustCheck nTxPos vtx) :
    x.2.nFile = d.nFile ∧ x.2.nBlockPos = d.nBlockPos := by
  induction vtx generalizing nTxPos with
  | nil => exact absurd hx not_mem_nil
  | cons tx vtx ih =>
    rcases mem_cons.mp hx with rfl | hx
    · exact ⟨rfl,rfl⟩
    · exact ih hx

variable {x : CTransaction × CDiskTxPos}

theorem isPrefix_blockPositions (hs : Stands files d.nFile d.nBlockPos d.block)
    (hlow : d.nBlockPos.toNat+d.block.serialize.length < 2^32)
    (hx : x ∈ blockPositions d d.block false) :
    ∃ content, openBlockFile files x.2.nFile 0 = some content ∧
      x.1.serialize <+: content.drop x.2.nTxPos.toNat := by
  obtain ⟨rest,hrest⟩ := hs
  obtain ⟨hfile,content,hcontent,hdrop⟩ := openBlockFile_eq_some.mp hrest
  have hcount := length_writeCompactSize d.block.vtx.length
  have hnull : CBlock.setNull.serialize.length-2*getSizeOfCompactSize 0 = 80 := by decide
  simp only [CBlock.serialize,writeVector,append_assoc] at hdrop
  simp only [CBlock.serialize,writeVector,length_append,length_header] at hlow
  have hfirst : (firstTxPos d d.block false).toNat =
      d.nBlockPos.toNat+(80+(writeCompactSize d.block.vtx.length).length) := by
    simp only [firstTxPos,Bool.false_eq_true,if_false,hnull,UInt32.toNat_add,UInt32.toNat_ofNat',hcount]
    omega
  have htxs : content.drop (firstTxPos d d.block false).toNat =
      d.block.vtx.flatMap serialize++(writeScript d.block.vchBlockSig++rest) := by
    rw [hfirst,← drop_drop,hdrop,← append_assoc]
    exact drop_left' (by rw [length_append,length_header])
  refine ⟨content,?_,isPrefix_txPositions htxs (by omega) hx⟩
  rw [(mem_txPositions_pos hx).1]
  exact openBlockFile_eq_some.mpr ⟨hfile,content,hcontent,rfl⟩

theorem readFromDisk_blockPositions (hs : Stands files d.nFile d.nBlockPos d.block)
    (hlow : d.nBlockPos.toNat+d.block.serialize.length < 2^32)
    (hx : x ∈ blockPositions d d.block false)
    (hsize : x.1.serialize.length ≤ MAX_SIZE) : CTransaction.readFromDisk files x.2 = some x.1 := by
  obtain ⟨content,hopen,rest,hrest⟩ := isPrefix_blockPositions hs hlow hx
  simp only [CTransaction.readFromDisk,hopen,bind_eq_bind,bind_some,← hrest,
    reads_transaction (withinMax_of_length hsize) rest]

/-- The block files and the block index of a node. An accepted block is within the limit of its
size, is written, and is then entered at the place where it was written; that may fail to happen. -/
inductive Stored (P : Params) (messageStart : List UInt8) : BlockFiles → HashMap CBlockIndex → Prop
  | start (files : BlockFiles) : Stored P messageStart files ∅
  | write {files files' : BlockFiles} {m : HashMap CBlockIndex} {nCurrentBlockFile nFile nBlockPos : UInt32} {b : CBlock}
      (h : Stored P messageStart files m)
      (hwrite : b.writeToDisk messageStart files nCurrentBlockFile = some (files',nFile,nBlockPos)) :
      Stored P messageStart files' m
  | index {files files' : BlockFiles} {m : HashMap CBlockIndex} {nCurrentBlockFile nFile nBlockPos : UInt32} {b : CBlock}
      (h : Stored P messageStart files m) (hsize : b.serialize.length ≤ MAX_BLOCK_SIZE)
      (hwrite : b.writeToDisk messageStart files nCurrentBlockFile = some (files',nFile,nBlockPos))
      (hfile : nFile ≠ 0xFFFFFFFF) (hashProof : UInt256) :
      Stored P messageStart files' (m.insert (b.getHash P) (newIndex P b ⟨(nFile,nBlockPos),hfile⟩ hashProof m))

structure BlockIndexData.OnDisk (files : BlockFiles) (d : BlockIndexData) : Prop where
  stands : Stands files d.nFile d.nBlockPos d.block
  size : d.block.serialize.length ≤ MAX_BLOCK_SIZE
  low : d.nBlockPos.toNat+d.block.serialize.length < 2^32

theorem BlockIndexData.OnDisk.writeToDisk (h : d.OnDisk files)
    (hwrite : b.writeToDisk messageStart files nCurrentBlockFile = some (files',nFile,nBlockPos)) :
    d.OnDisk files' :=
  ⟨h.stands.writeToDisk hwrite,h.size,h.low⟩

theorem Stored.onDisk {m} (h : Stored P messageStart files m) (hstart : messageStart.length = 4)
    {hash : UInt256} {p : CBlockIndex} (hp : m[hash]? = some p) :
    ∀ d ∈ p.path, d.OnDisk files := by
  induction h generalizing hash p with
  | start files => simp at hp
  | write h hwrite ih => exact fun d hd => (ih hp d hd).writeToDisk hwrite
  | @index files files' m _ nFile nBlockPos b h hsize hwrite hfile hashProof ih =>
    rw [getElem?_insert] at hp
    split_ifs at hp
    · cases hp
      intro d hd
      rcases mem_cons.mp hd with rfl | hd
      · refine ⟨stands_writeToDisk hstart hwrite,hsize,?_⟩
        obtain ⟨content,-,-,hlen,-,rfl⟩ := writeToDisk_spec hwrite
        have hblock : MAX_BLOCK_SIZE = 20000000 := rfl
        simp only [newIndex,UInt32.toNat_ofNat',length_append,length_leBytes,hstart]
        omega
      · cases hprev : m[b.hashPrevBlock]? with
        | none => simp [newIndex,hprev] at hd
        | some q => exact (ih hprev d (by simpa [newIndex,hprev] using hd)).writeToDisk hwrite
    · exact fun d hd => (ih hp d hd).writeToDisk hwrite

/-- The position that ConnectBlock computes for a transaction of an indexed chain is the offset at
which its serialisation starts in the block file, and the transaction is read back from there. -/
theorem blockPositions_readBack {messageStart : List UInt8} {m : HashMap CBlockIndex}
    (h : Stored P messageStart files m)
    (hstart : messageStart.length = 4) {hash : UInt256} {p : CBlockIndex} (hp : m[hash]? = some p)
    (hd : d ∈ p.path) :
    (blockPositions d d.block false).map Prod.fst = d.block.vtx ∧
    ∀ x ∈ blockPositions d d.block false,
      (∃ content, openBlockFile files x.2.nFile 0 = some content ∧
      x.1.serialize <+: content.drop x.2.nTxPos.toNat) ∧
      CTransaction.readFromDisk files x.2 = some x.1 := by
  obtain ⟨hs,hsize,hlow⟩ := h.onDisk hstart hp d hd
  have hmap := map_fst_txPositions d false (firstTxPos d d.block false) d.block.vtx
  refine ⟨hmap,fun x hx => ⟨isPrefix_blockPositions hs hlow hx,readFromDisk_blockPositions hs hlow hx ?_⟩⟩
  have htx : x.1 ∈ d.block.vtx := hmap ▸ mem_map_of_mem hx
  have hle := length_le_length_flatMap serialize htx
  have hmax : MAX_BLOCK_SIZE ≤ MAX_SIZE := by decide
  simp only [CBlock.serialize,length_append] at hsize
  omega

end

section

variable (files : BlockFiles)

def Node.nBestHeight (n : Node) : ℤ := (n.tip.map Tip.nBestHeight).getD (-1)

def Node.isInMainChain (n : Node) (pindex : CBlockIndex) : Bool :=
  (n.chain.pnext pindex.getBlockHash).isSome || n.tip.map Tip.pindexBest = some pindex

def CTxIndex.getDepthInMainChain (n : Node) (txindex : CTxIndex) : ℤ :=
  match CBlock.readFromDisk P files txindex.pos.nFile txindex.pos.nBlockPos false with
  | none => 0
  | some block =>
    match n.mapBlockIndex[block.getHash P]? with
    | none => 0
    | some pindex => if n.isInMainChain pindex then 1+n.nBestHeight-pindex.nHeight else 0

def Node.findDisconnected (n : Node) (hash : UInt256) : Option CTransaction :=
  n.mapBlockIndex.toList.findSome? fun (_,pindex) =>
    if n.isInMainChain pindex then none
    else (CBlockIndex.readFromDisk P files pindex true).bind fun block =>
      block.vtx.find? fun txOrphan => txOrphan.getHash P = hash

/-- Return a transaction, and the hash of its block if it was found inside one; else
`hashBlock` stays what the caller has in it. -/
def getTransaction (pool : MemPoolMaps) (n : Node) (hash hashBlock : UInt256) :
    Option (CTransaction × UInt256) :=
  match pool.lookup hash with
  | some tx => some (tx,hashBlock)
  | none =>
    let found : Option (CTxIndex × CTransaction) := do
      let txindex : CTxIndex ← n.chain.txdb.pdb (.tx hash)
      let tx ← CTransaction.readFromDisk files txindex.pos
      return (txindex,tx)
    match found with
    | some (txindex,tx) =>
      match CBlock.readFromDisk P files txindex.pos.nFile txindex.pos.nBlockPos false with
      | some block => some (tx,block.getHash P)
      | none => some (tx,hashBlock)
    | none => (n.findDisconnected P files hash).map fun tx => (tx,hashBlock)

/-- Number of blocks on top of the one that the look-up of the transaction names. -/
def getInputAge (pool : MemPoolMaps) (n : Node) (vin : CTxIn) : ℤ :=
  match getTransaction P files pool n vin.prevout.hash 0 with
  | none => 0
  | some (_,hashBlock) =>
    match n.mapBlockIndex[hashBlock]? with
    | none => 0
    | some pindex => n.nBestHeight-pindex.nHeight

/-- No indexed block has the hash of the null header, or the hash zero. -/
structure Node.NoNullBlock (n : Node) : Prop where
  zero : n.mapBlockIndex[(0 : UInt256)]? = none
  null : n.mapBlockIndex[CBlock.setNull.getHash P]? = none

end

section

variable {P} {files : BlockFiles} {pool : MemPoolMaps} {n : Node}

theorem eq_setNull_of_readFromDisk_false {nFile nBlockPos b}
    (h : CBlock.readFromDisk P files nFile nBlockPos false = some b) : b = .setNull := by
  unfold CBlock.readFromDisk at h
  cases hopen : openBlockFile files nFile nBlockPos with
  | none => simp [hopen] at h
  | some filein =>
    rw [hopen] at h
    exact (some.inj h).symm

theorem hashBlock_of_getTransaction {hash hashBlock tx}
    (h : getTransaction P files pool n hash 0 = some (tx,hashBlock)) :
    hashBlock = 0 ∨ hashBlock = CBlock.setNull.getHash P := by
  unfold getTransaction at h
  split at h
  · exact .inl (Prod.mk.inj (some.inj h)).2.symm
  · dsimp only at h
    split at h
    · split at h
      · rename_i block hblock
        rw [← eq_setNull_of_readFromDisk_false hblock]
        exact .inr (Prod.mk.inj (some.inj h)).2.symm
      · exact .inl (Prod.mk.inj (some.inj h)).2.symm
    · obtain ⟨tx',-,heq⟩ := map_eq_some_iff.mp h
      exact .inl (Prod.mk.inj heq).2.symm

theorem Node.NoNullBlock.getElem?_hashBlock {hash hashBlock tx} (hn : n.NoNullBlock P)
    (h : getTransaction P files pool n hash 0 = some (tx,hashBlock)) :
    n.mapBlockIndex[hashBlock]? = none := by
  rcases hashBlock_of_getTransaction h with rfl | rfl
  · exact hn.zero
  · exact hn.null

/-- As long as no block has the hash of the null header, every input has age zero. -/
theorem Node.NoNullBlock.getInputAge_eq_zero (hn : n.NoNullBlock P) (vin) :
    getInputAge P files pool n vin = 0 := by
  unfold getInputAge
  cases hget : getTransaction P files pool n vin.prevout.hash 0 with
  | none => rfl
  | some found => simp only [hn.getElem?_hashBlock hget]

end

section

variable {P} {gen : CBlock} {files : BlockFiles} {n : Node} {tip : Tip}

def OnDisk (files : BlockFiles) (m : HashMap CBlockIndex) : Prop :=
  ∀ (h : UInt256) (p : CBlockIndex), m[h]? = some p →
    Stands files p.data.nFile p.data.nBlockPos p.data.block ∧
      p.data.nBlockPos.toNat+p.data.block.serialize.length < 2^32

theorem Linked.eq_or_isSome {pnext path ds} (h : Linked pnext path) (hs : d::ds <:+ path) :
    path = d::ds ∨ (pnext d.hashBlock).isSome := by
  induction path with
  | nil => cases suffix_nil.mp hs
  | cons e es ih =>
    rcases suffix_cons_iff.mp hs with he | hs
    · exact .inl he.symm
    · cases es with
      | nil => cases suffix_nil.mp hs
      | cons e' es =>
        rcases ih h.2 hs with he | hsome
        · cases he
          exact .inr (by rw [h.1]; rfl)
        · exact .inr hsome

variable {ds : List BlockIndexData} {tx : CTransaction} {pool : MemPoolMaps}

theorem Synced.recorded (hn : Synced P gen n)
    (hinj : Set.InjOn (getHash P) (treeTxs n.mapBlockIndex))
    (htip : n.tip = some tip) (hs : d::ds <:+ tip.pindexBest.path) (hne : ds ≠ [])
    (htx : tx ∈ d.block.vtx) :
    (n.chain.txdb.pdb (.tx (tx.getHash P))).isSome := by
  obtain ⟨tip',htip',htree,-,hcomm⟩ := hn.best
  obtain rfl := some.inj (htip.symm.trans htip')
  have htracks := hcomm.applied.tracks (hn.tree.sound hinj htree)
  have hmem : tx.getHash P ∈ (pathEntries P tip.pindexBest.path).map SpendIndex.Entry.id := by
    rw [map_id_pathEntries]
    exact mem_map_of_mem (mem_pathTxs.mpr ⟨d,ds,hs,hne,htx⟩)
  obtain ⟨e,he,hid⟩ := mem_map.mp hmem
  exact hid ▸ htracks.complete e he

theorem Synced.readFromDisk_record (hn : Synced P gen n)
    (hinj : Set.InjOn (getHash P) (treeTxs n.mapBlockIndex)) (hdisk : OnDisk files n.mapBlockIndex)
    (htx : tx ∈ treeTxs n.mapBlockIndex) {txindex}
    (hrec : n.chain.txdb.pdb (.tx (tx.getHash P)) = some txindex) :
    CTransaction.readFromDisk files txindex.pos = some tx ∧
      ∃ b, Stands files txindex.pos.nFile txindex.pos.nBlockPos b := by
  obtain ⟨tip,-,htree,-,hcomm⟩ := hn.best
  obtain ⟨e,he,hid,hpos,-⟩ := (hcomm.applied.tracks (hn.tree.sound hinj htree)).recorded _ _ hrec
  obtain ⟨x,hx,rfl⟩ := mem_map.mp he
  obtain ⟨d,ds,hs,hne,hx⟩ := mem_pathPositions.mp hx
  have hindex := hn.tree.mem_of_suffix htree hs
  obtain ⟨hstands,hlow⟩ := hdisk _ _ hindex
  have hsame : x.1 = tx := hinj ⟨_,_,hindex,fst_mem_of_mem_blockPositions hx⟩ htx hid
  have hsize : x.1.serialize.length ≤ MAX_SIZE :=
    ((hcomm.applied.checked d ds hs hne).txs x.1 (fst_mem_of_mem_blockPositions hx)).size.trans (by decide)
  have hread := readFromDisk_blockPositions hstands hlow hx hsize
  obtain ⟨hfile,hblock⟩ := mem_txPositions_pos hx
  rw [hpos]
  refine ⟨hread.trans (congrArg some hsame),d.block,?_⟩
  rw [show (txEntry P x).pos = x.2 from rfl,hfile,hblock]
  exact hstands

def HeaderReadBack (P : Params) (files : BlockFiles) (nFile nBlockPos : UInt32) (b : CBlock) :
    Prop :=
  ∃ b', CBlock.readFromDisk P files nFile nBlockPos false = some b' ∧
    b'.toCBlockHeader = b.toCBlockHeader ∧ b'.getHash P = b.getHash P

/-- The look-ups of a transaction of the block on top of `ds` give the hash of the
block and its depth below the tip. -/
def BlockReported (P : Params) (files : BlockFiles) (pool : MemPoolMaps) (n : Node)
    (tx : CTransaction) (d : BlockIndexData) (ds : List BlockIndexData) : Prop :=
  (∀ hashBlock, getTransaction P files pool n (tx.getHash P) hashBlock = some (tx,d.block.getHash P)) ∧
    ∀ txindex, n.chain.txdb.pdb (.tx (tx.getHash P)) = some txindex →
      CTxIndex.getDepthInMainChain P files n txindex = n.nBestHeight-ds.length+1

theorem headerReadBack_iff {nFile nBlockPos b} (hb : Stands files nFile nBlockPos b) :
    HeaderReadBack P files nFile nBlockPos b ↔
      b.toCBlockHeader = CBlock.setNull.toCBlockHeader := by
  rw [HeaderReadBack,readFromDisk_false hb]
  constructor
  · rintro ⟨b',hb',hheader,-⟩
    cases hb'
    exact hheader.symm
  · intro hheader
    refine ⟨_,rfl,hheader.symm,?_⟩
    simp only [CBlock.getHash,CBlock.getPoWHash,hheader]

/-- Whatever block the record is of, the look-up names the hash of the null header. -/
theorem Synced.getTransaction_record {txindex} (hn : Synced P gen n)
    (hinj : Set.InjOn (CTransaction.getHash P) (treeTxs n.mapBlockIndex))
    (hdisk : OnDisk files n.mapBlockIndex)
    (hpool : MemPoolMaps.Reached P pool) (htx : tx ∈ treeTxs n.mapBlockIndex)
    (hrec : n.chain.txdb.pdb (.tx (tx.getHash P)) = some txindex) (hashBlock : UInt256) :
    getTransaction P files pool n (tx.getHash P) hashBlock =
      some (tx,CBlock.setNull.getHash P) := by
  obtain ⟨hread,b,hb⟩ := hn.readFromDisk_record hinj hdisk htx hrec
  simp only [getTransaction,hpool.lookup,hrec,bind_eq_bind,bind_some,hread,readFromDisk_false hb,
    Option.pure_def]

theorem Committed.isInMainChain (hcomm : Committed P n.chain tip.pindexBest.path)
    (htip : n.tip = some tip) (hs : d::ds <:+ tip.pindexBest.path) : n.isInMainChain ⟨d,ds⟩ := by
  rw [Node.isInMainChain,htip,Bool.or_eq_true,decide_eq_true_eq]
  rcases hcomm.linked.eq_or_isSome hs with he | hsome
  · exact .inr (congrArg some (CBlockIndex.path_inj he))
  · exact .inl hsome

/-- A header is read back exactly if it is the null header. On a node whose blocks
stand in the files, a transaction of the best chain is found in its block exactly if it
is recorded and the hash of the block is the one of the null header. -/
theorem reported_iff_null (hn : Reach P gen (Attaches P) n)
    (hinj : Set.InjOn (getHash P) (treeTxs n.mapBlockIndex)) (hdisk : OnDisk files n.mapBlockIndex)
    (hpool : MemPoolMaps.Reached P pool) (htip : n.tip = some tip)
    (hs : d::ds <:+ tip.pindexBest.path) (htx : tx ∈ d.block.vtx) :
    (∀ (files : BlockFiles) (nFile nBlockPos : UInt32) (b : CBlock),
      Stands files nFile nBlockPos b →
      (HeaderReadBack P files nFile nBlockPos b ↔
        b.toCBlockHeader = CBlock.setNull.toCBlockHeader)) ∧
    (BlockReported P files pool n tx d ds ↔ (n.chain.txdb.pdb (.tx (tx.getHash P))).isSome ∧
      CBlock.setNull.getHash P = d.block.getHash P) ∧
    (ds ≠ [] → (n.chain.txdb.pdb (.tx (tx.getHash P))).isSome) := by
  have hsync := hn.synced (fun _ _ _ h => h) hinj
  refine ⟨fun files nFile nBlockPos b => headerReadBack_iff,?_,fun hne => hsync.recorded hinj htip hs hne htx⟩
  obtain ⟨tip',htip',htree,-,hcomm⟩ := hsync.best
  obtain rfl := some.inj (htip.symm.trans htip')
  have hindex := hsync.tree.mem_of_suffix htree hs
  have hhash : d.block.getHash P = d.hashBlock := hsync.tree.hash d.hashBlock ⟨d,ds⟩ hindex
  constructor
  · rintro ⟨hget,-⟩
    cases hrec : n.chain.txdb.pdb (.tx (tx.getHash P)) with
    | none =>
      -- without a record the hash of the block stays what the caller had
      have h := hget (d.block.getHash P+1)
      simp only [getTransaction,hpool.lookup,hrec,bind_eq_bind,bind_none] at h
      obtain ⟨tx',-,heq⟩ := map_eq_some_iff.mp h
      exact absurd (Prod.mk.inj heq).2 (by simp)
    | some txindex =>
      have h := hget 0
      rw [hsync.getTransaction_record hinj hdisk hpool ⟨_,_,hindex,htx⟩ hrec] at h
      exact ⟨rfl,(Prod.mk.inj (some.inj h)).2⟩
  · rintro ⟨hsome,hnull⟩
    obtain ⟨txindex,hrec⟩ := isSome_iff_exists.mp hsome
    refine ⟨fun hashBlock => ?_,fun txindex' hrec' => ?_⟩
    · rw [hsync.getTransaction_record hinj hdisk hpool ⟨_,_,hindex,htx⟩ hrec,hnull]
    · obtain ⟨-,b,hb⟩ := hsync.readFromDisk_record hinj hdisk ⟨_,_,hindex,htx⟩ hrec'
      have hmain := hcomm.isInMainChain htip hs
      simp only [CTxIndex.getDepthInMainChain,readFromDisk_false hb,hnull,hhash,hindex,hmain,if_true,
        CBlockIndex.nHeight]
      omega

end

namespace Sample

def onA₁ : Node := call files a₁ (started.addIndex acceptEnv a₁)

def blockFiles : BlockFiles := fun nFile =>
  if nFile = 1 then
    some (genesis.block.serialize++List.replicate (1000-genesis.block.serialize.length) 0++a₁.data.block.serialize)
  else none

def minted : CTransaction := coinbase 1 200 COIN

def pairBlock : CBlock := block 0 200 [minted,payment 200 [⟨5,0⟩] [⟨COIN,opTrue⟩]]

theorem reach_onA₁ : Reach chainParams genesis.block (Attaches chainParams) onA₁ :=
  reach_a₁ attaches_a₁

theorem onDisk_of_forall {m} (h : ∀ e ∈ m.toList,
    (openBlockFile blockFiles e.2.data.nFile e.2.data.nBlockPos).any
      e.2.data.block.serialize.isPrefixOf ∧
      e.2.data.nBlockPos.toNat+e.2.data.block.serialize.length < 2^32) : OnDisk blockFiles m := by
  intro k p hp
  obtain ⟨hbytes,hlow⟩ := h (k,p) (Std.ExtTreeMap.mem_toList_iff_getElem?_eq_some.mpr hp)
  obtain ⟨l,hl,hpre⟩ := (any_eq_true _ _).mp hbytes
  obtain ⟨rest,rfl⟩ := isPrefixOf_iff_prefix.mp hpre
  exact ⟨⟨rest,hl⟩,hlow⟩

theorem onDisk_onA₁ : OnDisk blockFiles onA₁.mapBlockIndex := onDisk_of_forall (by decide +kernel)

end Sample

open Sample

theorem readFromDisk_index_a₁ :
    CBlockIndex.readFromDisk chainParams blockFiles a₁ true =
      readFromDisk chainParams (files a₁) a₁ :=
  readFromDisk_index rfl (onDisk_onA₁ a₁.getBlockHash a₁ (by decide +kernel)).1 (by decide +kernel)

theorem blockPositions_readBack_pair :
    ∃ files, ∃ d : BlockIndexData, d.block.vtx.length = 2 ∧
      ∀ x ∈ blockPositions d d.block false, CTransaction.readFromDisk files x.2 = some x.1 := by
  have happend : appendBlockFile (fun _ => none) 1 = some (1,[]) := by
    rw [appendBlockFile,dif_neg (by decide)]
    rfl
  obtain ⟨files,nBlockPos,hwrite⟩ : ∃ files nBlockPos,
      pairBlock.writeToDisk [1,2,3,4] (fun _ => none) 1 = some (files,1,nBlockPos) :=
    ⟨_,_,by rw [CBlock.writeToDisk,happend]; rfl⟩
  have hstored := Stored.index (P := chainParams) (.start _) (by decide +kernel) hwrite (by decide) 0
  have hmem : ∀ p : CBlockIndex, p.data ∈ p.path := fun _ => mem_cons_self
  have hread := blockPositions_readBack hstored rfl Std.ExtTreeMap.getElem?_insert_self (hmem _)
  exact ⟨files,_,(rfl : pairBlock.vtx.length = 2),fun x hx => (hread.2 x hx).2⟩

theorem reported_iff_null_a₁ :
    ¬ BlockReported chainParams blockFiles .empty onA₁ minted a₁.data
      [genesis] := by
  have htip : onA₁.tip.map Tip.pindexBest = some a₁ := by decide +kernel
  obtain ⟨tip,htip,hbest⟩ := map_eq_some_iff.mp htip
  have hs : a₁.data::[genesis] <:+ tip.pindexBest.path := by
    rw [hbest]
    exact suffix_rfl
  have htx : minted ∈ a₁.data.block.vtx := by decide +kernel
  have hiff := (reported_iff_null reach_onA₁ (injOn_treeTxs (by decide +kernel)) onDisk_onA₁
    .empty htip hs htx).2.1
  exact fun h => absurd (hiff.mp h).2 (by decide +kernel)

/-- The coinbase of the best block: its block is read back without its header, the
look-up of the transaction names the hash of the null header, and the depth is zero. -/
theorem block_not_reported :
    Stands blockFiles a₁.data.nFile a₁.data.nBlockPos a₁.data.block ∧
    ¬ HeaderReadBack chainParams blockFiles a₁.data.nFile a₁.data.nBlockPos
      a₁.data.block ∧
    getTransaction chainParams blockFiles .empty onA₁ (minted.getHash chainParams) 0 =
      some (minted,CBlock.setNull.getHash chainParams) ∧
    CBlock.setNull.getHash chainParams ≠ a₁.getBlockHash ∧
    ∃ txindex, onA₁.chain.txdb.pdb (.tx (minted.getHash chainParams)) = some txindex ∧
      CTxIndex.getDepthInMainChain chainParams blockFiles onA₁ txindex = 0 ∧
      onA₁.nBestHeight-a₁.nHeight+1 = 1 := by
  have hstands := (onDisk_onA₁ a₁.getBlockHash a₁ (by decide +kernel)).1
  refine ⟨hstands,?_,by decide +kernel,by decide +kernel,?_⟩
  · rintro ⟨b',hb',-,hhash⟩
    rw [readFromDisk_false hstands] at hb'
    cases hb'
    exact absurd hhash (by decide +kernel)
  · have hrec : (onA₁.chain.txdb.pdb (.tx (minted.getHash chainParams))).map
        (CTxIndex.getDepthInMainChain chainParams blockFiles onA₁) = some 0 := by decide +kernel
    obtain ⟨txindex,hrec,hdepth⟩ := map_eq_some_iff.mp hrec
    exact ⟨txindex,hrec,hdepth,by decide +kernel⟩

end DarkSilk
