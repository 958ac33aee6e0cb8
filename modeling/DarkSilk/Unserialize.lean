import DarkSilk.Decoder
import DarkSilk.Primitives

/-! Reading transactions and blocks. A length that could be written shorter is refused, so
every string of bytes that is read is the one that would be written: the readers undo the
serialisation in both directions. -/
namespace DarkSilk

open PrefixCode List Option

def MAX_SIZE : ℕ := 0x02000000

/-- The number behind the mark of a compact size; a number that fits a shorter form is refused. -/
def readCanonical (least k : ℕ) : Reader UInt8 ℕ := do
  let xSize ← readLE k
  if xSize < least then failure else return xSize

def readMarked (chSize : ℕ) : Reader UInt8 ℕ :=
  if chSize < 253 then pure chSize
  else if chSize = 253 then readCanonical 253 2
  else if chSize = 254 then readCanonical 0x10000 4
  else readCanonical 0x100000000 8

def readCompactSize : Reader UInt8 ℕ := do
  let chSize ← readLE 1
  let nSizeRet ← readMarked chSize
  if nSizeRet > MAX_SIZE then failure else return nSizeRet

def readVector {α : Type} (dec : Reader UInt8 α) : Reader UInt8 (List α) :=
  readCompactSize >>= readMany dec

def readScript : Reader UInt8 CScript := readVector readOne

def readUInt32 : Reader UInt8 UInt32 := UInt32.ofNat <$> readLE 4

def readInt32 : Reader UInt8 Int32 := (fun n => Int32.ofUInt32 (UInt32.ofNat n)) <$> readLE 4

def readUInt256 : Reader UInt8 UInt256 := BitVec.ofNat 256 <$> readLE 32

def readAmount : Reader UInt8 CAmount := (fun n => Int64.ofUInt64 (UInt64.ofNat n)) <$> readLE 8

def COutPoint.unserialize : Reader UInt8 COutPoint := do
  let hash ← readUInt256
  let n ← readUInt32
  return ⟨hash,n⟩

def CTxIn.unserialize : Reader UInt8 CTxIn := do
  let prevout ← COutPoint.unserialize
  let scriptSig ← readScript
  let nSequence ← readUInt32
  return ⟨prevout,scriptSig,nSequence⟩

def CTxOut.unserialize : Reader UInt8 CTxOut := do
  let nValue ← readAmount
  let scriptPubKey ← readScript
  return ⟨nValue,scriptPubKey⟩

def CTransaction.unserialize : Reader UInt8 CTransaction := do
  let nVersion ← readInt32
  let nTime ← readUInt32
  let vin ← readVector CTxIn.unserialize
  let vout ← readVector CTxOut.unserialize
  let nLockTime ← readUInt32
  return ⟨nVersion,nTime,vin,vout,nLockTime⟩

def CBlockHeader.unserialize : Reader UInt8 CBlockHeader := do
  let nVersion ← readInt32
  let hashPrevBlock ← readUInt256
  let hashMerkleRoot ← readUInt256
  let nTime ← readUInt32
  let nBits ← readUInt32
  let nNonce ← readUInt32
  return ⟨nVersion,hashPrevBlock,hashMerkleRoot,nTime,nBits,nNonce⟩

/-! The type of a stream, a set of flags. -/
namespace Ser

def DISK : UInt32 := 2
def GETHASH : UInt32 := 4
def BLOCKHEADERONLY : UInt32 := 0x20000

end Ser

/-- Header and body stand under one test of the type. -/
def CBlock.serializeAs (nType : UInt32) (b : CBlock) : List UInt8 :=
  if nType &&& (Ser.GETHASH ||| Ser.BLOCKHEADERONLY) = 0 then b.serialize else []

/-- What is read into a block; the fields that the type leaves out stay as they were. -/
def CBlock.unserialize (nType : UInt32) (b : CBlock) : Reader UInt8 CBlock :=
  if nType &&& (Ser.GETHASH ||| Ser.BLOCKHEADERONLY) = 0 then do
    let header ← CBlockHeader.unserialize
    let vtx ← readVector CTransaction.unserialize
    let vchBlockSig ← readScript
    return ⟨header,vtx,vchBlockSig⟩
  else return { b with vtx := [], vchBlockSig := [] }

theorem writeCompactSize_eq_append (n) :
    writeCompactSize n = leBytes 1 (compactMark n)++leBytes (compactWidth (compactMark n)) n :=
  writeCompactSize_eq n

theorem run_readCanonical (least k) {n} (hn : n < 256^k) (hle : least ≤ n) (r) :
    (readCanonical least k).run (leBytes k n++r) = some (n,r) := by
  rw [readCanonical,(reads_readLE k).run_bind hn,if_neg (not_lt.mpr hle)]
  rfl

theorem run_readMarked {n} (hn : n < 2^64) (r) :
    (readMarked (compactMark n)).run (leBytes (compactWidth (compactMark n)) n++r) =
      some (n,r) := by
  unfold compactMark
  split_ifs with h1 h2 h3
  · rw [readMarked,if_pos h1,compactWidth,if_pos h1]
    rfl
  · exact run_readCanonical 253 2 (by omega) (by omega) r
  · exact run_readCanonical 0x10000 4 (by omega) (by omega) r
  · exact run_readCanonical 0x100000000 8 (by omega) (by omega) r

theorem reads_readCompactSize : Reads (fun n => n ≤ MAX_SIZE) writeCompactSize readCompactSize := by
  intro n hn r
  have hmark : compactMark n < 256^1 := by simpa using compactMark_lt n
  have hmax : n < 2^64 := lt_of_le_of_lt hn (by decide)
  rw [writeCompactSize_eq_append,append_assoc,readCompactSize,(reads_readLE 1).run_bind hmark,
    StateT.run_bind,run_readMarked hmax]
  simp only [bind_eq_bind,bind_some]
  rw [if_neg (not_lt.mpr hn)]
  rfl

theorem reads_readScript : Reads (fun s : CScript => s.length ≤ MAX_SIZE) writeScript readScript :=
  (reads_readCompactSize.counted reads_readOne).mono fun _ h => ⟨h,fun _ _ => trivial⟩

theorem reads_uint32 : Reads (fun _ => True) (fun v : UInt32 => leBytes 4 v.toNat) readUInt32 :=
  reads_field 4 (fun v => UInt32.ofNat_toNat) fun v => by simpa using v.toNat_lt

theorem reads_int32 :
    Reads (fun _ => True) (fun v : Int32 => leBytes 4 v.toUInt32.toNat) readInt32 :=
  reads_field 4 (fun v => by rw [UInt32.ofNat_toNat]) fun v => by simpa using v.toUInt32.toNat_lt

theorem reads_uint256 : Reads (fun _ => True) (fun v : UInt256 => leBytes 32 v.toNat) readUInt256 :=
  reads_field 32 (fun v => BitVec.ofNat_toNat 256 v) fun v => by simpa using v.isLt

theorem reads_amount :
    Reads (fun _ => True) (fun v : CAmount => leBytes 8 v.toUInt64.toNat) readAmount :=
  reads_field 8 (fun v => by rw [UInt64.ofNat_toNat]) fun v => by simpa using v.toUInt64.toNat_lt

theorem reads_outPoint : Reads (fun _ => True) COutPoint.serialize COutPoint.unserialize := by
  intro o _ r
  rw [COutPoint.serialize,append_assoc,COutPoint.unserialize,reads_uint256.next, reads_uint32.next]
  rfl

theorem reads_txIn :
    Reads (fun i : CTxIn => i.scriptSig.length ≤ MAX_SIZE) CTxIn.serialize CTxIn.unserialize := by
  intro i hi r
  rw [CTxIn.serialize,append_assoc,append_assoc,CTxIn.unserialize,reads_outPoint.next,
    reads_readScript.run_bind hi,reads_uint32.next]
  rfl

theorem reads_txOut :
    Reads (fun o : CTxOut => o.scriptPubKey.length ≤ MAX_SIZE) CTxOut.serialize
      CTxOut.unserialize := by
  intro o ho r
  rw [CTxOut.serialize,append_assoc,CTxOut.unserialize,reads_amount.next, reads_readScript.run_bind ho]
  rfl

structure CTransaction.WithinMax (tx : CTransaction) : Prop where
  vin : tx.vin.length ≤ MAX_SIZE
  vout : tx.vout.length ≤ MAX_SIZE
  scriptSig : ∀ i ∈ tx.vin, i.scriptSig.length ≤ MAX_SIZE
  scriptPubKey : ∀ o ∈ tx.vout, o.scriptPubKey.length ≤ MAX_SIZE

theorem CTransaction.withinMax_of_length {tx : CTransaction} (h : tx.serialize.length ≤ MAX_SIZE) :
    tx.WithinMax := by
  obtain ⟨hin,hsig,hkey⟩ := tx.lengths_le
  exact ⟨hin.trans h,tx.vout_length_le.trans h,fun i hi => (hsig i hi).trans h,fun o ho => (hkey o ho).trans h⟩

theorem reads_transaction :
    Reads CTransaction.WithinMax CTransaction.serialize CTransaction.unserialize := by
  intro tx h r
  have hvin := reads_readCompactSize.counted reads_txIn
  have hvout := reads_readCompactSize.counted reads_txOut
  simp only [CTransaction.serialize,append_assoc]
  rw [CTransaction.unserialize,reads_int32.next,reads_uint32.next,
    readVector,writeVector,hvin.run_bind ⟨h.vin,h.scriptSig⟩,readVector,writeVector,
    hvout.run_bind ⟨h.vout,h.scriptPubKey⟩,reads_uint32.next]
  rfl

theorem reads_header : Reads (fun _ => True) CBlockHeader.serialize CBlockHeader.unserialize := by
  intro b _ r
  simp only [CBlockHeader.serialize,append_assoc]
  rw [CBlockHeader.unserialize,reads_int32.next,reads_uint256.next,
    reads_uint256.next,reads_uint32.next,reads_uint32.next,
    reads_uint32.next]
  rfl

structure CBlock.WithinMax (b : CBlock) : Prop where
  vtx : b.vtx.length ≤ MAX_SIZE
  txs : ∀ tx ∈ b.vtx, tx.WithinMax
  vchBlockSig : b.vchBlockSig.length ≤ MAX_SIZE

theorem CBlock.withinMax_of_length {b : CBlock} (h : b.serialize.length ≤ MAX_SIZE) :
    b.WithinMax := by
  have hvtx : b.vtx.length ≤ (writeVector CTransaction.serialize b.vtx).length := length_le_length_writeVector
    (fun tx => by simp only [CTransaction.serialize,length_append,length_leBytes]; omega) b.vtx
  have hsig := length_le_length_writeScript b.vchBlockSig
  simp only [CBlock.serialize,length_append] at h
  refine ⟨by omega,fun tx htx => CTransaction.withinMax_of_length ?_,by omega⟩
  have := length_le_length_flatMap CTransaction.serialize htx
  omega

theorem reads_block {nType} (hType : nType &&& (Ser.GETHASH ||| Ser.BLOCKHEADERONLY) = 0) (b₀) :
    Reads CBlock.WithinMax CBlock.serialize (CBlock.unserialize nType b₀) := by
  intro b h r
  have hvtx := reads_readCompactSize.counted reads_transaction
  simp only [CBlock.serialize,append_assoc]
  rw [CBlock.unserialize,if_pos hType,reads_header.next,readVector,writeVector,
    hvtx.run_bind ⟨h.vtx,h.txs⟩,reads_readScript.run_bind h.vchBlockSig]
  rfl

theorem readCanonical_eq_some {least k l r n} (h : (readCanonical least k).run l = some (n,r)) :
    l = leBytes k n++r ∧ least ≤ n ∧ n < 256^k := by
  rw [readCanonical,StateT.run_bind] at h
  obtain ⟨⟨m,l'⟩,hm,hn⟩ := bind_eq_some_iff.mp h
  split_ifs at hn with hlt
  · cases hn
  cases hn
  exact ⟨inverts_readLE k hm,not_lt.mp hlt,yields_readLE k hm⟩

theorem readMarked_eq_some {chSize} (hmark : chSize < 256) {l r n}
    (h : (readMarked chSize).run l = some (n,r)) :
    compactMark n = chSize ∧ l = leBytes (compactWidth chSize) n++r := by
  unfold readMarked at h
  unfold compactMark compactWidth
  split_ifs at h with h1 h2 h3
  · cases h
    simp [h1,leBytes]
  · obtain ⟨rfl,hleast,hlt⟩ := readCanonical_eq_some h
    simp only [h2]
    constructor
    · split_ifs <;> omega
    · simp
  · obtain ⟨rfl,hleast,hlt⟩ := readCanonical_eq_some h
    simp only [h3]
    constructor
    · split_ifs <;> omega
    · simp
  · obtain ⟨rfl,hleast,hlt⟩ := readCanonical_eq_some h
    constructor
    · split_ifs <;> omega
    · simp [h1,h2,h3]

theorem inverts_readCompactSize : Inverts writeCompactSize readCompactSize := by
  intro l n r h
  rw [readCompactSize,StateT.run_bind] at h
  obtain ⟨⟨chSize,l'⟩,hch,h⟩ := bind_eq_some_iff.mp h
  rw [StateT.run_bind] at h
  obtain ⟨⟨m,l''⟩,hm,h⟩ := bind_eq_some_iff.mp h
  split_ifs at h with hmax
  · cases h
  cases h
  obtain ⟨hmark,hrest⟩ := readMarked_eq_some (by simpa using yields_readLE 1 hch) hm
  rw [writeCompactSize_eq_append,hmark,append_assoc,← hrest]
  exact inverts_readLE 1 hch

theorem inverts_readVector {α : Type} {enc : α → List UInt8} {dec : Reader UInt8 α}
    (h : Inverts enc dec) :
    Inverts (writeVector enc) (readVector dec) :=
  inverts_readCompactSize.counted h

theorem inverts_readScript : Inverts writeScript readScript := inverts_readVector inverts_readOne

theorem inverts_uint32 : Inverts (fun v : UInt32 => leBytes 4 v.toNat) readUInt32 :=
  inverts_field 4 fun n hn => by
    rw [UInt32.toNat_ofNat']
    omega

theorem inverts_int32 : Inverts (fun v : Int32 => leBytes 4 v.toUInt32.toNat) readInt32 :=
  inverts_field 4 fun n hn => by
    change (UInt32.ofNat n).toNat = n
    rw [UInt32.toNat_ofNat']
    omega

theorem inverts_uint256 : Inverts (fun v : UInt256 => leBytes 32 v.toNat) readUInt256 :=
  inverts_field 32 fun n hn => by
    rw [BitVec.toNat_ofNat]
    omega

theorem inverts_amount : Inverts (fun v : CAmount => leBytes 8 v.toUInt64.toNat) readAmount :=
  inverts_field 8 fun n hn => by
    change (UInt64.ofNat n).toNat = n
    rw [UInt64.toNat_ofNat']
    omega

theorem inverts_outPoint : Inverts COutPoint.serialize COutPoint.unserialize := by
  intro l o r h
  obtain ⟨hash,l₁,rfl,h1⟩ := inverts_uint256.of_bind h
  obtain ⟨n,l₂,rfl,h2⟩ := inverts_uint32.of_bind h1
  cases h2
  simp [COutPoint.serialize]

theorem inverts_txIn : Inverts CTxIn.serialize CTxIn.unserialize := by
  intro l i r h
  obtain ⟨prevout,l₁,rfl,h1⟩ := inverts_outPoint.of_bind h
  obtain ⟨scriptSig,l₂,rfl,h2⟩ := inverts_readScript.of_bind h1
  obtain ⟨nSequence,l₃,rfl,h3⟩ := inverts_uint32.of_bind h2
  cases h3
  simp [CTxIn.serialize]

theorem inverts_txOut : Inverts CTxOut.serialize CTxOut.unserialize := by
  intro l o r h
  obtain ⟨nValue,l₁,rfl,h1⟩ := inverts_amount.of_bind h
  obtain ⟨scriptPubKey,l₂,rfl,h2⟩ := inverts_readScript.of_bind h1
  cases h2
  simp [CTxOut.serialize]

theorem inverts_transaction : Inverts CTransaction.serialize CTransaction.unserialize := by
  intro l tx r h
  obtain ⟨nVersion,l₁,rfl,h1⟩ := inverts_int32.of_bind h
  obtain ⟨nTime,l₂,rfl,h2⟩ := inverts_uint32.of_bind h1
  obtain ⟨vin,l₃,rfl,h3⟩ := (inverts_readVector inverts_txIn).of_bind h2
  obtain ⟨vout,l₄,rfl,h4⟩ := (inverts_readVector inverts_txOut).of_bind h3
  obtain ⟨nLockTime,l₅,rfl,h5⟩ := inverts_uint32.of_bind h4
  cases h5
  simp [CTransaction.serialize]

theorem inverts_header : Inverts CBlockHeader.serialize CBlockHeader.unserialize := by
  intro l b r h
  obtain ⟨nVersion,l₁,rfl,h1⟩ := inverts_int32.of_bind h
  obtain ⟨hashPrevBlock,l₂,rfl,h2⟩ := inverts_uint256.of_bind h1
  obtain ⟨hashMerkleRoot,l₃,rfl,h3⟩ := inverts_uint256.of_bind h2
  obtain ⟨nTime,l₄,rfl,h4⟩ := inverts_uint32.of_bind h3
  obtain ⟨nBits,l₅,rfl,h5⟩ := inverts_uint32.of_bind h4
  obtain ⟨nNonce,l₆,rfl,h6⟩ := inverts_uint32.of_bind h5
  cases h6
  simp [CBlockHeader.serialize]

theorem inverts_block (nType b₀) :
    Inverts (CBlock.serializeAs nType) (CBlock.unserialize nType b₀) := by
  intro l b r h
  unfold CBlock.unserialize at h
  unfold CBlock.serializeAs
  split_ifs at h ⊢ with hType
  · obtain ⟨header,l₁,rfl,h1⟩ := inverts_header.of_bind h
    obtain ⟨vtx,l₂,rfl,h2⟩ := (inverts_readVector inverts_transaction).of_bind h1
    obtain ⟨vchBlockSig,l₃,rfl,h3⟩ := inverts_readScript.of_bind h2
    cases h3
    simp [CBlock.serialize]
  · cases h
    rfl

/-- The bytes of a transaction and of a block are the only ones that are read as it. A string
that is read completely is the serialisation of what is read; a transaction or block with
vectors of readable lengths comes back from its serialisation, whatever it is read into. -/
theorem encodings_unique (P : Params) :
    (∀ (l : List UInt8) (tx : CTransaction), CTransaction.unserialize.run l = some (tx,[]) →
      tx.serialize = l) ∧
    (∀ (nType : UInt32) (b₀ b : CBlock) (l : List UInt8), (CBlock.unserialize nType b₀).run l =
      some (b,[]) →
      b.serializeAs nType = l) ∧
    (∀ tx : CTransaction, tx.WithinMax →
      ∃ tx', CTransaction.unserialize.run tx.serialize = some (tx',[]) ∧
      tx' = tx ∧ tx'.getHash P = tx.getHash P) ∧
    (∀ (nType : UInt32) (b₀ b : CBlock), nType &&& (Ser.GETHASH ||| Ser.BLOCKHEADERONLY) = 0 →
      b.WithinMax →
      ∃ b', (CBlock.unserialize nType b₀).run (b.serializeAs nType) = some (b',[]) ∧ b' = b ∧
        b'.getHash P = b.getHash P) ∧
    ∀ (l l' : List UInt8) (tx : CTransaction), CTransaction.unserialize.run l = some (tx,[]) →
      CTransaction.unserialize.run l' = some (tx,[]) → l = l' := by
  refine ⟨?_,?_,?_,?_,?_⟩
  · intro l tx h
    simpa using (inverts_transaction h).symm
  · intro nType b₀ b l h
    simpa using (inverts_block nType b₀ h).symm
  · intro tx h
    exact ⟨tx,by simpa using reads_transaction h [],rfl,rfl⟩
  · intro nType b₀ b hType h
    refine ⟨b,?_,rfl,rfl⟩
    rw [CBlock.serializeAs,if_pos hType]
    simpa using reads_block hType b₀ h []
  · intro l l' tx h h'
    rw [inverts_transaction h,inverts_transaction h']

namespace Sample

/-- One output whose script is long enough for a length of three bytes. -/
def longScriptTx : CTransaction := ⟨1,0,[],[⟨5,List.replicate 253 0⟩],0⟩

def longScriptBlock : CBlock := ⟨⟨2,0,0,0,0,0⟩,[longScriptTx],[1,2]⟩

theorem withinMax_longScriptTx : longScriptTx.WithinMax :=
  CTransaction.withinMax_of_length (by decide +kernel)

def anyParams : Params :=
  ⟨fun _ => 0,fun _ => 0,fun _ => 0,fun _ _ _ _ => true,fun _ => true,fun _ _ => 0,fun _ => true,fun _ _ => true,
    false,0,0,0⟩

end Sample

open Sample

theorem encodings_unique_longScript :
    CTransaction.unserialize.run longScriptTx.serialize = some (longScriptTx,[]) ∧
    longScriptBlock.serializeAs Ser.DISK = longScriptBlock.serialize ∧
    (CBlock.unserialize Ser.DISK .setNull).run longScriptBlock.serialize =
      some (longScriptBlock,[]) := by
  obtain ⟨-,-,htx,hread,-⟩ := encodings_unique anyParams
  obtain ⟨tx,hrun,rfl,-⟩ := htx longScriptTx withinMax_longScriptTx
  obtain ⟨b,hrun',rfl,-⟩ := hread Ser.DISK .setNull longScriptBlock (by decide)
    (CBlock.withinMax_of_length (by decide +kernel))
  exact ⟨hrun,if_pos (by decide),hrun'⟩

end DarkSilk
