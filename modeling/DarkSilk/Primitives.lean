import DarkSilk.PrefixCode

/-! Amounts, transactions and blocks with their serialisation, identifiers and the
Merkle root. Hash functions, signature checks and policy tests are parameters. -/
namespace DarkSilk

open PrefixCode List

abbrev UInt256 := BitVec 256
abbrev UInt160 := BitVec 160
instance : Std.TransOrd UInt256 := inferInstance
/-- Amounts are signed 64-bit numbers; sums wrap. -/
abbrev CAmount := Int64
abbrev CScript := List UInt8

def COIN : CAmount := 100000000
def CENT : CAmount := 1000000
def MAX_MONEY : CAmount := 90000000*COIN
def STATIC_POS_REWARD : CAmount := 1000000
def STATIC_POW_REWARD : CAmount := COIN
def MAX_BLOCK_SIZE : ℕ := 20000000
def MAX_BLOCK_SIGOPS : ℕ := MAX_BLOCK_SIZE/50
def MAX_TX_SIGOPS : ℕ := MAX_BLOCK_SIGOPS/5

def moneyRange (nValue : CAmount) : Bool := 0 ≤ nValue && nValue ≤ MAX_MONEY

theorem moneyRange_iff (v) : moneyRange v ↔ 0 ≤ v.toInt ∧ v.toInt ≤ 9000000000000000 := by
  have hm : MAX_MONEY.toInt = 9000000000000000 := by decide
  simp [moneyRange,Int64.le_iff_toInt_le,hm]

/-- A refusal: the misbehaviour score given to the peer and the text of the error. -/
structure Reject where
  nDoS : ℕ
  error : String
  deriving DecidableEq, Repr

def require (b : Bool) (nDoS : ℕ) (error : String) : Except Reject Unit :=
  if b then .ok () else .error ⟨nDoS,error⟩

variable {u : Unit} {ε α β : Type} {a v : CAmount}

@[simp] theorem require_eq_ok {b n e} : require b n e = .ok u ↔ b := by
  cases b <;> simp [require]

theorem bind_eq_ok {x : Except ε α} {f : α → Except ε β} {b : β} :
    (x >>= f) = .ok b ↔ ∃ a, x = .ok a ∧ f a = .ok b := by
  cases x <;> simp [bind,Except.bind]

@[simp] theorem andThen_eq_ok {x : Except ε Unit} {y : Except ε β} {b : β} :
    (x >>= fun _ => y) = .ok b ↔ x = .ok () ∧ y = .ok b := by
  cases x <;> simp [bind,Except.bind]

/-- Run a check on every element, in order; the first failure is the result. -/
def checkAll {α : Type} (f : α → Except Reject Unit) : List α → Except Reject Unit
  | [] => .ok ()
  | a::l => do f a; checkAll f l

@[simp] theorem checkAll_eq_ok {f : α → Except Reject Unit} {l : List α} :
    checkAll f l = .ok u ↔ ∀ a ∈ l, f a = .ok () := by
  induction l with
  | nil => simp [checkAll]
  | cons a l ih => simp [checkAll,ih]

structure COutPoint where
  hash : UInt256
  n : UInt32
  deriving DecidableEq, Repr

namespace COutPoint

def setNull : COutPoint := ⟨0,0xFFFFFFFF⟩

def isNull (o : COutPoint) : Bool := o.hash = 0 && o.n = 0xFFFFFFFF

theorem isNull_iff (o) : o.isNull ↔ o = setNull := by
  rcases o with ⟨h,n⟩
  simp [isNull,setNull]

def serialize (o : COutPoint) : List UInt8 := leBytes 32 o.hash.toNat++leBytes 4 o.n.toNat

end COutPoint

structure CTxIn where
  prevout : COutPoint
  scriptSig : CScript
  nSequence : UInt32
  deriving DecidableEq, Repr

structure CTxOut where
  nValue : CAmount
  scriptPubKey : CScript
  deriving DecidableEq, Repr

def CTxOut.setEmpty : CTxOut := ⟨0,[]⟩

def CTxOut.isEmpty (o : CTxOut) : Bool := o.nValue = 0 && o.scriptPubKey.isEmpty

structure CTransaction where
  nVersion : Int32
  nTime : UInt32
  vin : List CTxIn
  vout : List CTxOut
  nLockTime : UInt32
  deriving DecidableEq, Repr

namespace CTransaction

def isCoinBase (tx : CTransaction) : Bool :=
  match tx.vin with
  | [txin] => txin.prevout.isNull && 1 ≤ tx.vout.length
  | _ => false

/-- The coin stake transaction is marked by an empty first output. -/
def isCoinStake (tx : CTransaction) : Bool :=
  match tx.vin, tx.vout with
  | txin::_, txout::_::_ => !txin.prevout.isNull && txout.isEmpty
  | _, _ => false

theorem isCoinStake_eq_false_of_isCoinBase {tx : CTransaction} (h : tx.isCoinBase) :
    tx.isCoinStake = false := by
  rcases tx with ⟨v,t,_ | ⟨i,_ | _⟩,vout,l⟩ <;> simp [isCoinBase] at h
  rcases vout with _ | ⟨o,_ | ⟨o',os⟩⟩ <;> simp [isCoinStake,h]

def prevouts (tx : CTransaction) : List COutPoint := tx.vin.map CTxIn.prevout

/-- The running 64-bit sum of the outputs; an amount or a partial sum outside the
money range throws. -/
def addValueOut : CAmount → List CTxOut → Option CAmount
  | nValueOut, [] => some nValueOut
  | nValueOut, o::vout =>
    if moneyRange o.nValue && moneyRange (nValueOut+o.nValue) then addValueOut (nValueOut+o.nValue) vout
    else none

def getValueOut (tx : CTransaction) : Option CAmount := addValueOut 0 tx.vout

end CTransaction

def valueSum (vout : List CTxOut) : ℤ := (vout.map fun o => o.nValue.toInt).sum

@[simp] theorem valueSum_nil : valueSum [] = 0 := rfl

@[simp] theorem valueSum_cons (o vout) : valueSum (o::vout) = o.nValue.toInt+valueSum vout := rfl

theorem toInt_add_of_moneyRange {b} (ha : moneyRange a) (hb : moneyRange b) :
    (a+b).toInt = a.toInt+b.toInt := by
  rw [moneyRange_iff] at ha hb
  rw [Int64.toInt_add,Int.bmod_eq_of_le] <;> omega

/-- Money range at every step rules overflow out: the sum is the exact one. -/
theorem addValueOut_toInt {vout} (ha : moneyRange a)
    (h : CTransaction.addValueOut a vout = some v) :
    v.toInt = a.toInt+valueSum vout ∧ moneyRange v ∧ ∀ o ∈ vout, moneyRange o.nValue := by
  induction vout generalizing a with
  | nil =>
    rw [CTransaction.addValueOut,Option.some.injEq] at h
    subst h
    simp [ha]
  | cons o vout ih =>
    rw [CTransaction.addValueOut] at h
    split_ifs at h with hc
    rw [Bool.and_eq_true] at hc
    obtain ⟨h1,h2,h3⟩ := ih hc.2 h
    refine ⟨?_,h2,forall_mem_cons.mpr ⟨hc.1,h3⟩⟩
    rw [h1,toInt_add_of_moneyRange ha hc.1,valueSum_cons]
    omega

theorem CTransaction.getValueOut_toInt {tx : CTransaction} (h : tx.getValueOut = some v) :
    v.toInt = valueSum tx.vout ∧ moneyRange v ∧ ∀ o ∈ tx.vout, moneyRange o.nValue := by
  simpa using addValueOut_toInt (a := 0) (by decide) h

def writeCompactSize (n : ℕ) : List UInt8 :=
  if n < 253 then [UInt8.ofNat n]
  else if n ≤ 0xFFFF then 253::leBytes 2 n
  else if n ≤ 0xFFFFFFFF then 254::leBytes 4 n
  else 255::leBytes 8 n

def getSizeOfCompactSize (n : ℕ) : ℕ :=
  if n < 253 then 1 else if n ≤ 0xFFFF then 3 else if n ≤ 0xFFFFFFFF then 5 else 9

theorem length_writeCompactSize (n) : (writeCompactSize n).length = getSizeOfCompactSize n := by
  unfold writeCompactSize getSizeOfCompactSize
  split_ifs <;> simp

def writeVector {α : Type} (enc : α → List UInt8) (l : List α) : List UInt8 :=
  writeCompactSize l.length++l.flatMap enc

def writeScript (s : CScript) : List UInt8 := writeVector (fun b => [b]) s

def CTxIn.serialize (i : CTxIn) : List UInt8 :=
  i.prevout.serialize++writeScript i.scriptSig++leBytes 4 i.nSequence.toNat

def CTxOut.serialize (o : CTxOut) : List UInt8 :=
  leBytes 8 o.nValue.toUInt64.toNat++writeScript o.scriptPubKey

def CTransaction.serialize (tx : CTransaction) : List UInt8 :=
  leBytes 4 tx.nVersion.toUInt32.toNat++leBytes 4 tx.nTime.toNat++writeVector CTxIn.serialize tx.vin++
    writeVector CTxOut.serialize tx.vout++leBytes 4 tx.nLockTime.toNat

theorem length_le_length_writeVector {α : Type} {enc} (henc : ∀ a, 1 ≤ (enc a).length)
    (l : List α) : l.length ≤ (writeVector enc l).length := by
  have h : l.length ≤ (l.flatMap enc).length := by
    induction l with
    | nil => simp
    | cons a l ih =>
      have := henc a
      simp only [flatMap_cons,length_append,length_cons]
      omega
  rw [writeVector,length_append]
  omega

theorem length_le_length_flatMap {α : Type} (enc : α → List UInt8) {l a} (ha : a ∈ l) :
    (enc a).length ≤ (writeVector enc l).length := by
  rw [writeVector,length_append,length_flatMap]
  have := single_le_sum (by simp) (enc a).length (mem_map_of_mem (f := fun a => (enc a).length) ha)
  omega

/-- First byte of a compact size, and the number of bytes that follow it. -/
def compactMark (n : ℕ) : ℕ :=
  if n < 253 then n else if n ≤ 0xFFFF then 253 else if n ≤ 0xFFFFFFFF then 254 else 255

def compactWidth (mark : ℕ) : ℕ :=
  if mark < 253 then 0 else if mark = 253 then 2 else if mark = 254 then 4 else 8

theorem writeCompactSize_eq (n) :
    writeCompactSize n = UInt8.ofNat (compactMark n)::leBytes (compactWidth (compactMark n)) n := by
  unfold writeCompactSize compactMark
  split_ifs with h <;> simp [compactWidth,leBytes,h]

theorem compactMark_lt (n) : compactMark n < 256 := by
  unfold compactMark
  split_ifs <;> omega

theorem compactMark_spec {n} (h : n < 2^64) : compactMark n < 253 ∧ compactMark n = n ∨
      253 ≤ compactMark n ∧ n < 256^compactWidth (compactMark n) := by
  unfold compactMark
  split_ifs <;> simp [compactWidth] <;> omega

theorem prefixFreeOn_writeCompactSize : PrefixFreeOn (fun n => n < 2^64) writeCompactSize :=
  prefixFreeOn_marked _ writeCompactSize_eq compactMark_lt fun _ h => compactMark_spec h

theorem prefixFreeOn_writeScript : PrefixFreeOn (fun s : CScript => s.length < 2^64) writeScript :=
  (prefixFreeOn_writeCompactSize.counted prefixFreeOn_singleton).mono fun _ h => ⟨h,fun _ _ => trivial⟩

theorem prefixFreeOn_field (k) {f : α → ℕ} (hf : Function.Injective f) (hlt : ∀ a, f a < 256^k) :
    PrefixFreeOn (fun _ => True) (fun a => leBytes k (f a)) :=
  ((prefixFreeOn_leBytes k).comp hf).mono fun a _ => hlt a

theorem prefixFreeOn_uint32 : PrefixFreeOn (fun _ => True) (fun v : UInt32 => leBytes 4 v.toNat) :=
  prefixFreeOn_field 4 (fun _ _ => UInt32.toNat.inj) fun v => by simpa using v.toNat_lt

theorem prefixFreeOn_outPoint : PrefixFreeOn (fun _ => True) COutPoint.serialize := by
  have h := prefixFreeOn_field 32 (f := fun h : UInt256 => h.toNat) (fun _ _ => BitVec.eq_of_toNat_eq)
    (fun v => by simpa using v.isLt)
  exact ((h.append prefixFreeOn_uint32).comp (f := fun o : COutPoint => (o.hash,o.n))
    (by rintro ⟨a,b⟩ ⟨c,d⟩ h; simpa using h)).mono fun _ _ => ⟨trivial,trivial⟩

theorem prefixFreeOn_txIn :
    PrefixFreeOn (fun i : CTxIn => i.scriptSig.length < 2^64) CTxIn.serialize :=
  (((prefixFreeOn_outPoint.append prefixFreeOn_writeScript).append prefixFreeOn_uint32).comp
    (f := fun i : CTxIn => ((i.prevout,i.scriptSig),i.nSequence))
    (by rintro ⟨a,b,c⟩ ⟨d,e,f⟩ h; simpa [and_assoc] using h)).mono fun _ h => ⟨⟨trivial,h⟩,trivial⟩

theorem prefixFreeOn_txOut :
    PrefixFreeOn (fun o : CTxOut => o.scriptPubKey.length < 2^64) CTxOut.serialize := by
  have h := prefixFreeOn_field 8 (f := fun v : CAmount => v.toUInt64.toNat)
    (fun ⟨_⟩ ⟨_⟩ h => congrArg Int64.ofUInt64 (UInt64.toNat.inj h)) (fun v => by simpa using v.toUInt64.toNat_lt)
  exact ((h.append prefixFreeOn_writeScript).comp (f := fun o : CTxOut => (o.nValue,o.scriptPubKey))
    (by rintro ⟨a,b⟩ ⟨c,d⟩ h; simpa using h)).mono fun _ h => ⟨trivial,h⟩

structure CTransaction.Sized (tx : CTransaction) : Prop where
  vin : tx.vin.length < 2^64
  vout : tx.vout.length < 2^64
  scriptSig : ∀ i ∈ tx.vin, i.scriptSig.length < 2^64
  scriptPubKey : ∀ o ∈ tx.vout, o.scriptPubKey.length < 2^64

theorem prefixFreeOn_transaction : PrefixFreeOn CTransaction.Sized CTransaction.serialize := by
  have hv := prefixFreeOn_field 4 (f := fun v : Int32 => v.toUInt32.toNat)
    (fun ⟨_⟩ ⟨_⟩ h => congrArg Int32.ofUInt32 (UInt32.toNat.inj h)) (fun v => by simpa using v.toUInt32.toNat_lt)
  have hin := prefixFreeOn_writeCompactSize.counted prefixFreeOn_txIn
  have hout := prefixFreeOn_writeCompactSize.counted prefixFreeOn_txOut
  have h := ((((hv.append prefixFreeOn_uint32).append hin).append hout).append prefixFreeOn_uint32).comp
    (f := fun tx : CTransaction => ((((tx.nVersion,tx.nTime),tx.vin),tx.vout),tx.nLockTime))
    (by rintro ⟨a,b,c,d,e⟩ ⟨a',b',c',d',e'⟩ h; simpa [and_assoc] using h)
  exact h.mono fun tx hs => ⟨⟨⟨⟨trivial,trivial⟩,hs.vin,hs.scriptSig⟩,hs.vout,hs.scriptPubKey⟩,trivial⟩

theorem length_le_length_writeScript (s : CScript) : s.length ≤ (writeScript s).length :=
  length_le_length_writeVector (fun _ => le_rfl) s

theorem CTransaction.vout_length_le (tx : CTransaction) : tx.vout.length ≤ tx.serialize.length := by
  have hout : tx.vout.length ≤ (writeVector CTxOut.serialize tx.vout).length := length_le_length_writeVector
    (fun i => by simp only [CTxOut.serialize,length_append,length_leBytes]; omega) tx.vout
  simp only [serialize,length_append]
  omega

theorem CTransaction.lengths_le (tx : CTransaction) :
    tx.vin.length ≤ tx.serialize.length ∧ (∀ i ∈ tx.vin, i.scriptSig.length ≤ tx.serialize.length) ∧
      ∀ o ∈ tx.vout, o.scriptPubKey.length ≤ tx.serialize.length := by
  have hin : tx.vin.length ≤ (writeVector CTxIn.serialize tx.vin).length := length_le_length_writeVector
    (fun i => by simp only [CTxIn.serialize,length_append,length_leBytes]; omega) tx.vin
  simp only [serialize,length_append,length_leBytes]
  refine ⟨by omega,fun i hi => ?_,fun o ho => ?_⟩
  · have h1 := length_le_length_flatMap CTxIn.serialize hi
    have h2 := length_le_length_writeScript i.scriptSig
    simp only [CTxIn.serialize,length_append,length_leBytes] at h1
    omega
  · have h1 := length_le_length_flatMap CTxOut.serialize ho
    have h2 := length_le_length_writeScript o.scriptPubKey
    simp only [CTxOut.serialize,length_append,length_leBytes] at h1
    omega

theorem CTransaction.sized_of_length {tx : CTransaction} (h : tx.serialize.length < 2^64) :
    tx.Sized := by
  obtain ⟨hin,hsig,hkey⟩ := tx.lengths_le
  exact ⟨hin.trans_lt h,tx.vout_length_le.trans_lt h,fun i hi => (hsig i hi).trans_lt h,
    fun o ho => (hkey o ho).trans_lt h⟩

theorem CTransaction.serialize_inj {tx tx' : CTransaction} (h : tx.serialize.length < 2^64)
    (he : tx.serialize = tx'.serialize) : tx = tx' :=
  prefixFreeOn_transaction.injOn (sized_of_length h) (sized_of_length (he ▸ h)) he

structure CBlockHeader where
  nVersion : Int32
  hashPrevBlock : UInt256
  hashMerkleRoot : UInt256
  nTime : UInt32
  nBits : UInt32
  nNonce : UInt32
  deriving DecidableEq, Repr

structure CBlock extends CBlockHeader where
  vtx : List CTransaction
  vchBlockSig : List UInt8
  deriving DecidableEq, Repr

def CBlockHeader.serialize (b : CBlockHeader) : List UInt8 :=
  leBytes 4 b.nVersion.toUInt32.toNat++leBytes 32 b.hashPrevBlock.toNat++
    leBytes 32 b.hashMerkleRoot.toNat++leBytes 4 b.nTime.toNat++leBytes 4 b.nBits.toNat++
    leBytes 4 b.nNonce.toNat

namespace CBlock

def serialize (b : CBlock) : List UInt8 :=
  b.toCBlockHeader.serialize++writeVector CTransaction.serialize b.vtx++writeScript b.vchBlockSig

def isProofOfStake (b : CBlock) : Bool :=
  match b.vtx with
  | _::tx::_ => tx.isCoinStake
  | _ => false

def isProofOfWork (b : CBlock) : Bool := !b.isProofOfStake

/-- The default block, whose size stands for the header in the computation of disk positions. -/
def setNull : CBlock := ⟨⟨2,0,0,0,0,0⟩,[],[]⟩

def getBlockTime (b : CBlock) : ℤ := b.nTime.toNat

end CBlock

/-- Position of a transaction in the block files. The null position has a file
number that no block file carries, and nothing else in its other two fields. -/
structure CDiskTxPos where
  nFile : UInt32
  nBlockPos : UInt32
  nTxPos : UInt32
  canonical : nFile = 0xFFFFFFFF → nBlockPos = 0 ∧ nTxPos = 0
  deriving DecidableEq

namespace CDiskTxPos

def setNull : CDiskTxPos := ⟨0xFFFFFFFF,0,0,fun _ => ⟨rfl,rfl⟩⟩

def isNull (p : CDiskTxPos) : Bool := p.nFile = 0xFFFFFFFF

theorem isNull_iff (p) : p.isNull ↔ p = setNull := by
  rcases p with ⟨f,b,t,h⟩
  simp only [isNull,setNull,mk.injEq,decide_eq_true_eq]
  exact ⟨fun hf => ⟨hf,h hf⟩,fun hf => hf.1⟩

def memPool : CDiskTxPos := ⟨1,1,1,fun h => absurd h (by decide)⟩

end CDiskTxPos

/-- What the block index keeps of one block: where it was written and, as the block
files are only appended to, what stands there. -/
structure BlockIndexData where
  hashBlock : UInt256
  nFile : UInt32
  nBlockPos : UInt32
  hashProof : UInt256
  block : CBlock
  stored : nFile ≠ 0xFFFFFFFF
  deriving DecidableEq

/-- An index entry together with its path of predecessors, the nearest one first. -/
structure CBlockIndex where
  data : BlockIndexData
  ancestors : List BlockIndexData
  deriving DecidableEq

/-- Target of a compact difficulty: sign bit, three bytes of mantissa, a byte of length. -/
def setCompact (nCompact : UInt32) : ℤ :=
  let nSize := nCompact.toNat/2^24
  let word := nCompact.toNat%2^23
  let n : ℕ := if nSize ≤ 3 then word/256^(3-nSize) else word*256^(nSize-3)
  if nSize ≥ 1 && nCompact.toNat/2^23%2 = 1 then -n else n

namespace CBlockIndex

def pprev (b : CBlockIndex) : Option CBlockIndex :=
  match b.ancestors with
  | [] => none
  | d::ds => some ⟨d,ds⟩

def getBlockHash (b : CBlockIndex) : UInt256 := b.data.hashBlock

def nHeight (b : CBlockIndex) : ℕ := b.ancestors.length

def path (b : CBlockIndex) : List BlockIndexData := b.data::b.ancestors

def getBlockTime (b : CBlockIndex) : ℤ := b.data.block.getBlockTime

end CBlockIndex

def BlockIndexData.getBlockTrust (d : BlockIndexData) : UInt256 :=
  let bnTarget := setCompact d.block.nBits
  if bnTarget ≤ 0 then 0 else BitVec.ofInt 256 (2^256/(bnTarget+1))

/-- Trust of the whole path, a 256-bit sum. -/
def CBlockIndex.nChainTrust (b : CBlockIndex) : UInt256 :=
  b.path.foldr (fun d t => t+d.getBlockTrust) 0

/-- The parts of the program that are taken as given: hash functions, signature
checks, the standardness policy, the difficulty retarget and the chain constants. -/
structure Params where
  hash : List UInt8 → UInt256
  scryptBlockhash : List UInt8 → UInt256
  hash160 : List UInt8 → UInt160
  verifySignature : CTransaction → CTransaction → ℕ → UInt32 → Bool
  checkProofOfStakeSig : CBlock → Bool
  getNextTargetRequired : CBlockIndex → Bool → UInt32
  isStandardTx : CTransaction → Bool
  areInputsStandard : CTransaction → List CTxOut → Bool
  testNet : Bool
  proofOfWorkLimit : ℤ
  firstPOSBlock : ℕ
  hashGenesisBlock : UInt256

def CTransaction.getHash (P : Params) (tx : CTransaction) : UInt256 := P.hash tx.serialize

namespace CBlock

variable (P : Params)

def getPoWHash (b : CBlock) : UInt256 := P.scryptBlockhash b.toCBlockHeader.serialize

def getHash (b : CBlock) : UInt256 :=
  if b.nVersion > 1 then P.hash b.toCBlockHeader.serialize else b.getPoWHash P

/-- One level of the Merkle tree: neighbours are hashed together, an odd last one with itself. -/
def merkleLevel : List UInt256 → List UInt256
  | [] => []
  | [a] => [P.hash (leBytes 32 a.toNat++leBytes 32 a.toNat)]
  | a::b::l => P.hash (leBytes 32 a.toNat++leBytes 32 b.toNat)::merkleLevel l

/-- Go up level by level until one hash is left; every level halves the length, so
as many rounds as there are leaves are enough. -/
def merkleRoot : ℕ → List UInt256 → UInt256
  | _, [] => 0
  | _, [a] => a
  | 0, a::_ => a
  | k+1, l => merkleRoot k (merkleLevel P l)

def buildMerkleTree (b : CBlock) : UInt256 :=
  merkleRoot P b.vtx.length (b.vtx.map (CTransaction.getHash P))

end CBlock

end DarkSilk
