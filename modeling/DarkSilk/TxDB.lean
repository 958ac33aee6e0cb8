import DarkSilk.BatchStore
import DarkSilk.SpendIndex
import DarkSilk.CheckBlock

/-! The transaction database: which records it holds under which keys, and its
operations as reads and writes of the batched store. -/
namespace DarkSilk

open Std BatchStore List

abbrev CTxIndex := SpendIndex.Record CDiskTxPos

abbrev TxIndex := SpendIndex.Index UInt256 CDiskTxPos

def CTxIndex.new (pos : CDiskTxPos) (nOutputs : ℕ) : CTxIndex :=
  ⟨pos,List.replicate nOutputs .setNull⟩

structure CDiskBlockIndex where
  hashPrev : UInt256
  hashNext : UInt256
  nFile : UInt32
  nBlockPos : UInt32
  nHeight : ℕ
  nMint : CAmount
  nMoneySupply : CAmount
  prevoutStake : COutPoint
  nStakeTime : UInt32
  hashProof : UInt256
  nVersion : Int32
  hashMerkleRoot : UInt256
  nTime : UInt32
  nBits : UInt32
  nNonce : UInt32
  blockHash : UInt256
  deriving DecidableEq

/-- The record of an index entry; the successor and the two amounts are kept beside the entry. -/
def CDiskBlockIndex.ofIndex (pindex : CBlockIndex) (hashNext : UInt256)
    (nMint nMoneySupply : CAmount) :
    CDiskBlockIndex :=
  let block := pindex.data.block
  let stake : COutPoint × UInt32 :=
    match block.isProofOfStake, block.vtx with
    | true, _::tx::_ => ((tx.prevouts.head?).getD .setNull,tx.nTime)
    | _, _ => (.setNull,0)
  { hashPrev := (pindex.pprev.map CBlockIndex.getBlockHash).getD 0
    hashNext := hashNext
    nFile := pindex.data.nFile
    nBlockPos := pindex.data.nBlockPos
    nHeight := pindex.nHeight
    nMint := nMint
    nMoneySupply := nMoneySupply
    prevoutStake := stake.1
    nStakeTime := stake.2
    hashProof := pindex.data.hashProof
    nVersion := block.nVersion
    hashMerkleRoot := block.hashMerkleRoot
    nTime := block.nTime
    nBits := block.nBits
    nNonce := block.nNonce
    blockHash := pindex.getBlockHash }

inductive DbKey
  | tx (hash : UInt256)
  | blockindex (hash : UInt256)
  | adr (addrHash : UInt160)
  | hashBestChain
  | bnBestInvalidTrust
  deriving DecidableEq

@[reducible] def DbKey.Val : DbKey → Type
  | .tx _ => CTxIndex
  | .blockindex _ => CDiskBlockIndex
  | .adr _ => List UInt256
  | .hashBestChain => UInt256
  | .bnBestInvalidTrust => UInt256

abbrev CTxDB := TxDB DbKey.Val

def txPart (s : Store DbKey.Val) : TxIndex := fun h => s (.tx h)

@[simp] theorem txPart_update_tx (s : Store DbKey.Val) (h r) :
    txPart (Function.update s (.tx h) r) = Function.update (txPart s) h r := by
  funext h'
  by_cases hh : h' = h
  · subst hh
    simp [txPart]
  · simp [txPart,hh]

theorem txPart_update_of_ne (s : Store DbKey.Val) {k} (hk : ∀ h, k ≠ .tx h) (v) :
    txPart (Function.update s k v) = txPart s := by
  funext h
  simp [txPart,Function.update_of_ne (hk h).symm]

namespace CTxDB

def readTxIndex (db : CTxDB) (hash : UInt256) : Option CTxIndex := db.read (.tx hash)

def updateTxIndex (db : CTxDB) (hash : UInt256) (txindex : CTxIndex) : CTxDB :=
  db.write (.tx hash) txindex

def eraseTxIndex (db : CTxDB) (hash : UInt256) : CTxDB := db.erase (.tx hash)

def containsTx (db : CTxDB) (hash : UInt256) : Bool := db.exists' (.tx hash)

def writeBlockIndex (db : CTxDB) (b : CDiskBlockIndex) : CTxDB :=
  db.write (.blockindex b.blockHash) b

def readHashBestChain (db : CTxDB) : Option UInt256 := db.read .hashBestChain

def writeHashBestChain (db : CTxDB) (hash : UInt256) : CTxDB := db.write .hashBestChain hash

def readAddrIndex (db : CTxDB) (addrHash : UInt160) : Option (List UInt256) :=
  db.read (.adr addrHash)

/-- Add a transaction to the list of an address, once. -/
def writeAddrIndex (db : CTxDB) (addrHash : UInt160) (txHash : UInt256) : CTxDB :=
  match db.readAddrIndex addrHash with
  | none => db.write (.adr addrHash) [txHash]
  | some txHashes =>
    if txHash ∈ txHashes then db else db.write (.adr addrHash) (txHashes++[txHash])

/-- The transaction records as the open transaction sees them. -/
def txView (db : CTxDB) : TxIndex := txPart db.view

theorem readTxIndex_eq (db : CTxDB) (hash) : db.readTxIndex hash = db.txView hash :=
  TxDB.read_eq_view db _

@[simp] theorem txView_updateTxIndex (db : CTxDB) (hash) (r : CTxIndex) :
    (db.updateTxIndex hash r).txView = Function.update db.txView hash (some r) := by
  simp [txView,updateTxIndex]

@[simp] theorem txView_eraseTxIndex (db : CTxDB) (hash) :
    (db.eraseTxIndex hash).txView = Function.update db.txView hash none := by
  simp [txView,eraseTxIndex]

@[simp] theorem txView_writeBlockIndex (db : CTxDB) (b) :
    (db.writeBlockIndex b).txView = db.txView := by
  simp only [txView,writeBlockIndex,TxDB.view_write]
  exact txPart_update_of_ne _ (by simp) _

@[simp] theorem txView_writeHashBestChain (db : CTxDB) (hash) :
    (db.writeHashBestChain hash).txView = db.txView := by
  simp only [txView,writeHashBestChain,TxDB.view_write]
  exact txPart_update_of_ne _ (by simp) _

@[simp] theorem txView_writeAddrIndex (db : CTxDB) (a hash) :
    (db.writeAddrIndex a hash).txView = db.txView := by
  have hput : ∀ l, txView (TxDB.write db (.adr a) l) = db.txView := by
    intro l
    rw [txView,TxDB.view_write]
    exact txPart_update_of_ne _ (by simp) _
  unfold writeAddrIndex
  split
  · exact hput _
  · split_ifs
    · rfl
    · exact hput _

theorem pending_writeAddrIndex (db : CTxDB) (a hash) :
    TxDB.Pending db (db.writeAddrIndex a hash) := by
  unfold writeAddrIndex
  split
  · exact TxDB.pending_put _ _ _
  · split_ifs
    · exact .refl _
    · exact TxDB.pending_put _ _ _

end CTxDB

abbrev HashMap (V : Type) := ExtTreeMap UInt256 V

theorem getElem?_insert {V : Type} (m : HashMap V) (k k') (v : V) :
    (m.insert k v)[k']? = if k = k' then some v else m[k']? := by
  simp [ExtTreeMap.getElem?_insert]

theorem getElem?_erase {V : Type} (m : HashMap V) (k k') :
    (m.erase k)[k']? = if k = k' then none else m[k']? := by
  simp [ExtTreeMap.getElem?_erase]

theorem contains_insert {V : Type} (m : HashMap V) (k k') (v : V) :
    (m.insert k v).contains k' = (k = k' || m.contains k') := by
  rw [ExtTreeMap.contains_eq_isSome_getElem?,ExtTreeMap.contains_eq_isSome_getElem?,getElem?_insert]
  split_ifs with h <;> simp [h]

theorem contains_erase {V : Type} (m : HashMap V) (k k') :
    (m.erase k).contains k' = (k ≠ k' && m.contains k') := by
  rw [ExtTreeMap.contains_eq_isSome_getElem?,ExtTreeMap.contains_eq_isSome_getElem?,
    ExtTreeMap.getElem?_erase]
  by_cases h : k = k' <;> simp [h]

/-- Index changes that are queued on top of an index. -/
def overlay (q : HashMap CTxIndex) (idx : TxIndex) : TxIndex := fun h => (q[h]?).or (idx h)

@[simp] theorem overlay_empty (idx : TxIndex) : overlay ∅ idx = idx := by
  funext h
  simp [overlay]

@[simp] theorem overlay_insert (q : HashMap CTxIndex) (idx : TxIndex) (h) (r : CTxIndex) :
    overlay (q.insert h r) idx = Function.update (overlay q idx) h (some r) := by
  funext h'
  by_cases hh : h' = h
  · subst hh
    simp [overlay]
  · simp [overlay,getElem?_insert,hh,Ne.symm hh]

/-- Write the queued changes in key order. -/
def CTxDB.writeQueue (db : CTxDB) (q : HashMap CTxIndex) : CTxDB :=
  q.toList.foldl (fun db e => db.updateTxIndex e.1 e.2) db

theorem CTxDB.txView_foldl_updateTxIndex (l : List (UInt256 × CTxIndex)) (db : CTxDB)
    (hl : l.Pairwise fun a b => a.1 ≠ b.1) (h) :
    (l.foldl (fun (db : CTxDB) e => db.updateTxIndex e.1 e.2) db).txView h =
      ((l.find? (fun e => e.1 = h)).map Prod.snd).or (db.txView h) := by
  induction l generalizing db with
  | nil => simp
  | cons e l ih =>
    rw [pairwise_cons] at hl
    rw [foldl_cons,ih _ hl.2,txView_updateTxIndex]
    by_cases he : e.1 = h
    · have hnone : l.find? (fun e => e.1 = h) = none := by
        rw [find?_eq_none]
        intro x hx hxh
        exact hl.1 x hx (he.trans (of_decide_eq_true hxh).symm)
      simp [hnone,he]
    · simp [he,Function.update_of_ne (Ne.symm he)]

theorem CTxDB.txView_writeQueue (db : CTxDB) (q) :
    (db.writeQueue q).txView = overlay q db.txView := by
  funext h
  have hd : q.toList.Pairwise fun a b => a.1 ≠ b.1 :=
    q.distinct_keys_toList.imp fun hab he => hab (by simp [he])
  rw [writeQueue,txView_foldl_updateTxIndex _ _ hd,overlay]
  congr 1
  cases hq : q[h]? with
  | none =>
    have hnone : q.toList.find? (fun e => e.1 = h) = none := by
      rw [find?_eq_none]
      rintro ⟨k,v⟩ hx hxh
      have hk : k = h := of_decide_eq_true hxh
      rw [ExtTreeMap.mem_toList_iff_getElem?_eq_some,hk,hq] at hx
      cases hx
    simp [hnone]
  | some r =>
    have hmem : (h,r) ∈ q.toList := ExtTreeMap.mem_toList_iff_getElem?_eq_some.mpr hq
    cases hf : q.toList.find? (fun e => e.1 = h) with
    | none => exact absurd (find?_eq_none.mp hf _ hmem) (by simp)
    | some e =>
      have he : e.1 = h := by simpa using find?_some hf
      have hmem' : (e.1,e.2) ∈ q.toList := mem_of_find?_eq_some hf
      rw [ExtTreeMap.mem_toList_iff_getElem?_eq_some,he,hq,Option.some.injEq] at hmem'
      simp [hmem']

theorem CTxDB.pending_writeQueue (db : CTxDB) (q) : TxDB.Pending db (db.writeQueue q) := by
  unfold writeQueue
  generalize q.toList = l
  induction l generalizing db with
  | nil => exact .refl _
  | cons e l ih => exact (TxDB.pending_put db _ _).trans (ih _)

end DarkSilk
