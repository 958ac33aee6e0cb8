import DarkSilk.AddrManRuns
import DarkSilk.BudgetCache

/-! The address manager as it is kept in a file. The file has the new entries, the tried
entries and the new slots; entries are numbered anew, and all other indexes are built again
when it is read. Reading starts with a reset that leaves the entries and the addresses of
the manager in place. -/
namespace DarkSilk

open PrefixCode SlotTable MapSum List
open Stormnode (CService)
open NetAddress (ipBytes)
open BudgetCache (writeInt32 writeInt64 writeUInt256)

namespace AddrMan

def CAddrInfo.raw (info : CAddrInfo) : CAddrInfo :=
  { info with nLastTry := 0, nRefCount := 0, fInTried := false, nRandomPos := 0xFFFFFFFF }

def CAddrInfo.serialize (nVersion : Int32) (info : CAddrInfo) : List UInt8 :=
  writeInt32 nVersion++(leBytes 4 info.nTime.toNat++(leBytes 8 info.nServices.toNat++(ipBytes info.ip++
    ((leBytes 2 info.port.toNat).reverse++(ipBytes info.source++(writeInt64 info.nLastSuccess++
    writeInt32 info.nAttempts))))))

def readIp : Reader UInt8 CNetAddr := BitVec.ofNat 128 <$> readBE 16

def CAddrInfo.unserialize : Reader UInt8 CAddrInfo := do
  let _ ← readInt32
  let nTime ← readUInt32
  let nServices ← UInt64.ofNat <$> readLE 8
  let ip ← readIp
  let port ← UInt16.ofNat <$> readBE 2
  let source ← readIp
  let nLastSuccess ← readAmount
  let nAttempts ← readInt32
  return ⟨⟨⟨ip,port⟩,nServices,nTime,0⟩,source,nLastSuccess,nAttempts,0,false,0xFFFFFFFF⟩

structure Dump where
  nVersion : UInt8
  nKey : UInt256
  nNew : Int32
  nTried : Int32
  nUBuckets : Int32
  newInfos : List CAddrInfo
  triedInfos : List CAddrInfo
  buckets : List (List Int32)

def writeBucket (bucket : List Int32) : List UInt8 :=
  writeInt32 (.ofNat bucket.length)++bucket.flatMap writeInt32

def readBucket : Reader UInt8 (List Int32) := do
  let nSize ← readInt32
  readMany readInt32 nSize.toInt.toNat

def bucketBit : Int32 := 0x40000000

/-- The number of buckets is written with a bit flipped, for which old versions reject it. -/
def Dump.serialize (nVersion : Int32) (d : Dump) : List UInt8 :=
  [d.nVersion]++([32]++(writeUInt256 d.nKey++(writeInt32 d.nNew++(writeInt32 d.nTried++
    (writeInt32 (d.nUBuckets ^^^ bucketBit)++(d.newInfos.flatMap (CAddrInfo.serialize nVersion)++
    (d.triedInfos.flatMap (CAddrInfo.serialize nVersion)++d.buckets.flatMap writeBucket)))))))

def Dump.unserialize : Reader UInt8 Dump := do
  let nVersion ← readOne
  let nKeySize ← readOne
  if nKeySize ≠ 32 then failure
  let nKey ← readUInt256
  let nNew ← readInt32
  let nTried ← readInt32
  let nUBuckets ← readInt32
  let nUBuckets := if nVersion ≠ 0 then nUBuckets ^^^ bucketBit else nUBuckets
  let newInfos ← readMany CAddrInfo.unserialize nNew.toInt.toNat
  let triedInfos ← readMany CAddrInfo.unserialize nTried.toInt.toNat
  let buckets ← readMany readBucket nUBuckets.toInt.toNat
  return ⟨nVersion,nKey,nNew,nTried,nUBuckets,newInfos,triedInfos,buckets⟩

/-- The new entries in the order of their numbers, and for all entries how many new ones
are before. -/
def unkIds (nNew : ℤ) : List (ℤ × CAddrInfo) → ℤ → Option (List (ℤ × ℤ) × List CAddrInfo)
  | [], _ => some ([],[])
  | e::l, nIds =>
    if e.2.nRefCount ≠ 0 then
      if nIds = nNew then none
      else (unkIds nNew l (nIds+1)).map fun r => ((e.1,nIds)::r.1,e.2.raw::r.2)
    else (unkIds nNew l nIds).map fun r => ((e.1,nIds)::r.1,r.2)

def triedInfos (nTried : ℤ) : List (ℤ × CAddrInfo) → ℤ → Option (List CAddrInfo)
  | [], _ => some []
  | e::l, nIds =>
    if e.2.fInTried then
      if nIds = nTried then none else (triedInfos nTried l (nIds+1)).map fun r => e.2.raw::r
    else triedInfos nTried l nIds

namespace CAddrMan

variable (P : Params) (s : CAddrMan)

def bucketIds (mapUnkIds : List (ℤ × ℤ)) (bucket : Fin ADDRMAN_NEW_BUCKET_COUNT) : List Int32 :=
  positions.filterMap fun i => (s.vvNew (bucket,i)).map fun nId => .ofInt ((mapUnkIds.lookup nId).getD 0)

def dump : Option Dump :=
  (unkIds s.nNew s.mapInfo.toList 0).bind fun r => (AddrMan.triedInfos s.nTried s.mapInfo.toList 0).map fun t =>
    ⟨1,s.nKey,.ofInt s.nNew,.ofInt s.nTried,.ofNat ADDRMAN_NEW_BUCKET_COUNT,r.2,t,
      newBuckets.map (s.bucketIds r.1)⟩

/-- The version is that of the stream. -/
def serialize (nVersion : Int32) : Option (List UInt8) := s.dump.map (Dump.serialize nVersion)

/-- The entries and the addresses stay. The random key is read over at once. -/
def clear (nKey : UInt256) : CAddrMan :=
  { s with
    vRandom := []
    nKey := nKey
    vvNew := fun _ => none
    vvTried := fun _ => none
    nIdCount := 0
    nTried := 0
    nNew := 0 }

/-- A new entry is read over the one with its number, which keeps what is not in the file. -/
def loadNew (fUsable : Bool) (s : CAddrMan) (e : CAddrInfo × ℕ) : CAddrMan :=
  let n : ℤ := e.2
  let old := (s.mapInfo[n]?).getD .blank
  let t := { s with
    mapInfo := s.mapInfo.insert n
      { e.1 with nRefCount := old.nRefCount, fInTried := old.fInTried, nRandomPos := s.vRandom.length }
    mapAddr := s.mapAddr.insert e.1.ip n
    vRandom := s.vRandom++[n] }
  let x := newSlot P s.nKey e.1.toCService e.1.source
  if !fUsable && t.vvNew x = none then t.ref x n else t

/-- A tried entry is lost if its slot is taken. -/
def loadTried (r : CAddrMan × ℤ) (info : CAddrInfo) : CAddrMan × ℤ :=
  let s := r.1
  let x := triedSlot P s.nKey info.toCService
  if s.vvTried x = none then
    ({ s with
      vRandom := s.vRandom++[s.nIdCount]
      mapInfo := s.mapInfo.insert s.nIdCount { info with nRandomPos := s.vRandom.length, fInTried := true }
      mapAddr := s.mapAddr.insert info.ip s.nIdCount
      vvTried := Function.update s.vvTried x (slotMark s.nIdCount)
      nIdCount := nextId s.nIdCount },r.2)
  else (s,r.2+1)

def loadIndex (fUsable : Bool) (bucket : ℕ) (s : CAddrMan) (nIndex : Int32) : CAddrMan :=
  if 0 ≤ nIndex.toInt && nIndex.toInt < s.nNew then
    match s.mapInfo[nIndex.toInt]? with
    | none => s
    | some info =>
      let x : NewSlot := (.ofNat _ bucket,getBucketPosition P s.nKey info.toCService true bucket)
      if fUsable && s.vvNew x = none && info.nRefCount < ADDRMAN_NEW_BUCKETS_PER_ADDRESS then s.ref x nIndex.toInt
      else s
  else s

def loadBucket (fUsable : Bool) (s : CAddrMan) (e : List Int32 × ℕ) : CAddrMan :=
  e.1.foldl (loadIndex P fUsable e.2) s

def prune (s : CAddrMan) (nId : ℤ) : Option CAddrMan :=
  match s.mapInfo[nId]? with
  | none => some s
  | some info => if !info.fInTried && info.nRefCount = 0 then s.delete nId else some s

def loadEntries (d : Dump) : CAddrMan :=
  let fUsable := d.nVersion = 1 && d.nUBuckets.toInt = ADDRMAN_NEW_BUCKET_COUNT
  let s := d.newInfos.zipIdx.foldl (loadNew P fUsable) { s.clear d.nKey with nNew := d.nNew.toInt, nTried := d.nTried.toInt }
  let r := d.triedInfos.foldl (loadTried P) ({ s with nIdCount := d.nNew.toInt },0)
  { r.1 with nTried := r.1.nTried-r.2 }

def load (d : Dump) : Option CAddrMan :=
  let fUsable := d.nVersion = 1 && d.nUBuckets.toInt = ADDRMAN_NEW_BUCKET_COUNT
  let s := d.buckets.zipIdx.foldl (loadBucket P fUsable) (s.loadEntries P d)
  (s.mapInfo.toList.map Prod.fst).foldlM prune s

/-- There is no manager if the bytes are not those of a file or an assertion fails. -/
def unserialize (bytes : List UInt8) : Option CAddrMan :=
  (Dump.unserialize.run bytes).bind fun r => s.load P r.1

end CAddrMan

theorem reads_ip : Reads (fun _ => True) ipBytes readIp :=
  reads_bigEndian 16 (fun v => BitVec.ofNat_toNat 128 v) fun v => by simpa using v.isLt

theorem reads_port :
    Reads (fun _ => True) (fun port : UInt16 => (leBytes 2 port.toNat).reverse)
      (UInt16.ofNat <$> readBE 2) :=
  reads_bigEndian 2 (fun _ => UInt16.ofNat_toNat) fun v => by simpa using v.toNat_lt

theorem reads_services :
    Reads (fun _ => True) (fun n : UInt64 => leBytes 8 n.toNat) (UInt64.ofNat <$> readLE 8) :=
  reads_field 8 (fun _ => UInt64.ofNat_toNat) fun v => by simpa using v.toNat_lt

theorem reads_info (nVersion) :
    Reads (fun info : CAddrInfo => info.raw = info) (CAddrInfo.serialize nVersion)
      CAddrInfo.unserialize := by
  intro info hraw r
  simp only [CAddrInfo.serialize,append_assoc]
  rw [CAddrInfo.unserialize,BudgetCache.reads_writeInt32.next,reads_uint32.next,
    reads_services.next,reads_ip.next,reads_port.next,reads_ip.next,
    BudgetCache.reads_writeInt64.next,BudgetCache.reads_writeInt32.next]
  exact congrArg (fun i => some (i,r)) hraw

theorem toInt_ofNat_int32 {n} (h : n < 2^31) : (Int32.ofNat n).toInt = n :=
  Int32.toInt_ofNat_of_lt h

theorem reads_bucket :
    Reads (fun bucket : List Int32 => bucket.length < 2^31) writeBucket readBucket := by
  intro bucket h r
  rw [writeBucket,append_assoc,readBucket,BudgetCache.reads_writeInt32.next,toInt_ofNat_int32 h,
    Int.toNat_natCast]
  exact BudgetCache.reads_writeInt32.run_readMany (fun _ _ => trivial) r

structure Dump.Fits (d : Dump) : Prop where
  nVersion : d.nVersion ≠ 0
  newInfos : d.nNew.toInt.toNat = d.newInfos.length
  triedInfos : d.nTried.toInt.toNat = d.triedInfos.length
  buckets : d.nUBuckets.toInt.toNat = d.buckets.length
  rawNew : ∀ info ∈ d.newInfos, info.raw = info
  rawTried : ∀ info ∈ d.triedInfos, info.raw = info
  size : ∀ bucket ∈ d.buckets, bucket.length < 2^31

theorem reads_dump (nVersion) : Reads Dump.Fits (Dump.serialize nVersion) Dump.unserialize := by
  intro d h r
  have hxor : (d.nUBuckets ^^^ bucketBit) ^^^ bucketBit = d.nUBuckets := by
    rw [Int32.xor_assoc,Int32.xor_self,Int32.xor_zero]
  simp only [Dump.serialize,append_assoc]
  rw [Dump.unserialize,reads_readOne.next,reads_readOne.next]
  simp only [ne_eq,not_true_eq_false,if_false]
  rw [BudgetCache.reads_hash.next,BudgetCache.reads_writeInt32.next,
    BudgetCache.reads_writeInt32.next,BudgetCache.reads_writeInt32.next]
  simp only [h.nVersion,not_false_eq_true,if_true,hxor]
  rw [((reads_info nVersion).many _).run_bind ⟨h.newInfos,h.rawNew⟩,
    ((reads_info nVersion).many _).run_bind ⟨h.triedInfos,h.rawTried⟩,
    (reads_bucket.many _).run_bind ⟨h.buckets,h.size⟩]
  rfl

def CAddrMan.newEntries (s : CAddrMan) : List (ℤ × CAddrInfo) :=
  s.mapInfo.toList.filter fun e => !e.2.fInTried

def CAddrMan.triedEntries (s : CAddrMan) : List (ℤ × CAddrInfo) :=
  s.mapInfo.toList.filter fun e => e.2.fInTried

variable {nNew nTried : ℤ} {l : List (ℤ × CAddrInfo)}

theorem unkIds_eq (hkeys : (l.map Prod.fst).Nodup)
    (href : ∀ e ∈ l, e.2.nRefCount ≠ 0 ↔ e.2.fInTried = false) (nIds)
    (hle : nIds+(l.filter fun e => !e.2.fInTried).length ≤ nNew) :
    ∃ ids, unkIds nNew l nIds = some (ids,(l.filter fun e => !e.2.fInTried).map fun e => e.2.raw) ∧
      ∀ (k : ℕ) e, (l.filter fun e => !e.2.fInTried)[k]? = some e →
      ids.lookup e.1 = some (nIds+k) := by
  induction l generalizing nIds with
  | nil => exact ⟨[],rfl,fun k e h => by cases h⟩
  | cons e l ih =>
    obtain ⟨hnot,hkeys⟩ := nodup_cons.mp hkeys
    have href' : ∀ x ∈ l, x.2.nRefCount ≠ 0 ↔ x.2.fInTried = false := fun x hx => href x (mem_cons_of_mem e hx)
    -- the entries of the rest are not looked up at the first one
    have hlookup : ∀ (ids : List (ℤ × ℤ)) n (k : ℕ) x, (l.filter fun e => !e.2.fInTried)[k]? = some x →
        lookup x.1 ((e.1,n)::ids) = ids.lookup x.1 := by
      intro ids n k x hx
      have hne : x.1 ≠ e.1 := fun heq => hnot (heq ▸ mem_map_of_mem (mem_filter.mp (mem_of_getElem? hx)).1)
      rw [lookup_cons,beq_false_of_ne hne]
    cases hnew : e.2.fInTried with
    | false =>
      have hfilter : ((e::l).filter fun e => !e.2.fInTried) =
          e::l.filter fun e => !e.2.fInTried := by simp [hnew]
      rw [hfilter,length_cons] at hle
      obtain ⟨ids,hids,hin⟩ := ih hkeys href' (nIds+1) (by omega)
      refine ⟨(e.1,nIds)::ids,?_,fun k x hx => ?_⟩
      · rw [unkIds,if_pos ((href e mem_cons_self).mpr hnew),if_neg (by omega),hids,hfilter]
        rfl
      · rw [hfilter] at hx
        cases k with
        | zero =>
          rw [← Option.some.inj hx,lookup_cons_self]
          simp
        | succ k =>
          rw [getElem?_cons_succ] at hx
          rw [hlookup ids nIds k x hx,hin k x hx]
          push_cast
          ring_nf
    | true =>
      have hfilter : ((e::l).filter fun e => !e.2.fInTried) = l.filter fun e => !e.2.fInTried := by simp [hnew]
      rw [hfilter] at hle
      have hzero : ¬ e.2.nRefCount ≠ 0 := by simp [href e mem_cons_self,hnew]
      obtain ⟨ids,hids,hin⟩ := ih hkeys href' nIds hle
      refine ⟨(e.1,nIds)::ids,?_,fun k x hx => ?_⟩
      · rw [unkIds,if_neg hzero,hids,hfilter]
        rfl
      · rw [hfilter] at hx
        rw [hlookup ids nIds k x hx,hin k x hx]

theorem triedInfos_eq (l nIds) (hle : nIds+(l.filter fun e => e.2.fInTried).length ≤ nTried) :
    triedInfos nTried l nIds = some ((l.filter fun e => e.2.fInTried).map fun e => e.2.raw) := by
  induction l generalizing nIds with
  | nil => rfl
  | cons e l ih =>
    cases htried : e.2.fInTried with
    | true =>
      have hfilter : ((e::l).filter fun e => e.2.fInTried) = e::l.filter fun e => e.2.fInTried := by
        simp [htried]
      rw [hfilter,length_cons] at hle
      rw [triedInfos,if_pos htried,if_neg (by omega),ih (nIds+1) (by omega),hfilter]
      rfl
    | false =>
      have hfilter : ((e::l).filter fun e => e.2.fInTried) = l.filter fun e => e.2.fInTried := by simp [htried]
      rw [hfilter] at hle
      rw [triedInfos,if_neg (by simp [htried]),ih nIds hle,hfilter]

variable {P : Params} {A : CAddrMan} {nId : ℤ} {info : CAddrInfo}

open CAddrMan

theorem mem_newEntries :
    (nId,info) ∈ A.newEntries ↔ A.mapInfo[nId]? = some info ∧ info.fInTried = false := by
  rw [newEntries,mem_filter,Std.ExtTreeMap.mem_toList_iff_getElem?_eq_some,Bool.not_eq_true']

theorem mem_triedEntries :
    (nId,info) ∈ A.triedEntries ↔ A.mapInfo[nId]? = some info ∧ info.fInTried := by
  rw [triedEntries,mem_filter,Std.ExtTreeMap.mem_toList_iff_getElem?_eq_some]

theorem nodup_newEntries : (A.newEntries.map Prod.fst).Nodup :=
  (nodup_keys A.mapInfo).sublist (filter_sublist.map Prod.fst)

theorem nodup_triedEntries : (A.triedEntries.map Prod.fst).Nodup :=
  (nodup_keys A.mapInfo).sublist (filter_sublist.map Prod.fst)

theorem sum_eq_length_filter {α : Type} (p : α → Bool) (l : List α) :
    (l.map fun a => if p a then (1 : ℤ) else 0).sum = (l.filter p).length := by
  induction l with
  | nil => rfl
  | cons a l ih =>
    rw [map_cons,sum_cons,ih,filter_cons]
    split_ifs with h
    · rw [length_cons]
      push_cast
      ring
    · rw [zero_add]

theorem Counts.length_newEntries (h : Counts A.mapInfo nTried nNew) :
    (A.newEntries.length : ℤ) = nNew := by
  rw [h.new,newEntries,← sum_eq_length_filter,entrySum]
  refine congrArg sum (map_congr_left fun e _ => ?_)
  cases e.2.fInTried <;> rfl

theorem Counts.length_triedEntries (h : Counts A.mapInfo nTried nNew) :
    (A.triedEntries.length : ℤ) = nTried := by
  rw [h.tried,triedEntries,← sum_eq_length_filter,entrySum]

theorem length_le_of_held {ι : Type} [Fintype ι] {t : ι → Option ℤ}
    (hl : (l.map Prod.fst).Nodup) (h : ∀ e ∈ l, ∃ x, t x = some e.1) :
    l.length ≤ Fintype.card ι := by
  have hcard : (l.map Prod.fst).toFinset.card = l.length := by
    rw [toFinset_card_of_nodup hl,length_map]
  rw [← hcard]
  refine card_le_of_held (t := t) _ fun nId hn => ?_
  obtain ⟨e,he,rfl⟩ := mem_map.mp (mem_toFinset.mp hn)
  obtain ⟨x,hx⟩ := h e he
  exact ⟨x,mem_held.mpr hx⟩

theorem CAddrMan.Consistent.exists_newSlot (h : A.Consistent P) (hi : A.mapInfo[nId]? = some info)
    (hnew : info.fInTried = false) : ∃ x, A.vvNew x = some nId := by
  have hpos := h.referenced nId info hi (Set.notMem_empty nId) hnew
  have href := (h.tables.references nId info hi).1
  exact exists_of_card_held (by omega)

theorem CAddrMan.Consistent.newEntries_le (h : A.Consistent P) : A.newEntries.length ≤ 65536 := by
  refine (length_le_of_held (t := A.vvNew) nodup_newEntries ?_).trans_eq ?_
  · rintro ⟨nId,info⟩ he
    obtain ⟨hi,hnew⟩ := mem_newEntries.mp he
    exact h.exists_newSlot hi hnew
  · rw [Fintype.card_prod,Fintype.card_fin,Fintype.card_fin]
    rfl

theorem CAddrMan.Consistent.triedEntries_le (h : A.Consistent P) :
    A.triedEntries.length ≤ 16384 := by
  refine (length_le_of_held (t := A.vvTried) nodup_triedEntries ?_).trans_eq ?_
  · rintro ⟨nId,info⟩ he
    obtain ⟨hi,htried⟩ := mem_triedEntries.mp he
    exact ⟨_,(h.tables.tried _ nId).mpr ⟨info,hi,htried,rfl⟩⟩
  · rw [Fintype.card_prod,Fintype.card_fin,Fintype.card_fin]
    rfl

structure Dumped (A : CAddrMan) (d : Dump) (idx : ℤ → Int32) : Prop where
  fits : d.Fits
  nVersion : d.nVersion = 1
  nKey : d.nKey = A.nKey
  nUBuckets : d.nUBuckets.toInt = ADDRMAN_NEW_BUCKET_COUNT
  nNew : d.nNew.toInt = A.newEntries.length
  nTried : d.nTried.toInt = A.triedEntries.length
  newInfos : d.newInfos = A.newEntries.map fun e => e.2.raw
  triedInfos : d.triedInfos = A.triedEntries.map fun e => e.2.raw
  buckets : d.buckets = newBuckets.map fun b => positions.filterMap fun i => (A.vvNew (b,i)).map idx
  index : ∀ (k : ℕ) e, A.newEntries[k]? = some e → (idx e.1).toInt = k

theorem toInt_ofInt_int32 {n : ℕ} (h : n < 2^31) : (Int32.ofInt n).toInt = n :=
  Int32.toInt_ofInt_of_le (by omega) (by omega)

theorem CAddrMan.Consistent.dump (h : A.Consistent P) :
    ∃ d idx, A.dump = some d ∧ Dumped A d idx := by
  have hnew : (A.newEntries.length : ℤ) = A.nNew := by rw [h.counts.length_newEntries,add_zero]
  have htried := h.counts.length_triedEntries
  have hnewLe := h.newEntries_le
  have htriedLe := h.triedEntries_le
  have href : ∀ e ∈ A.mapInfo.toList, e.2.nRefCount ≠ 0 ↔ e.2.fInTried = false := by
    rintro ⟨nId,info⟩ he
    have hi := Std.ExtTreeMap.mem_toList_iff_getElem?_eq_some.mp he
    cases hf : info.fInTried with
    | false =>
      have hpos := h.referenced nId info hi (Set.notMem_empty nId) hf
      exact iff_of_true hpos.ne' rfl
    | true =>
      have hzero := (h.tables.references nId info hi).1
      rw [held_eq_empty.mpr (h.tables.not_held hi hf)] at hzero
      simp [hzero]
  obtain ⟨ids,hids,hindex⟩ := unkIds_eq (nodup_keys A.mapInfo) href 0 ((zero_add _).trans hnew).le
  have htriedEq := triedInfos_eq A.mapInfo.toList 0 ((zero_add _).trans htried).le
  refine ⟨⟨1,A.nKey,.ofInt A.nNew,.ofInt A.nTried,.ofNat ADDRMAN_NEW_BUCKET_COUNT,
    A.newEntries.map fun e => e.2.raw,
      A.triedEntries.map fun e => e.2.raw,newBuckets.map (A.bucketIds ids)⟩,
    fun nId => .ofInt ((ids.lookup nId).getD 0),?_,?_⟩
  · simp only [CAddrMan.dump,hids,htriedEq,Option.bind_some,Option.map_some,CAddrMan.newEntries,
      CAddrMan.triedEntries]
  have hnewInt : (Int32.ofInt A.nNew).toInt = A.newEntries.length := by
    rw [← hnew,toInt_ofInt_int32 (by omega)]
  have htriedInt : (Int32.ofInt A.nTried).toInt = A.triedEntries.length := by
    rw [← htried,toInt_ofInt_int32 (by omega)]
  have hraw : ∀ l : List (ℤ × CAddrInfo), ∀ i ∈ l.map (fun e => e.2.raw), i.raw = i := by
    intro l i hi
    obtain ⟨e,-,rfl⟩ := mem_map.mp hi
    rfl
  refine ⟨⟨show (1 : UInt8) ≠ 0 by decide,?_,?_,?_,hraw _,hraw _,?_⟩,rfl,rfl,rfl,hnewInt,htriedInt,
    rfl,rfl,rfl,fun k e he => ?_⟩
  · rw [hnewInt,Int.toNat_natCast,length_map]
  · rw [htriedInt,Int.toNat_natCast,length_map]
  · rw [length_map,newBuckets_eq,length_finRange]
    rfl
  · intro bucket hb
    obtain ⟨b,-,rfl⟩ := mem_map.mp hb
    refine (length_filterMap_le _ _).trans_lt ?_
    rw [positions_eq,length_finRange]
    decide
  · have hk := (List.getElem?_eq_some_iff.mp he).1
    rw [hindex k e he,Option.getD_some,zero_add,toInt_ofInt_int32 (by omega)]

end AddrMan
end DarkSilk
