import DarkSilk.BlockFile
import DarkSilk.BudgetVotes

/-! The cache file of the budget manager. Each type of the cache has its own list of fields
that are written; the fields that are not come back with the values of the constructors. -/
namespace DarkSilk
namespace BudgetCache

open PrefixCode
open List hiding Vector

/-- A proposal; the broadcast is the same class with another serialisation. -/
structure CBudgetProposal where
  fValid : Bool
  strProposalName : List UInt8
  strURL : List UInt8
  nBlockStart : Int32
  nBlockEnd : Int32
  nAmount : CAmount
  address : CScript
  nTime : Int64
  nFeeTXHash : UInt256
  mapVotes : HashMap CBudgetVote

/-- A finalized budget; again the broadcast differs in its serialisation only. -/
structure CFinalizedBudget where
  fAutoChecked : Bool
  fValid : Bool
  strBudgetName : List UInt8
  nBlockStart : Int32
  vecBudgetPayments : List CTxBudgetPayment
  mapVotes : HashMap CFinalizedBudgetVote
  nFeeTXHash : UInt256
  nTime : Int64

structure CBudgetManager where
  mapProposals : HashMap CBudgetProposal
  mapFinalizedBudgets : HashMap CFinalizedBudget
  mapSeenStormnodeBudgetProposals : HashMap CBudgetProposal
  mapSeenStormnodeBudgetVotes : HashMap CBudgetVote
  mapOrphanStormnodeBudgetVotes : HashMap CBudgetVote
  mapSeenFinalizedBudgets : HashMap CFinalizedBudget
  mapSeenFinalizedBudgetVotes : HashMap CFinalizedBudgetVote
  mapOrphanFinalizedBudgetVotes : HashMap CFinalizedBudgetVote

/-! The tables of the message handlers, for a manager. -/

def CBudgetProposal.toBroadcast (p : CBudgetProposal) : CBudgetProposalBroadcast :=
  ⟨p.strProposalName,p.strURL,p.nBlockStart.toInt,p.nBlockEnd.toInt,p.nAmount,p.address,p.nFeeTXHash⟩

def CFinalizedBudget.toBroadcast (b : CFinalizedBudget) : CFinalizedBudgetBroadcast :=
  ⟨b.strBudgetName,b.nBlockStart.toInt,b.vecBudgetPayments,b.nFeeTXHash⟩

def CBudgetManager.clearSeen (M : CBudgetManager) : CBudgetManager :=
  { M with
    mapSeenStormnodeBudgetProposals := ∅
    mapSeenStormnodeBudgetVotes := ∅
    mapSeenFinalizedBudgets := ∅
    mapSeenFinalizedBudgetVotes := ∅ }

def CBudgetManager.tables (M : CBudgetManager) : BudgetTables where
  proposals :=
    { mapSeen := M.mapSeenStormnodeBudgetProposals.map fun _ p => p.toBroadcast
      mapKnown := M.mapProposals.map fun _ p => (p.toBroadcast,p.mapVotes)
      mapSeenVotes := M.mapSeenStormnodeBudgetVotes
      mapOrphanVotes := M.mapOrphanStormnodeBudgetVotes }
  budgets :=
    { mapSeen := M.mapSeenFinalizedBudgets.map fun _ b => b.toBroadcast
      mapKnown := M.mapFinalizedBudgets.map fun _ b => (b.toBroadcast,b.mapVotes)
      mapSeenVotes := M.mapSeenFinalizedBudgetVotes
      mapOrphanVotes := M.mapOrphanFinalizedBudgetVotes }

def writeInt32 (n : Int32) : List UInt8 := leBytes 4 n.toUInt32.toNat

def writeInt64 (n : Int64) : List UInt8 := leBytes 8 n.toUInt64.toNat

def writeUInt256 (n : UInt256) : List UInt8 := leBytes 32 n.toNat

def writeBool (b : Bool) : List UInt8 := [if b then 1 else 0]

def readBool : Reader UInt8 Bool := (fun f => f ≠ 0) <$> readOne

/-- The limit of a string is checked when it is read only. -/
def readLimited (limit : ℕ) : Reader UInt8 (List UInt8) := do
  let size ← readCompactSize
  if size > limit then failure else readMany readOne size

def writeMap {V : Type} (enc : V → List UInt8) (m : HashMap V) : List UInt8 :=
  writeVector (fun e => writeUInt256 e.1++enc e.2) m.toList

def readItem {V : Type} (dec : Reader UInt8 V) : Reader UInt8 (UInt256 × V) := do
  let first ← readUInt256
  let second ← dec
  return (first,second)

def fillMap {V : Type} (l : List (UInt256 × V)) : HashMap V :=
  l.foldl (fun m e => m.insertIfNew e.1 e.2) ∅

def readMap {V : Type} (dec : Reader UInt8 V) : Reader UInt8 (HashMap V) := do
  let l ← readVector (readItem dec)
  return fillMap l

def CBudgetVote.serialize (v : CBudgetVote) : List UInt8 :=
  v.vin.serialize++(writeUInt256 v.nProposalHash++(writeInt32 v.nVote++(writeInt64 v.nTime++writeScript v.vchSig)))

def CBudgetVote.unserialize : Reader UInt8 CBudgetVote := do
  let vin ← CTxIn.unserialize
  let nProposalHash ← readUInt256
  let nVote ← readInt32
  let nTime ← readAmount
  let vchSig ← readScript
  return ⟨true,false,vin,nProposalHash,nVote,nTime,vchSig⟩

def CFinalizedBudgetVote.serialize (v : CFinalizedBudgetVote) : List UInt8 :=
  v.vin.serialize++(writeUInt256 v.nBudgetHash++(writeInt64 v.nTime++writeScript v.vchSig))

def CFinalizedBudgetVote.unserialize : Reader UInt8 CFinalizedBudgetVote := do
  let vin ← CTxIn.unserialize
  let nBudgetHash ← readUInt256
  let nTime ← readAmount
  let vchSig ← readScript
  return ⟨true,false,vin,nBudgetHash,nTime,vchSig⟩

def writePayment (p : CTxBudgetPayment) : List UInt8 :=
  writeScript p.payee++(writeInt64 p.nAmount++writeUInt256 p.nProposalHash)

def readPayment : Reader UInt8 CTxBudgetPayment := do
  let payee ← readScript
  let nAmount ← readAmount
  let nProposalHash ← readUInt256
  return ⟨nProposalHash,payee,nAmount⟩

/-- The time is written twice. -/
def CBudgetProposal.serialize (p : CBudgetProposal) : List UInt8 :=
  writeScript p.strProposalName++(writeScript p.strURL++(writeInt64 p.nTime++(writeInt32 p.nBlockStart++
    (writeInt32 p.nBlockEnd++(writeInt64 p.nAmount++(writeScript p.address++(writeInt64 p.nTime++
      (writeUInt256 p.nFeeTXHash++writeMap CBudgetVote.serialize p.mapVotes))))))))

def CBudgetProposal.unserialize : Reader UInt8 CBudgetProposal := do
  let strProposalName ← readLimited 20
  let strURL ← readLimited 64
  let _ ← readAmount
  let nBlockStart ← readInt32
  let nBlockEnd ← readInt32
  let nAmount ← readAmount
  let address ← readScript
  let nTime ← readAmount
  let nFeeTXHash ← readUInt256
  let mapVotes ← readMap CBudgetVote.unserialize
  return ⟨true,strProposalName,strURL,nBlockStart,nBlockEnd,nAmount,address,nTime,nFeeTXHash,mapVotes⟩

/-- The broadcast leaves the votes out. -/
def CBudgetProposal.serializeBroadcast (p : CBudgetProposal) : List UInt8 :=
  writeScript p.strProposalName++(writeScript p.strURL++(writeInt64 p.nTime++(writeInt32 p.nBlockStart++
    (writeInt32 p.nBlockEnd++(writeInt64 p.nAmount++(writeScript p.address++writeUInt256 p.nFeeTXHash))))))

def CBudgetProposal.unserializeBroadcast : Reader UInt8 CBudgetProposal := do
  let strProposalName ← readLimited 20
  let strURL ← readLimited 64
  let nTime ← readAmount
  let nBlockStart ← readInt32
  let nBlockEnd ← readInt32
  let nAmount ← readAmount
  let address ← readScript
  let nFeeTXHash ← readUInt256
  return ⟨true,strProposalName,strURL,nBlockStart,nBlockEnd,nAmount,address,nTime,nFeeTXHash,∅⟩

def CFinalizedBudget.serialize (b : CFinalizedBudget) : List UInt8 :=
  writeScript b.strBudgetName++(writeUInt256 b.nFeeTXHash++(writeInt64 b.nTime++(writeInt32 b.nBlockStart++
    (writeVector writePayment b.vecBudgetPayments++(writeBool b.fAutoChecked++
      writeMap CFinalizedBudgetVote.serialize b.mapVotes)))))

def CFinalizedBudget.unserialize : Reader UInt8 CFinalizedBudget := do
  let strBudgetName ← readLimited 20
  let nFeeTXHash ← readUInt256
  let nTime ← readAmount
  let nBlockStart ← readInt32
  let vecBudgetPayments ← readVector readPayment
  let fAutoChecked ← readBool
  let mapVotes ← readMap CFinalizedBudgetVote.unserialize
  return ⟨fAutoChecked,true,strBudgetName,nBlockStart,vecBudgetPayments,mapVotes,nFeeTXHash,nTime⟩

/-- The broadcast leaves out the votes, the time and the mark of the automatic check. -/
def CFinalizedBudget.serializeBroadcast (b : CFinalizedBudget) : List UInt8 :=
  writeScript b.strBudgetName++(writeInt32 b.nBlockStart++(writeVector writePayment b.vecBudgetPayments++
    writeUInt256 b.nFeeTXHash))

def CFinalizedBudget.unserializeBroadcast : Reader UInt8 CFinalizedBudget := do
  let strBudgetName ← readLimited 20
  let nBlockStart ← readInt32
  let vecBudgetPayments ← readVector readPayment
  let nFeeTXHash ← readUInt256
  return ⟨false,true,strBudgetName,nBlockStart,vecBudgetPayments,∅,nFeeTXHash,0⟩

/-- The copy constructor, which the insertion into a map calls: it forgets the automatic check. -/
def CFinalizedBudget.copy (b : CFinalizedBudget) : CFinalizedBudget :=
  { b with fValid := true, fAutoChecked := false }

def CBudgetProposal.copy (p : CBudgetProposal) : CBudgetProposal := { p with fValid := true }

/-- SerializationOp of the manager. The seen votes are written twice, and the orphan votes for
finalized budgets are not. -/
def CBudgetManager.serialize (M : CBudgetManager) : List UInt8 :=
  writeMap CBudgetProposal.serializeBroadcast M.mapSeenStormnodeBudgetProposals++
    (writeMap CBudgetVote.serialize M.mapSeenStormnodeBudgetVotes++
    (writeMap CFinalizedBudget.serializeBroadcast M.mapSeenFinalizedBudgets++
    (writeMap CFinalizedBudgetVote.serialize M.mapSeenFinalizedBudgetVotes++
    (writeMap CBudgetVote.serialize M.mapOrphanStormnodeBudgetVotes++
    (writeMap CBudgetVote.serialize M.mapSeenStormnodeBudgetVotes++
    (writeMap CBudgetProposal.serialize M.mapProposals++
    writeMap CFinalizedBudget.serialize M.mapFinalizedBudgets))))))

/-- The same into a fresh manager: the second reading of the seen votes replaces the first. -/
def CBudgetManager.unserialize : Reader UInt8 CBudgetManager := do
  let mapSeenStormnodeBudgetProposals ← readMap (CBudgetProposal.copy <$> CBudgetProposal.unserializeBroadcast)
  let _ ← readMap CBudgetVote.unserialize
  let mapSeenFinalizedBudgets ← readMap (CFinalizedBudget.copy <$> CFinalizedBudget.unserializeBroadcast)
  let mapSeenFinalizedBudgetVotes ← readMap CFinalizedBudgetVote.unserialize
  let mapOrphanStormnodeBudgetVotes ← readMap CBudgetVote.unserialize
  let mapSeenStormnodeBudgetVotes ← readMap CBudgetVote.unserialize
  let mapProposals ← readMap (CBudgetProposal.copy <$> CBudgetProposal.unserialize)
  let mapFinalizedBudgets ← readMap (CFinalizedBudget.copy <$> CFinalizedBudget.unserialize)
  return ⟨mapProposals,mapFinalizedBudgets,mapSeenStormnodeBudgetProposals,mapSeenStormnodeBudgetVotes,
    mapOrphanStormnodeBudgetVotes,mapSeenFinalizedBudgets,mapSeenFinalizedBudgetVotes,∅⟩

variable {V : Type} {Q : V → Prop} {enc : V → List UInt8} {dec : Reader UInt8 V}

theorem restores_compactSize :
    Restores (fun n => n ≤ MAX_SIZE) writeCompactSize readCompactSize := by
  refine ⟨reads_readCompactSize,.skip fun _ => (yields_true _).bind fun nSizeRet _ => ?_⟩
  split_ifs with h
  · exact yields_failure
  · exact .pure (not_lt.mp h)

theorem restores_vector (h : Restores Q enc dec) :
    Restores (fun l => l.length ≤ MAX_SIZE ∧ ∀ a ∈ l, Q a) (writeVector enc) (readVector dec) :=
  restores_compactSize.counted h

theorem restores_script :
    Restores (fun s : CScript => s.length ≤ MAX_SIZE) writeScript readScript :=
  ⟨reads_readScript,(restores_vector reads_readOne.restores).yields.mono fun _ h => h.1⟩

theorem restores_limited {limit} (hlimit : limit ≤ MAX_SIZE) :
    Restores (fun s : List UInt8 => s.length ≤ limit) writeScript (readLimited limit) := by
  constructor
  · intro s hs r
    rw [writeScript,writeVector,append_assoc,readLimited,reads_readCompactSize.run_bind (hs.trans hlimit),
      if_neg (not_lt.mpr hs)]
    exact reads_readOne.run_readMany (fun _ _ => trivial) r
  · refine restores_compactSize.yields.bind fun size _ => ?_
    split_ifs with h
    · exact yields_failure
    · exact ((yields_true _).many size).mono fun s hs => hs.1.le.trans (not_lt.mp h)

theorem reads_hash : Reads (fun _ => True) writeUInt256 readUInt256 := reads_uint256

theorem reads_writeInt32 : Reads (fun _ => True) writeInt32 readInt32 := reads_int32

theorem reads_writeInt64 : Reads (fun _ => True) writeInt64 readAmount := reads_amount

theorem reads_bool : Reads (fun _ => True) writeBool readBool := by
  intro b _ r
  cases b <;> rfl

theorem restores_txIn :
    Restores (fun i : CTxIn => i.scriptSig.length ≤ MAX_SIZE) CTxIn.serialize CTxIn.unserialize :=
  ⟨reads_txIn,.skip fun _ => restores_script.yields.bind fun _ hsig =>
    .skip fun _ => .pure hsig⟩

structure KeptMap (Q : V → Prop) (m : HashMap V) : Prop where
  size : m.size ≤ MAX_SIZE
  values : ∀ (hash : UInt256) (v : V), m[hash]? = some v → Q v

theorem getElem?_insertIfNew (m : HashMap V) (k h) (v : V) :
    (m.insertIfNew k v)[h]? = if k = h ∧ m[k]? = none then some v else m[h]? := by
  rw [Std.ExtTreeMap.getElem?_insertIfNew]
  refine if_congr ?_ rfl rfl
  rw [Std.ExtTreeMap.mem_iff_isSome_getElem?,Std.LawfulEqCmp.compare_eq_iff_eq,Option.not_isSome_iff_eq_none]

variable {l : List (UInt256 × V)} {m : HashMap V}

theorem getElem?_foldl_insertIfNew (hl : l.Pairwise fun a b => a.1 ≠ b.1)
    (hm : ∀ e ∈ l, m[e.1]? = none) (h : UInt256) (v : V) :
    (l.foldl (fun m e => m.insertIfNew e.1 e.2) m)[h]? = some v ↔ m[h]? = some v ∨ (h,v) ∈ l := by
  induction l generalizing m with
  | nil => simp
  | cons e l ih =>
    obtain ⟨hne,hl⟩ := pairwise_cons.mp hl
    have hnew := hm e mem_cons_self
    have hrest : ∀ e' ∈ l, (m.insertIfNew e.1 e.2)[e'.1]? = none := by
      intro e' he'
      rw [getElem?_insertIfNew,if_neg fun hk => hne e' he' hk.1]
      exact hm e' (mem_cons_of_mem _ he')
    rw [foldl_cons,ih hl hrest,getElem?_insertIfNew,mem_cons]
    by_cases hk : e.1 = h
    · subst hk
      simp [hnew,Prod.ext_iff,eq_comm]
    · simp [hk,Prod.ext_iff,Ne.symm hk]

theorem fillMap_toList (m : HashMap V) : fillMap m.toList = m := by
  refine Std.ExtTreeMap.ext_getElem? fun h => Option.ext fun v => ?_
  have hdistinct : m.toList.Pairwise fun a b => a.1 ≠ b.1 :=
    m.distinct_keys_toList.imp fun hab he => hab (by simp [he])
  rw [fillMap,getElem?_foldl_insertIfNew hdistinct (by simp),Std.ExtTreeMap.mem_toList_iff_getElem?_eq_some]
  simp

theorem keptMap_foldl (hl : ∀ e ∈ l, Q e.2)
    (hm : ∀ (hash : UInt256) (v : V), m[hash]? = some v → Q v) :
    (l.foldl (fun m e => m.insertIfNew e.1 e.2) m).size ≤ m.size+l.length ∧
      ∀ (hash : UInt256) (v : V), (l.foldl (fun m e => m.insertIfNew e.1 e.2) m)[hash]? = some v →
      Q v := by
  induction l generalizing m with
  | nil => exact ⟨by simp,hm⟩
  | cons e l ih =>
    have hstep : ∀ (hash : UInt256) (v : V), (m.insertIfNew e.1 e.2)[hash]? = some v → Q v := by
      intro hash v hv
      rw [getElem?_insertIfNew] at hv
      split_ifs at hv with hk
      · exact Option.some.inj hv ▸ hl e mem_cons_self
      · exact hm hash v hv
    obtain ⟨hsize,hvalues⟩ := ih (fun e' he' => hl e' (mem_cons_of_mem _ he')) hstep
    have hle : (m.insertIfNew e.1 e.2).size ≤ m.size+1 := Std.ExtTreeMap.size_insertIfNew_le
    exact ⟨by rw [foldl_cons,length_cons]; omega,hvalues⟩

theorem restores_item (h : Restores Q enc dec) :
    Restores (fun e : UInt256 × V => Q e.2) (fun e =>
      writeUInt256 e.1++enc e.2) (readItem dec) := by
  constructor
  · intro e he r
    rw [append_assoc,readItem,reads_hash.next,h.reads.run_bind he]
    rfl
  · exact .skip fun _ => h.yields.bind fun _ hv => .pure hv

theorem restores_map (h : Restores Q enc dec) :
    Restores (KeptMap Q) (writeMap enc) (readMap dec) := by
  have hitems := restores_vector (restores_item h)
  constructor
  · intro m hm r
    have hkept : m.toList.length ≤ MAX_SIZE ∧ ∀ e ∈ m.toList, Q e.2 :=
      ⟨Std.ExtTreeMap.length_toList.trans_le hm.size,
        fun e he => hm.values e.1 e.2 (Std.ExtTreeMap.mem_toList_iff_getElem?_eq_some.mp he)⟩
    rw [writeMap,readMap,hitems.reads.run_bind hkept,fillMap_toList]
    rfl
  · refine hitems.yields.bind fun l hl => .pure ?_
    obtain ⟨hsize,hvalues⟩ := keptMap_foldl hl.2 (m := ∅) (by simp)
    exact ⟨hsize.trans (by simpa using hl.1),hvalues⟩

structure CBudgetVote.Kept (v : CBudgetVote) : Prop where
  fValid : v.fValid = true
  fSynced : v.fSynced = false
  scriptSig : v.vin.scriptSig.length ≤ MAX_SIZE
  vchSig : v.vchSig.length ≤ MAX_SIZE

theorem restores_vote :
    Restores CBudgetVote.Kept CBudgetVote.serialize CBudgetVote.unserialize := by
  constructor
  · rintro ⟨fValid,fSynced,vin,nProposalHash,nVote,nTime,vchSig⟩ ⟨rfl,rfl,hscript,hsig⟩ r
    simp only [CBudgetVote.serialize,append_assoc]
    rw [CBudgetVote.unserialize,restores_txIn.reads.run_bind hscript,reads_hash.next,
      reads_writeInt32.next,reads_writeInt64.next,restores_script.reads.run_bind hsig]
    rfl
  · exact restores_txIn.yields.bind fun _ hscript => .skip fun _ => .skip fun _ =>
      .skip fun _ => restores_script.yields.bind fun _ hsig => .pure ⟨rfl,rfl,hscript,hsig⟩

structure CFinalizedBudgetVote.Kept (v : CFinalizedBudgetVote) : Prop where
  fValid : v.fValid = true
  fSynced : v.fSynced = false
  scriptSig : v.vin.scriptSig.length ≤ MAX_SIZE
  vchSig : v.vchSig.length ≤ MAX_SIZE

theorem restores_finalizedVote :
    Restores CFinalizedBudgetVote.Kept CFinalizedBudgetVote.serialize
      CFinalizedBudgetVote.unserialize := by
  constructor
  · rintro ⟨fValid,fSynced,vin,nBudgetHash,nTime,vchSig⟩ ⟨rfl,rfl,hscript,hsig⟩ r
    simp only [CFinalizedBudgetVote.serialize,append_assoc]
    rw [CFinalizedBudgetVote.unserialize,restores_txIn.reads.run_bind hscript,reads_hash.next,
      reads_writeInt64.next,restores_script.reads.run_bind hsig]
    rfl
  · exact restores_txIn.yields.bind fun _ hscript => .skip fun _ => .skip fun _ =>
      restores_script.yields.bind fun _ hsig => .pure ⟨rfl,rfl,hscript,hsig⟩

theorem restores_payment :
    Restores (fun p : CTxBudgetPayment => p.payee.length ≤ MAX_SIZE) writePayment readPayment := by
  constructor
  · intro p hp r
    simp only [writePayment,append_assoc]
    rw [readPayment,restores_script.reads.run_bind hp,reads_writeInt64.next,reads_hash.next]
    rfl
  · exact restores_script.yields.bind fun _ hp => .skip fun _ =>
      .skip fun _ => .pure hp

def KeptPayments (l : List CTxBudgetPayment) : Prop :=
  l.length ≤ MAX_SIZE ∧ ∀ p ∈ l, p.payee.length ≤ MAX_SIZE

theorem restores_payments :
    Restores KeptPayments (writeVector writePayment) (readVector readPayment) :=
  restores_vector restores_payment

/-- A proposal comes back if it is marked as valid, within the limits of its strings, and its
votes come back. -/
structure CBudgetProposal.Kept (p : CBudgetProposal) : Prop where
  fValid : p.fValid = true
  name : p.strProposalName.length ≤ 20
  url : p.strURL.length ≤ 64
  address : p.address.length ≤ MAX_SIZE
  votes : KeptMap CBudgetVote.Kept p.mapVotes

theorem restores_proposal :
    Restores CBudgetProposal.Kept CBudgetProposal.serialize
      (CBudgetProposal.copy <$> CBudgetProposal.unserialize) := by
  have hname := restores_limited (show 20 ≤ MAX_SIZE by decide)
  have hurl := restores_limited (show 64 ≤ MAX_SIZE by decide)
  have hvotes := restores_map restores_vote
  constructor
  · rintro ⟨fValid,name,url,nBlockStart,nBlockEnd,nAmount,address,nTime,nFeeTXHash,mapVotes⟩ ⟨rfl,hn,hu,ha,hv⟩ r
    simp only [CBudgetProposal.serialize,append_assoc]
    rw [StateT.run_map,CBudgetProposal.unserialize,hname.reads.run_bind hn,hurl.reads.run_bind hu,
      reads_writeInt64.next,reads_writeInt32.next,reads_writeInt32.next,
      reads_writeInt64.next,restores_script.reads.run_bind ha,reads_writeInt64.next,
      reads_hash.next,hvotes.reads.run_bind hv]
    rfl
  · refine Yields.map (Q := CBudgetProposal.Kept) ?_ fun p hp => ⟨rfl,hp.name,hp.url,hp.address,hp.votes⟩
    exact hname.yields.bind fun _ hn => hurl.yields.bind fun _ hu => .skip fun _ =>
      .skip fun _ => .skip fun _ => .skip fun _ =>
      restores_script.yields.bind fun _ ha => .skip fun _ => .skip fun _ =>
      hvotes.yields.bind fun _ hv => .pure ⟨rfl,hn,hu,ha,hv⟩

structure CBudgetProposal.KeptSeen (p : CBudgetProposal) : Prop where
  fValid : p.fValid = true
  name : p.strProposalName.length ≤ 20
  url : p.strURL.length ≤ 64
  address : p.address.length ≤ MAX_SIZE
  votes : p.mapVotes = ∅

theorem restores_seenProposal : Restores CBudgetProposal.KeptSeen CBudgetProposal.serializeBroadcast
    (CBudgetProposal.copy <$> CBudgetProposal.unserializeBroadcast) := by
  have hname := restores_limited (show 20 ≤ MAX_SIZE by decide)
  have hurl := restores_limited (show 64 ≤ MAX_SIZE by decide)
  constructor
  · rintro ⟨fValid,name,url,nBlockStart,nBlockEnd,nAmount,address,nTime,nFeeTXHash,mapVotes⟩ ⟨rfl,hn,hu,ha,rfl⟩ r
    simp only [CBudgetProposal.serializeBroadcast,append_assoc]
    rw [StateT.run_map,CBudgetProposal.unserializeBroadcast,hname.reads.run_bind hn,hurl.reads.run_bind hu,
      reads_writeInt64.next,reads_writeInt32.next,reads_writeInt32.next,
      reads_writeInt64.next,restores_script.reads.run_bind ha,reads_hash.next]
    rfl
  · refine Yields.map (Q := CBudgetProposal.KeptSeen) ?_ fun p hp => ⟨rfl,hp.name,hp.url,hp.address,hp.votes⟩
    exact hname.yields.bind fun _ hn => hurl.yields.bind fun _ hu => .skip fun _ =>
      .skip fun _ => .skip fun _ => .skip fun _ =>
      restores_script.yields.bind fun _ ha => .skip fun _ => .pure ⟨rfl,hn,hu,ha,rfl⟩

/-- A finalized budget comes back if it is marked as valid and not as checked, within the limit
of its name, and its payments and votes come back. -/
structure CFinalizedBudget.Kept (b : CFinalizedBudget) : Prop where
  fAutoChecked : b.fAutoChecked = false
  fValid : b.fValid = true
  name : b.strBudgetName.length ≤ 20
  payments : KeptPayments b.vecBudgetPayments
  votes : KeptMap CFinalizedBudgetVote.Kept b.mapVotes

theorem restores_finalizedBudget : Restores CFinalizedBudget.Kept CFinalizedBudget.serialize
    (CFinalizedBudget.copy <$> CFinalizedBudget.unserialize) := by
  have hname := restores_limited (show 20 ≤ MAX_SIZE by decide)
  have hvotes := restores_map restores_finalizedVote
  constructor
  · rintro ⟨fAutoChecked,fValid,name,nBlockStart,payments,mapVotes,nFeeTXHash,nTime⟩ ⟨rfl,rfl,hn,hp,hv⟩ r
    simp only [CFinalizedBudget.serialize,append_assoc]
    rw [StateT.run_map,CFinalizedBudget.unserialize,hname.reads.run_bind hn,reads_hash.next,
      reads_writeInt64.next,reads_writeInt32.next,restores_payments.reads.run_bind hp,
      reads_bool.next,hvotes.reads.run_bind hv]
    rfl
  · -- What is read from the stream as the mark is lost with the copy, so it does not matter before.
    refine Yields.map (Q := fun b => CFinalizedBudget.Kept b.copy) ?_ fun _ hb => hb
    exact hname.yields.bind fun _ hn => .skip fun _ => .skip fun _ =>
      .skip fun _ => restores_payments.yields.bind fun _ hp => .skip fun _ =>
      hvotes.yields.bind fun _ hv => .pure ⟨rfl,rfl,hn,hp,hv⟩

structure CFinalizedBudget.KeptSeen (b : CFinalizedBudget) : Prop where
  fAutoChecked : b.fAutoChecked = false
  fValid : b.fValid = true
  name : b.strBudgetName.length ≤ 20
  payments : KeptPayments b.vecBudgetPayments
  votes : b.mapVotes = ∅
  time : b.nTime = 0

theorem restores_seenFinalizedBudget :
    Restores CFinalizedBudget.KeptSeen CFinalizedBudget.serializeBroadcast
    (CFinalizedBudget.copy <$> CFinalizedBudget.unserializeBroadcast) := by
  have hname := restores_limited (show 20 ≤ MAX_SIZE by decide)
  constructor
  · rintro ⟨fAutoChecked,fValid,name,nBlockStart,payments,mapVotes,nFeeTXHash,nTime⟩ ⟨rfl,rfl,hn,hp,rfl,rfl⟩ r
    simp only [CFinalizedBudget.serializeBroadcast,append_assoc]
    rw [StateT.run_map,CFinalizedBudget.unserializeBroadcast,hname.reads.run_bind hn,reads_writeInt32.next,
      restores_payments.reads.run_bind hp,reads_hash.next]
    rfl
  · refine Yields.map (Q := CFinalizedBudget.KeptSeen) ?_ fun b hb =>
      ⟨rfl,rfl,hb.name,hb.payments,hb.votes,hb.time⟩
    exact hname.yields.bind fun _ hn => .skip fun _ => restores_payments.yields.bind fun _ hp =>
      .skip fun _ => .pure ⟨rfl,rfl,hn,hp,rfl,rfl⟩

/-- The contents of a manager that come back: no orphan votes for finalized budgets, and in the
other maps entries that come back. -/
structure CBudgetManager.Kept (M : CBudgetManager) : Prop where
  proposals : KeptMap CBudgetProposal.Kept M.mapProposals
  finalizedBudgets : KeptMap CFinalizedBudget.Kept M.mapFinalizedBudgets
  seenProposals : KeptMap CBudgetProposal.KeptSeen M.mapSeenStormnodeBudgetProposals
  seenVotes : KeptMap CBudgetVote.Kept M.mapSeenStormnodeBudgetVotes
  orphanVotes : KeptMap CBudgetVote.Kept M.mapOrphanStormnodeBudgetVotes
  seenFinalizedBudgets : KeptMap CFinalizedBudget.KeptSeen M.mapSeenFinalizedBudgets
  seenFinalizedVotes : KeptMap CFinalizedBudgetVote.Kept M.mapSeenFinalizedBudgetVotes
  orphanFinalizedVotes : M.mapOrphanFinalizedBudgetVotes = ∅

open BudgetCache.CBudgetManager

theorem restores_manager : Restores CBudgetManager.Kept serialize unserialize := by
  have hvotes := restores_map restores_vote
  have hfinalizedVotes := restores_map restores_finalizedVote
  have hproposals := restores_map restores_proposal
  have hseenProposals := restores_map restores_seenProposal
  have hbudgets := restores_map restores_finalizedBudget
  have hseenBudgets := restores_map restores_seenFinalizedBudget
  constructor
  · rintro ⟨m₁,m₂,m₃,m₄,m₅,m₆,m₇,m₈⟩ ⟨h1,h2,h3,h4,h5,h6,h7,rfl⟩ r
    simp only [serialize,append_assoc]
    rw [unserialize,hseenProposals.reads.run_bind h3,hvotes.reads.run_bind h4,
      hseenBudgets.reads.run_bind h6,hfinalizedVotes.reads.run_bind h7,hvotes.reads.run_bind h5,
      hvotes.reads.run_bind h4,hproposals.reads.run_bind h1,hbudgets.reads.run_bind h2]
    rfl
  · exact hseenProposals.yields.bind fun _ h3 => .skip fun _ => hseenBudgets.yields.bind fun _ h6 =>
      hfinalizedVotes.yields.bind fun _ h7 => hvotes.yields.bind fun _ h5 => hvotes.yields.bind fun _ h4 =>
      hproposals.yields.bind fun _ h1 => hbudgets.yields.bind fun _ h2 => .pure ⟨h1,h2,h3,h4,h5,h6,h7,rfl⟩

inductive ReadResult
  | hashReadError
  | incorrectHash
  | incorrectMagicMessage
  | incorrectMagicNumber
  | incorrectFormat
  deriving DecidableEq, Repr

def strMagicMessage : List UInt8 := "StormnodeBudget".toList.map fun c => c.toNat.toUInt8

variable (P : Params) (pchMessageStart : Vector UInt8 4)

def CBudgetDB.write (M : CBudgetManager) : List UInt8 :=
  let ssObj := writeScript strMagicMessage++(pchMessageStart.toList++M.serialize)
  ssObj++writeUInt256 (P.hash ssObj)

def CBudgetDB.readData (ssObj : List UInt8) : Except ReadResult CBudgetManager :=
  match readScript.run ssObj with
  | none => .error .incorrectFormat
  | some (strMagicMessageTmp,l) =>
    if strMagicMessage ≠ strMagicMessageTmp then .error .incorrectMagicMessage
    else match (readMany readOne 4).run l with
      | none => .error .incorrectFormat
      | some (pchMsgTmp,l) =>
        if pchMsgTmp ≠ pchMessageStart.toList then .error .incorrectMagicNumber
        else match CBudgetManager.unserialize.run l with
          | none => .error .incorrectFormat
          | some (objToLoad,_) => .ok objToLoad

/-- Read of a file that is there, into a fresh manager and without the clean-up after it. -/
def CBudgetDB.read (file : List UInt8) : Except ReadResult CBudgetManager :=
  let dataSize := file.length-32
  match readUInt256.run (file.drop dataSize) with
  | none => .error .hashReadError
  | some (hashIn,_) =>
    if hashIn ≠ P.hash (file.take dataSize) then .error .incorrectHash
    else readData pchMessageStart (file.take dataSize)

variable {P pchMessageStart}

theorem read_append_hash (ssObj) :
    CBudgetDB.read P pchMessageStart (ssObj++writeUInt256 (P.hash ssObj)) =
      CBudgetDB.readData pchMessageStart ssObj := by
  have hlen : (ssObj++writeUInt256 (P.hash ssObj)).length-32 = ssObj.length := by
    rw [length_append,writeUInt256,length_leBytes,Nat.add_sub_cancel]
  have hhash : readUInt256.run (writeUInt256 (P.hash ssObj)) = some (P.hash ssObj,[]) := by
    have hrun := reads_hash (a := P.hash ssObj) trivial []
    rwa [append_nil] at hrun
  unfold CBudgetDB.read
  dsimp only
  rw [hlen,drop_left,take_left,hhash]
  exact if_neg (not_not.mpr rfl)

theorem readData_append (l) :
    CBudgetDB.readData pchMessageStart (writeScript strMagicMessage++(pchMessageStart.toList++l)) =
      match unserialize.run l with
      | none => .error .incorrectFormat
      | some (objToLoad,_) => .ok objToLoad := by
  have hshort : strMagicMessage.length ≤ MAX_SIZE := by decide +kernel
  have hstart : (readMany readOne 4).run (pchMessageStart.toList++l) = some (pchMessageStart.toList,l) := by
    have hrun := reads_readOne.run_readMany (l := pchMessageStart.toList) (fun _ _ => trivial) l
    rwa [Vector.length_toList,flatMap_singleton'] at hrun
  simp only [CBudgetDB.readData,restores_script.reads hshort,hstart,ne_eq,not_true,if_false]

/-- The cache gives the manager back if and only if its contents are of the kind that comes back. -/
theorem cache_restores_iff (P : Params) (pchMessageStart : Vector UInt8 4) (M : CBudgetManager) :
    CBudgetDB.read P pchMessageStart (CBudgetDB.write P pchMessageStart M) = .ok M ↔ M.Kept := by
  rw [CBudgetDB.write,read_append_hash,readData_append]
  constructor
  · intro h
    cases hrun : unserialize.run M.serialize with
    | none =>
      rw [hrun] at h
      cases h
    | some x =>
      rw [hrun] at h
      cases h
      exact restores_manager.yields hrun
  · intro h
    have hrun := restores_manager.reads h []
    rw [append_nil] at hrun
    rw [hrun]

namespace Sample

def orphanVote : CFinalizedBudgetVote := ⟨true,false,⟨⟨5,0⟩,[],0xFFFFFFFF⟩,9,1450000000,[1]⟩

def orphanManager : CBudgetManager :=
  ⟨∅,∅,∅,∅,∅,∅,∅,({} : HashMap CFinalizedBudgetVote).insert 9 orphanVote⟩

def checkedBudget : CFinalizedBudget := ⟨true,true,[0x62],41091,[⟨1,[0x51],6000⟩],∅,7,1450000000⟩

def checkedManager : CBudgetManager :=
  ⟨∅,({} : HashMap CFinalizedBudget).insert 9 checkedBudget,∅,∅,∅,∅,∅,∅⟩

end Sample

open DarkSilk.BudgetCache.Sample

/-- The orphan votes for finalized budgets are gone after a restart, and a finalized budget that
was checked is no longer marked so. -/
theorem cache_forgets :
    (orphanManager.mapOrphanFinalizedBudgetVotes[(9 : UInt256)]? = some orphanVote ∧
      (unserialize.run orphanManager.serialize).map
        (fun x => x.1.mapOrphanFinalizedBudgetVotes[(9 : UInt256)]?) = some none) ∧
    (checkedManager.mapFinalizedBudgets[(9 : UInt256)]?).map CFinalizedBudget.fAutoChecked =
      some true ∧
      (unserialize.run checkedManager.serialize).map
        (fun x => (x.1.mapFinalizedBudgets[(9 : UInt256)]?).map CFinalizedBudget.fAutoChecked) =
          some (some false) := by
  decide +kernel

end BudgetCache
end DarkSilk
