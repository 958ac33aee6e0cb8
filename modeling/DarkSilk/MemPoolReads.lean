import DarkSilk.MemPool

/-! Both transaction maps of the memory pool. The node adds to the older one, which
`exists` and `size` read, and `lookup` and `queryHashes` read the newer one. Admission
is modelled in full, with its fee rules and its report of missing inputs. -/
namespace DarkSilk

open Std BatchStore List

structure MemPoolMaps extends CTxMemPool where
  mapTxNew : HashMap CTransaction

namespace MemPoolMaps

def empty : MemPoolMaps := ⟨⟨∅,fun _ => none⟩,∅⟩

def exists' (pool : MemPoolMaps) (hash : UInt256) : Bool := pool.mapTx.contains hash

def lookup (pool : MemPoolMaps) (hash : UInt256) : Option CTransaction := pool.mapTxNew[hash]?

def queryHashes (pool : MemPoolMaps) : List UInt256 := pool.mapTxNew.keys

def clear (pool : MemPoolMaps) : MemPoolMaps := ⟨⟨∅,fun _ => none⟩,pool.mapTxNew⟩

variable (P : Params)

def addUnchecked (pool : MemPoolMaps) (tx : CTransaction) : MemPoolMaps :=
  { pool with toCTxMemPool := pool.toCTxMemPool.addUnchecked P tx }

def remove (pool : MemPoolMaps) (tx : CTransaction) (fRecursive : Bool) : Option MemPoolMaps :=
  (if fRecursive then CTxMemPool.removeRecursive P (pool.mapTx.size+1) tx pool.toCTxMemPool
    else some (pool.toCTxMemPool.remove P tx)).map fun p => { pool with toCTxMemPool := p }

def removeConflicts (pool : MemPoolMaps) (tx : CTransaction) : Option MemPoolMaps :=
  (pool.toCTxMemPool.removeConflicts P tx).map fun p => { pool with toCTxMemPool := p }

def spenders (pool : MemPoolMaps) (hash : UInt256) (tx : CTransaction) : List UInt256 :=
  (List.range tx.vout.length).filterMap fun i =>
    (pool.mapNextTx ⟨hash,UInt32.ofNat i⟩).map (CTransaction.getHash P)

/-- The queue of the removal that works on the newer map and lists what it removes. -/
def removeQueue (fRecursive : Bool) (txToRemove : List UInt256) (pool : MemPoolMaps)
    (removed : List CTransaction) : MemPoolMaps × List CTransaction :=
  match txToRemove with
  | [] => (pool,removed)
  | hash::txToRemove =>
    match _htx : pool.mapTxNew[hash]? with
    | none => removeQueue fRecursive txToRemove pool removed
    | some tx =>
      removeQueue fRecursive (txToRemove++if fRecursive then pool.spenders P hash tx else [])
        ⟨⟨pool.mapTx,fun o => if o ∈ tx.prevouts then none else pool.mapNextTx o⟩,pool.mapTxNew.erase hash⟩
        (removed++[tx])
termination_by (pool.mapTxNew.size,txToRemove.length)
decreasing_by
  · exact Prod.Lex.right _ (by simp)
  · refine Prod.Lex.left _ _ ?_
    have hc : pool.mapTxNew.contains hash = true := by
      simp [ExtTreeMap.contains_eq_isSome_getElem?,_htx]
    have hpos : pool.mapTxNew.size ≠ 0 := by
      intro h0
      rw [ExtTreeMap.eq_empty_iff_size_eq_zero.mpr h0] at hc
      simp at hc
    rw [ExtTreeMap.size_erase,if_pos hc]
    omega

def removeListed (pool : MemPoolMaps) (origTx : CTransaction) (removed : List CTransaction)
    (fRecursive : Bool) :
    MemPoolMaps × List CTransaction :=
  let hash := origTx.getHash P
  removeQueue P fRecursive
    (hash::if fRecursive && !pool.mapTxNew.contains hash then pool.spenders P hash origTx else []) pool removed

def removeConflictsListed (tx : CTransaction) : List CTxIn → MemPoolMaps × List CTransaction →
    MemPoolMaps × List CTransaction
  | [], x => x
  | i::vin, x =>
    match x.1.mapNextTx i.prevout with
    | none => removeConflictsListed tx vin x
    | some txConflict =>
      removeConflictsListed tx vin (if txConflict ≠ tx then x.1.removeListed P txConflict x.2 true else x)

end MemPoolMaps

def MIN_TX_FEE : CAmount := 10000
def MIN_RELAY_TX_FEE : CAmount := MIN_TX_FEE
def DEFAULT_BLOCK_PRIORITY_SIZE : ℕ := 50000

inductive GetMinFeeMode
  | GMF_BLOCK
  | GMF_RELAY
  | GMF_SEND
  deriving DecidableEq

def getMinFee (tx : CTransaction) (nBytes : ℕ) (fAllowFree : Bool) (mode : GetMinFeeMode) :
    CAmount :=
  let nBaseFee := if mode = .GMF_RELAY then MIN_RELAY_TX_FEE else MIN_TX_FEE
  let nMinFee := (1+Int64.ofNat (nBytes/1000))*nBaseFee
  let nMinFee :=
    if fAllowFree && nBytes < (if mode = .GMF_SEND then 1000 else DEFAULT_BLOCK_PRIORITY_SIZE-1000) then 0
    else nMinFee
  let nMinFee :=
    if nMinFee < nBaseFee && mode = .GMF_SEND && tx.vout.any (fun o => o.nValue < CENT) then nBaseFee
    else nMinFee
  if moneyRange nMinFee then nMinFee else MAX_MONEY

/-- What a call of AcceptToMemoryPool finds beside the transaction and the pool: the
world outside, the chain, the records on disk, its flags, and whether the rate limiter
has had enough of free transactions. -/
structure AcceptCall where
  W : World
  tip : Tip
  pdb : Store DbKey.Val
  fLimitFree : Bool
  ignoreFees : Bool
  rateLimited : Bool

variable (P : Params)

def checkRelayFee (c : AcceptCall) (tx : CTransaction) (nFees : CAmount) : Except Reject Unit := do
  require (!(!c.ignoreFees && c.fLimitFree && nFees < getMinFee tx tx.serialize.length true .GMF_RELAY)) 0
    "AcceptToMemoryPool : not enough fees"
  require (!(!c.ignoreFees && c.fLimitFree && nFees < MIN_RELAY_TX_FEE && c.rateLimited)) 0
    "AcceptableInputs : free transaction rejected by rate limiter"

/-- What the index does not have is looked up in the pool. -/
def MemPoolMaps.acceptInputs (c : AcceptCall) (tx : CTransaction) (pool : MemPoolMaps) :
    Except Reject Unit :=
  DarkSilk.acceptInputs P { c.W with lookup := pool.lookup } c.tip ⟨c.pdb,none⟩ (checkRelayFee c tx) tx

/-- AcceptToMemoryPool with the value it leaves in `pfMissingInputs`. -/
def MemPoolMaps.acceptToMemoryPool (c : AcceptCall) (tx : CTransaction) (pool : MemPoolMaps) :
    Bool × Except Reject MemPoolMaps :=
  match acceptable P c.W tx pool.toCTxMemPool with
  | .error e => (false,.error e)
  | .ok _ =>
    if tx.vin.all fun i => CTxDB.containsTx ⟨c.pdb,none⟩ i.prevout.hash then
      (false,(pool.acceptInputs P c tx).map fun _ => pool.addUnchecked P tx)
    else (true,.error ⟨0,""⟩)

variable {P} {c : AcceptCall} {tx : CTransaction} {pool : MemPoolMaps}

theorem checkRelayFee_of_not_fLimitFree (h : c.fLimitFree = false) (tx) :
    checkRelayFee c tx = fun _ => .ok () := by
  funext nFees
  simp [checkRelayFee,h]

theorem checkAll_require {α : Type} (f : α → Bool) (n e l) :
    checkAll (fun a => require (f a) n e) l = require (l.all f) n e := by
  induction l with
  | nil => rfl
  | cons a l ih =>
    rw [checkAll,ih,all_cons]
    cases f a <;> rfl

/-- With no fee demanded this is the admission that Reorganize asks for. -/
theorem acceptToMemoryPool_eq (h : c.fLimitFree = false) :
    (pool.acceptToMemoryPool P c tx).2.map MemPoolMaps.toCTxMemPool =
      acceptToMemoryPool P { c.W with lookup := pool.lookup } c.tip ⟨c.pdb,none⟩ tx
        pool.toCTxMemPool := by
  rw [acceptToMemoryPool,checkAll_require,MemPoolMaps.acceptToMemoryPool,MemPoolMaps.acceptInputs,
    checkRelayFee_of_not_fLimitFree h]
  change _ = (acceptable P c.W tx pool.toCTxMemPool >>= _)
  cases acceptable P c.W tx pool.toCTxMemPool with
  | error e => rfl
  | ok u =>
    split_ifs with hall
    · rw [hall]
      cases acceptInputs P { c.W with lookup := pool.lookup } c.tip ⟨c.pdb,none⟩ (fun _ => .ok ()) tx <;> rfl
    · rw [Bool.not_eq_true] at hall
      rw [hall]
      rfl

/-- A change of the pool: an addition by the node, a removal in one of its forms, or
the clearing of the pool. -/
inductive PoolOp
  | accept (c : AcceptCall) (tx : CTransaction)
  | remove (tx : CTransaction) (fRecursive : Bool)
  | removeConflicts (tx : CTransaction)
  | removeListed (tx : CTransaction) (fRecursive : Bool)
  | removeConflictsListed (tx : CTransaction)
  | clear

variable (P)

/-- A refused transaction leaves the pool as it is; a removal that never ends has no result. -/
def MemPoolMaps.step (pool : MemPoolMaps) : PoolOp → Option MemPoolMaps
  | .accept c tx => some ((pool.acceptToMemoryPool P c tx).2.toOption.getD pool)
  | .remove tx fRecursive => pool.remove P tx fRecursive
  | .removeConflicts tx => pool.removeConflicts P tx
  | .removeListed tx fRecursive => some (pool.removeListed P tx [] fRecursive).1
  | .removeConflictsListed tx => some (MemPoolMaps.removeConflictsListed P tx tx.vin (pool,[])).1
  | .clear => some pool.clear

inductive MemPoolMaps.Reached : MemPoolMaps → Prop
  | empty : Reached .empty
  | step {pool pool' : MemPoolMaps} (op : PoolOp) (h : Reached pool) (hop : pool.step P op = some pool') :
    Reached pool'

namespace MemPoolMaps

def ReadsAgree (pool : MemPoolMaps) : Prop :=
  (∀ h : UInt256, pool.lookup h = pool.mapTx[h]?) ∧ ∀ h : UInt256, h ∈ pool.queryHashes ↔ pool.exists' h

variable {P} {pool' : MemPoolMaps}

theorem removeQueue_of_mapTxNew (h : pool.mapTxNew = ∅) (fRecursive queue removed) :
    removeQueue P fRecursive queue pool removed = (pool,removed) := by
  induction queue with
  | nil => rw [removeQueue]
  | cons hash queue ih =>
    rw [removeQueue]
    split
    · exact ih
    · rename_i tx htx
      rw [h,ExtTreeMap.getElem?_empty] at htx
      cases htx

theorem removeConflictsListed_of_mapTxNew (vin removed) (h : pool.mapTxNew = ∅) :
    removeConflictsListed P tx vin (pool,removed) = (pool,removed) := by
  induction vin with
  | nil => rfl
  | cons i vin ih =>
    rw [removeConflictsListed]
    split
    · exact ih
    · rw [removeListed,removeQueue_of_mapTxNew h,ite_self]
      exact ih

theorem mapTxNew_step {op} (hop : pool.step P op = some pool') (h : pool.mapTxNew = ∅) :
    pool'.mapTxNew = ∅ := by
  cases op with
  | accept c tx =>
    cases hop
    rw [acceptToMemoryPool]
    split
    · exact h
    · split_ifs
      · cases pool.acceptInputs P c tx with
        | error e => exact h
        | ok u => exact h
      · exact h
  | remove tx fRecursive =>
    obtain ⟨p,-,rfl⟩ := Option.map_eq_some_iff.mp hop
    exact h
  | removeConflicts tx =>
    obtain ⟨p,-,rfl⟩ := Option.map_eq_some_iff.mp hop
    exact h
  | removeListed tx fRecursive =>
    cases hop
    rw [removeListed,removeQueue_of_mapTxNew h]
    exact h
  | removeConflictsListed tx =>
    cases hop
    rw [removeConflictsListed_of_mapTxNew _ _ h]
    exact h
  | clear =>
    cases hop
    exact h

theorem Reached.mapTxNew (h : Reached P pool) : pool.mapTxNew = ∅ := by
  induction h with
  | empty => rfl
  | step op _ hop ih => exact mapTxNew_step hop ih

theorem Reached.lookup (h : Reached P pool) (hash : UInt256) : pool.lookup hash = none := by
  rw [MemPoolMaps.lookup,h.mapTxNew,ExtTreeMap.getElem?_empty]

/-- The read functions agree on a pool of the node exactly while it is empty. -/
theorem readsAgree_iff_empty (h : Reached P pool) : pool.ReadsAgree ↔ pool.mapTx = ∅ := by
  have hquery : ∀ hash : UInt256, hash ∉ pool.queryHashes := by
    intro hash
    rw [queryHashes,h.mapTxNew,ExtTreeMap.mem_keys]
    exact ExtTreeMap.not_mem_empty
  constructor
  · intro hr
    refine ExtTreeMap.ext_getElem? fun hash => ?_
    rw [← hr.1 hash,h.lookup,ExtTreeMap.getElem?_empty]
  · intro hempty
    refine ⟨fun hash => ?_,fun hash => ?_⟩
    · rw [h.lookup,hempty,ExtTreeMap.getElem?_empty]
    · simp [exists',hempty,hquery]

end MemPoolMaps

namespace Sample

def relayed : AcceptCall := ⟨world 300 [fundBlock],tip,state.txdb.pdb,true,false,false⟩

def admitted : MemPoolMaps :=
  (MemPoolMaps.empty.acceptToMemoryPool params relayed pay₁).2.toOption.getD .empty

theorem reached_admitted : admitted.Reached params := .step (.accept relayed pay₁) .empty rfl

theorem exists_pay₁ : admitted.exists' (pay₁.getHash params) := by decide +kernel

end Sample

open Sample

theorem readsAgree_iff_empty_cleared : admitted.clear.ReadsAgree :=
  (MemPoolMaps.readsAgree_iff_empty (.step .clear reached_admitted rfl)).mpr rfl

/-- A transaction that was just added exists, and yet it is not found or listed. -/
theorem reads_disagree_admitted :
    admitted.Reached params ∧ admitted.exists' (pay₁.getHash params) = true ∧
      admitted.lookup (pay₁.getHash params) = none ∧ admitted.queryHashes = [] :=
  ⟨reached_admitted,exists_pay₁,by decide +kernel,by decide +kernel⟩

variable {P} {lookup : UInt256 → Option CTransaction}

def AcceptCall.Known (c : AcceptCall) (pool : MemPoolMaps) (hash : UInt256) : Prop :=
  (c.pdb (.tx hash)).isSome ∨ pool.exists' hash

def AcceptCall.Readable (c : AcceptCall) (hash : UInt256) : Prop :=
  ∃ r : CTxIndex, c.pdb (.tx hash) = some r ∧ r.pos ≠ .memPool ∧ (c.W.readTx r.pos).isSome

def AcceptCall.fetchInputs (c : AcceptCall) (lookup : UInt256 → Option CTransaction)
    (tx : CTransaction) :
    Except Reject MapPrevTx :=
  DarkSilk.fetchInputs { c.W with lookup := lookup } ⟨c.pdb,none⟩ ∅ false false tx

/-- It finds every previous transaction; all it may still object to is the number of an output. -/
def AcceptCall.FindsInputs (c : AcceptCall) (pool : MemPoolMaps) (tx : CTransaction) : Prop :=
  ∀ e, c.fetchInputs pool.lookup tx = .error e → e = ⟨100,"FetchInputs() : prevout.n out of range"⟩

theorem fetchInput_spec (hl : ∀ h, lookup h = none) (inputs : MapPrevTx) (i) :
    match fetchInput { c.W with lookup := lookup } ⟨c.pdb,none⟩ ∅ false false inputs i with
    | .ok inputs' => (i.prevout.hash ∈ inputs ∨ c.Readable i.prevout.hash) ∧
        ∀ h : UInt256, h ∈ inputs' ↔ h = i.prevout.hash ∨ h ∈ inputs
    | .error e => ¬ (i.prevout.hash ∈ inputs ∨ c.Readable i.prevout.hash) ∧ e.nDoS = 0 := by
  have hread : CTxDB.readTxIndex ⟨c.pdb,none⟩ i.prevout.hash = c.pdb (.tx i.prevout.hash) := rfl
  simp only [fetchInput,fetchTxIndex,Bool.or_self,Bool.false_eq_true,if_false,hread]
  by_cases hmem : i.prevout.hash ∈ inputs
  · rw [if_pos (ExtTreeMap.contains_iff_mem.mpr hmem)]
    refine ⟨.inl hmem,fun h => ⟨.inr,?_⟩⟩
    rintro (rfl | h)
    · exact hmem
    · exact h
  · rw [if_neg (by rwa [ExtTreeMap.contains_iff_mem])]
    cases hr : c.pdb (.tx i.prevout.hash) with
    | none => simp [AcceptCall.Readable,hl,hr,hmem]
    | some r =>
      by_cases hpos : r.pos = .memPool
      · simp [AcceptCall.Readable,fetchTxPrev,hl,hr,hmem,hpos,bind,Except.bind]
      · cases ht : c.W.readTx r.pos with
        | none => simp [AcceptCall.Readable,fetchTxPrev,hr,hmem,hpos,ht,bind,Except.bind]
        | some t =>
          simp only [fetchTxPrev,hpos,if_false,ht,bind,Except.bind]
          refine ⟨.inr ⟨r,hr,hpos,by simp [ht]⟩,fun h => ?_⟩
          rw [ExtTreeMap.mem_insert,Std.compare_eq_iff_eq,eq_comm]

theorem fetchLoop_spec (hl : ∀ h, lookup h = none) (vin) (inputs : MapPrevTx) :
    match fetchLoop { c.W with lookup := lookup } ⟨c.pdb,none⟩ ∅ false false vin inputs with
    | .ok _ => ∀ i ∈ vin, i.prevout.hash ∈ inputs ∨ c.Readable i.prevout.hash
    | .error e => ¬ (∀ i ∈ vin, i.prevout.hash ∈ inputs ∨ c.Readable i.prevout.hash) ∧ e.nDoS = 0 := by
  induction vin generalizing inputs with
  | nil => simp [fetchLoop]
  | cons i vin ih =>
    have hi := fetchInput_spec (c := c) hl inputs i
    rw [fetchLoop]
    cases hf : fetchInput { c.W with lookup := lookup } ⟨c.pdb,none⟩ ∅ false false inputs i with
    | error e =>
      rw [hf] at hi
      exact ⟨fun h => hi.1 (h i mem_cons_self),hi.2⟩
    | ok inputs' =>
      rw [hf] at hi
      obtain ⟨hfirst,hkeys⟩ := hi
      -- what the first input adds was readable, or known before
      have hrest : (∀ j ∈ vin, j.prevout.hash ∈ inputs' ∨ c.Readable j.prevout.hash) ↔
          ∀ j ∈ i::vin, j.prevout.hash ∈ inputs ∨ c.Readable j.prevout.hash := by
        rw [forall_mem_cons,and_iff_right hfirst]
        refine forall₂_congr fun j _ => ?_
        rw [hkeys]
        constructor
        · rintro ((h | h) | h)
          · exact h ▸ hfirst
          · exact .inl h
          · exact .inr h
        · rintro (h | h)
          · exact .inl (.inr h)
          · exact .inr h
      rw [← hrest]
      exact ih inputs'

theorem findsInputs_iff (hl : ∀ h, pool.lookup h = none) :
    c.FindsInputs pool tx ↔ tx.isCoinBase ∨ ∀ i ∈ tx.vin, c.Readable i.prevout.hash := by
  have hloop := fetchLoop_spec (c := c) hl tx.vin ∅
  simp only [ExtTreeMap.not_mem_empty,false_or] at hloop
  unfold AcceptCall.FindsInputs AcceptCall.fetchInputs fetchInputs
  cases hcb : tx.isCoinBase with
  | true => simp
  | false =>
    simp only [Bool.false_eq_true,if_false,false_or]
    cases hf : fetchLoop { c.W with lookup := pool.lookup } ⟨c.pdb,none⟩ ∅ false false tx.vin ∅ with
    | error e =>
      rw [hf] at hloop
      refine iff_of_false (fun h => ?_) hloop.1
      have he := h e rfl
      rw [he] at hloop
      exact absurd hloop.2 (by decide)
    | ok inputs =>
      rw [hf] at hloop
      refine iff_of_true (fun e he => ?_) hloop
      change (checkAll _ tx.vin >>= fun _ => Except.ok inputs) = _ at he
      rw [checkAll_require] at he
      cases hr : tx.vin.all fun i => inRange inputs i.prevout with
      | true =>
        rw [hr] at he
        exact absurd he (by simp [require,bind,Except.bind])
      | false =>
        rw [hr] at he
        simpa [require,bind,Except.bind,eq_comm] using he

/-- Admission reports missing inputs exactly if the earlier checks pass and some input
names a transaction outside of the index. -/
theorem missingInputs_iff_not_indexed :
    (pool.acceptToMemoryPool P c tx).1 ↔ acceptable P c.W tx pool.toCTxMemPool = .ok () ∧
      ∃ i ∈ tx.vin, c.pdb (.tx i.prevout.hash) = none := by
  have hcontains : ∀ h, CTxDB.containsTx ⟨c.pdb,none⟩ h = (c.pdb (.tx h)).isSome := fun _ => rfl
  unfold MemPoolMaps.acceptToMemoryPool
  cases acceptable P c.W tx pool.toCTxMemPool with
  | error e => simp
  | ok u =>
    simp only [hcontains,true_and]
    split_ifs with hall
    · simp only [all_eq_true] at hall
      refine iff_of_false (by simp) ?_
      rintro ⟨i,hi,hnone⟩
      have := hall i hi
      simp [hnone] at this
    · simpa using hall

theorem acceptToMemoryPool_ok {pool'} (h : (pool.acceptToMemoryPool P c tx).2 = .ok pool') :
    pool' = pool.addUnchecked P tx ∧ pool.exists' (tx.getHash P) = false ∧
      ∀ i ∈ tx.vin, (c.pdb (.tx i.prevout.hash)).isSome := by
  unfold MemPoolMaps.acceptToMemoryPool at h
  cases hacc : acceptable P c.W tx pool.toCTxMemPool with
  | error e =>
    rw [hacc] at h
    cases h
  | ok u =>
    simp only [hacc] at h
    split_ifs at h with hall
    · have hnew : pool.exists' (tx.getHash P) = false := by
        simp only [acceptable,andThen_eq_ok,require_eq_ok,Bool.not_eq_true'] at hacc
        exact hacc.2.2.2.2.1
      refine ⟨?_,hnew,fun i hi => all_eq_true.mp hall i hi⟩
      cases hin : pool.acceptInputs P c tx with
      | error e =>
        rw [hin] at h
        exact absurd h (by simp [Except.map])
      | ok u =>
        rw [hin] at h
        exact (Except.ok.inj h).symm

/-- For a transaction whose inputs are all known, admission reports nothing missing and
FetchInputs finds every previous transaction exactly if all of them are in the index:
those that are in the pool alone count as missing. -/
theorem finds_known_iff_readable (hp : pool.Reached P) :
    (((∀ i ∈ tx.vin, c.Known pool i.prevout.hash) →
          (pool.acceptToMemoryPool P c tx).1 = false ∧ c.FindsInputs pool tx) ∧
        ((pool.acceptToMemoryPool P c tx).1 = true → ∃ i ∈ tx.vin, ¬ c.Known pool i.prevout.hash)) ↔
      ((∀ i ∈ tx.vin, c.Known pool i.prevout.hash) →
        tx.isCoinBase ∨ ∀ i ∈ tx.vin, c.Readable i.prevout.hash) := by
  rw [findsInputs_iff hp.lookup]
  constructor
  · rintro ⟨h,-⟩ hknown
    exact (h hknown).2
  · intro h
    have hreport : (∀ i ∈ tx.vin, c.Known pool i.prevout.hash) → (pool.acceptToMemoryPool P c tx).1 = false := by
      intro hknown
      rw [← Bool.not_eq_true,missingInputs_iff_not_indexed]
      rintro ⟨hacc,i,hi,hnone⟩
      rcases h hknown with hcb | hread
      · simp [acceptable,hcb] at hacc
      · obtain ⟨r,hr,-⟩ := hread i hi
        rw [hnone] at hr
        cases hr
    refine ⟨fun hknown => ⟨hreport hknown,h hknown⟩,fun hmiss => ?_⟩
    by_contra hall
    push Not at hall
    rw [hreport hall] at hmiss
    cases hmiss

def Sample.pay₃ : CTransaction :=
  Sample.payment 150 [⟨Sample.fund.getHash Sample.params,1⟩] [⟨9*COIN,Sample.opTrue⟩]

open Sample

theorem finds_known_iff_readable_pay₃ :
    (admitted.acceptToMemoryPool params relayed pay₃).1 = false ∧
      relayed.FindsInputs admitted pay₃ := by
  have hfund : relayed.pdb (.tx (fund.getHash params)) = some
      (.new (fundBlock.diskTxPos (firstTxPos fundBlock fundBlock.block false)) 2) := by
    decide +kernel
  have hread : ∀ i ∈ pay₃.vin, relayed.Readable i.prevout.hash := by
    intro i hi
    obtain rfl := mem_singleton.mp hi
    exact ⟨_,hfund,by decide +kernel,by decide +kernel⟩
  refine ((finds_known_iff_readable reached_admitted).mpr fun _ => .inr hread).1 fun i hi => .inl ?_
  obtain ⟨r,hr,-⟩ := hread i hi
  rw [hr]
  rfl

/-- Both parents are known, one of them to the pool alone: it is reported missing, and
FetchInputs does not find it. -/
theorem known_parent_missing : admitted.Reached params ∧
      (∀ i ∈ pay₂.vin, relayed.Known admitted i.prevout.hash) ∧
      (admitted.acceptToMemoryPool params relayed pay₂).1 = true ∧
      relayed.fetchInputs admitted.lookup pay₂ =
        .error ⟨0,"FetchInputs() : mempool Tx prev not found"⟩ := by
  refine ⟨reached_admitted,?_,by decide +kernel,?_⟩
  · intro i hi
    rcases mem_pair.mp hi with rfl | rfl
    · exact .inr exists_pay₁
    · exact .inl (by decide +kernel)
  · have herr : (relayed.fetchInputs admitted.lookup pay₂).map (fun _ => ()) =
        .error ⟨0,"FetchInputs() : mempool Tx prev not found"⟩ := by decide +kernel
    cases hf : relayed.fetchInputs admitted.lookup pay₂ with
    | error e =>
      rw [hf] at herr
      exact congrArg _ (Except.error.inj herr)
    | ok m =>
      rw [hf] at herr
      cases herr

end DarkSilk
