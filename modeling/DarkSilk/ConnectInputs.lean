import DarkSilk.TxDB

/-! Spending the inputs of one transaction: collecting the transactions it refers to,
checking them, and marking their outputs as spent in the queue of index changes. -/
namespace DarkSilk

open List Option SpendIndex

/-- The globals that describe the current best chain; they are only ever set together. -/
structure Tip where
  pindexBest : CBlockIndex
  nBestHeight : ℤ
  height_eq : nBestHeight = pindexBest.nHeight

abbrev MapPrevTx := HashMap (CTxIndex × CTransaction)

def nCoinbaseMaturity : ℕ := 10

def COutPoint.key (o : COutPoint) : UInt256 × ℕ := (o.hash,o.n.toNat)

namespace Checkpoints

def mapCheckpoints (P : Params) : List (ℕ × UInt256) :=
  if P.testNet then []
  else [(0,0xdcc5e22e275eff273799a4c06493f8364316d032813c22845602f05ff13d7ec7)]

def getTotalBlocksEstimate (P : Params) : ℤ :=
  match (mapCheckpoints P).getLast? with
  | none => 0
  | some c => c.1

theorem getTotalBlocksEstimate_eq_zero (P) : getTotalBlocksEstimate P = 0 := by
  unfold getTotalBlocksEstimate mapCheckpoints
  cases P.testNet <;> rfl

def checkHardened (P : Params) (nHeight : ℕ) (hash : UInt256) : Bool :=
  match (mapCheckpoints P).find? (fun c => c.1 = nHeight) with
  | none => true
  | some c => hash = c.2

end Checkpoints

/-- Is the transaction in one of the `nMaxDepth` blocks that end with `pindexFrom`? -/
def isConfirmedInNPrevBlocks (txindex : CTxIndex) (pindexFrom : CBlockIndex) (nMaxDepth : ℕ) :
    Bool :=
  (pindexFrom.path.take nMaxDepth).any fun d =>
    d.nBlockPos = txindex.pos.nBlockPos && d.nFile = txindex.pos.nFile

namespace Flags

def NOCACHE : UInt32 := 1
def STRICTENC : UInt32 := 2
def NULLDUMMY : UInt32 := 16
def DISCOURAGE_UPGRADABLE_NOPS : UInt32 := 128
def ALLOW_EMPTY_SIG : UInt32 := 256
def FIX_HASHTYPE : UInt32 := 512
def CHECKLOCKTIMEVERIFY : UInt32 := 1024

def MANDATORY : UInt32 := NULLDUMMY ||| STRICTENC ||| CHECKLOCKTIMEVERIFY
def STANDARD : UInt32 := MANDATORY ||| DISCOURAGE_UPGRADABLE_NOPS
def STANDARD_NOT_MANDATORY : UInt32 := STANDARD &&& ~~~MANDATORY

def block : UInt32 :=
  NOCACHE ||| NULLDUMMY ||| STRICTENC ||| ALLOW_EMPTY_SIG ||| FIX_HASHTYPE ||| CHECKLOCKTIMEVERIFY

end Flags

section

variable (W : World) (db : CTxDB) (pool : HashMap CTxIndex) (fBlock fMiner : Bool)

def fetchTxPrev (hash : UInt256) (pos : CDiskTxPos) : Except Reject CTransaction :=
  if pos = .memPool then
    match W.lookup hash with
    | none => .error ⟨0,"FetchInputs() : mempool Tx prev not found"⟩
    | some txPrev => .ok txPrev
  else
    match W.readTx pos with
    | none => .error ⟨0,"FetchInputs() : ReadFromDisk prev tx failed"⟩
    | some txPrev => .ok txPrev

def fetchTxIndex (hash : UInt256) : Option CTxIndex :=
  if fBlock || fMiner then (pool[hash]?).or (db.readTxIndex hash) else db.readTxIndex hash

def fetchInput (inputs : MapPrevTx) (txin : CTxIn) : Except Reject MapPrevTx :=
  let hash := txin.prevout.hash
  if inputs.contains hash then .ok inputs
  else match fetchTxIndex db pool fBlock fMiner hash with
    | some txindex => do
      let txPrev ← fetchTxPrev W hash txindex.pos
      .ok (inputs.insert hash (txindex,txPrev))
    | none =>
      if fBlock || fMiner then .error ⟨0,"FetchInputs() : prev tx index entry not found"⟩
      else match W.lookup hash with
        | none => .error ⟨0,"FetchInputs() : mempool Tx prev not found"⟩
        | some txPrev => .ok (inputs.insert hash (CTxIndex.new .setNull txPrev.vout.length,txPrev))

def fetchLoop : List CTxIn → MapPrevTx → Except Reject MapPrevTx
  | [], inputs => .ok inputs
  | txin::vin, inputs => do
    let inputs ← fetchInput W db pool fBlock fMiner inputs txin
    fetchLoop vin inputs

def inRange (inputs : MapPrevTx) (o : COutPoint) : Bool :=
  match inputs[o.hash]? with
  | none => false
  | some (txindex,txPrev) => o.n.toNat < txPrev.vout.length && o.n.toNat < txindex.vSpent.length

def fetchInputs (tx : CTransaction) : Except Reject MapPrevTx :=
  if tx.isCoinBase then .ok ∅
  else do
    let inputs ← fetchLoop W db pool fBlock fMiner tx.vin ∅
    checkAll (fun i => require (inRange inputs i.prevout) 100 "FetchInputs() : prevout.n out of range") tx.vin
    .ok inputs

end

def getOutputFor (inputs : MapPrevTx) (o : COutPoint) : Option CTxOut :=
  (inputs[o.hash]?).bind fun e => e.2.vout[o.n.toNat]?

def addValueIn (inputs : MapPrevTx) : CAmount → List CTxIn → Option CAmount
  | nResult, [] => some nResult
  | nResult, i::vin =>
    match getOutputFor inputs i.prevout with
    | none => none
    | some o => addValueIn inputs (nResult+o.nValue) vin

def getValueIn (inputs : MapPrevTx) (tx : CTransaction) : Option CAmount :=
  if tx.isCoinBase then some 0 else addValueIn inputs 0 tx.vin

def getP2SHSigOpCount (inputs : MapPrevTx) (tx : CTransaction) : ℕ :=
  if tx.isCoinBase then 0
  else (tx.vin.map fun i =>
    match getOutputFor inputs i.prevout with
    | none => 0
    | some o =>
      if Script.isPayToScriptHash o.scriptPubKey then Script.getSigOpCountP2SH o.scriptPubKey i.scriptSig
      else 0).sum

variable (P : Params) (tip : Tip) (tx : CTransaction) (posThisTx : CDiskTxPos) (pindexBlock : CBlockIndex)
  (fBlock fMiner : Bool) (flags : UInt32) (fValidateSig : Bool)

def checkInput (inputs : MapPrevTx) (nValueIn : CAmount) (txin : CTxIn) : Except Reject CAmount :=
  match inputs[txin.prevout.hash]? with
  | none => .error ⟨0,"assert(inputs.count(prevout.hash) > 0)"⟩
  | some (txindex,txPrev) => do
    require (inRange inputs txin.prevout) 100 "ConnectInputs() : prevout.n out of range"
    require (!((txPrev.isCoinBase || txPrev.isCoinStake) &&
        isConfirmedInNPrevBlocks txindex pindexBlock nCoinbaseMaturity)) 0
      (if txPrev.isCoinBase then "ConnectInputs() : tried to spend coinbase"
       else "ConnectInputs() : tried to spend coinstake")
    require (txPrev.nTime ≤ tx.nTime) 100
      "ConnectInputs() : transaction timestamp earlier than input transaction"
    match txPrev.vout[txin.prevout.n.toNat]? with
    | none => .error ⟨100,"ConnectInputs() : prevout.n out of range"⟩
    | some o => do
      require (!o.isEmpty) 1 "ConnectInputs() : special marker is not spendable"
      require (moneyRange o.nValue && moneyRange (nValueIn+o.nValue)) 100
        "ConnectInputs() : txin values out of range"
      .ok (nValueIn+o.nValue)

def checkInputs (inputs : MapPrevTx) : CAmount → List CTxIn → Except Reject CAmount
  | nValueIn, [] => .ok nValueIn
  | nValueIn, i::vin => do
    let nValueIn ← checkInput tx pindexBlock inputs nValueIn i
    checkInputs inputs nValueIn vin

/-- A signature that fails only by a rule that is not mandatory is refused without a score. -/
def verifyInput (txPrev : CTransaction) (nIn : ℕ) : Except Reject Unit :=
  if P.verifySignature txPrev tx nIn flags then .ok ()
  else if flags &&& Flags.STANDARD_NOT_MANDATORY ≠ 0 &&
      P.verifySignature txPrev tx nIn (flags &&& ~~~Flags.STANDARD_NOT_MANDATORY) then
    .error ⟨0,"ConnectInputs() : non-mandatory VerifySignature failed"⟩
  else .error ⟨100,"ConnectInputs() : VerifySignature failed"⟩

def spendInput (nIn : ℕ) (txin : CTxIn) (s : MapPrevTx × HashMap CTxIndex) :
    Except Reject (MapPrevTx × HashMap CTxIndex) :=
  match s.1[txin.prevout.hash]? with
  | none => .error ⟨0,"assert(inputs.count(prevout.hash) > 0)"⟩
  | some (txindex,txPrev) => do
    require (match txindex.vSpent[txin.prevout.n.toNat]? with | some p => p.isNull | none => false) 0
      "ConnectInputs() : prev tx already used"
    (if fValidateSig && !(fBlock && tip.nBestHeight < Checkpoints.getTotalBlocksEstimate P) then
      verifyInput P tx flags txPrev nIn else .ok ())
    let txindex : CTxIndex := ⟨txindex.pos,txindex.vSpent.set txin.prevout.n.toNat posThisTx⟩
    .ok (s.1.insert txin.prevout.hash (txindex,txPrev),
      if fBlock || fMiner then s.2.insert txin.prevout.hash txindex else s.2)

def spendInputs : ℕ → List CTxIn → MapPrevTx × HashMap CTxIndex →
    Except Reject (MapPrevTx × HashMap CTxIndex)
  | _, [], s => .ok s
  | nIn, i::vin, s => do
    let s ← spendInput P tip tx posThisTx fBlock fMiner flags fValidateSig nIn i s
    spendInputs (nIn+1) vin s

def checkFee (nValueIn : CAmount) : Except Reject Unit :=
  if tx.isCoinStake then .ok ()
  else match tx.getValueOut with
    | none => .error ⟨0,"CTransaction::GetValueOut() : value out of range"⟩
    | some iValOut => do
      require (iValOut ≤ nValueIn) 100 "ConnectInputs() : value in < value out"
      require (0 ≤ nValueIn-iValOut) 100 "ConnectInputs() : nTxFee < 0"
      require (moneyRange (0+(nValueIn-iValOut))) 100 "ConnectInputs() : nFees out of range"

def connectInputs (inputs : MapPrevTx) (pool : HashMap CTxIndex) :
    Except Reject (HashMap CTxIndex) :=
  if tx.isCoinBase then .ok pool
  else do
    let nValueIn ← checkInputs tx pindexBlock inputs 0 tx.vin
    let s ← spendInputs P tip tx posThisTx fBlock fMiner flags fValidateSig 0 tx.vin (inputs,pool)
    checkFee tx nValueIn
    .ok s.2

variable {W : World} {db : CTxDB} {pool : HashMap CTxIndex} {fMiner} {inputs inputs' : MapPrevTx}

def Fetched (W : World) (idx : TxIndex) (inputs : MapPrevTx) : Prop :=
  ∀ h r t, inputs[h]? = some (r,t) → idx h = some r ∧ fetchTxPrev W h r.pos = .ok t

theorem fetchTxIndex_block (db : CTxDB) (pool fMiner h) :
    fetchTxIndex db pool true fMiner h = overlay pool db.txView h := by
  simp [fetchTxIndex,overlay,CTxDB.readTxIndex_eq]

theorem Fetched.insert {idx} (hf : Fetched W idx inputs) {h r t} (hr : idx h = some r)
    (ht : fetchTxPrev W h r.pos = .ok t) :
    Fetched W idx (inputs.insert h (r,t)) := by
  intro h' r' t' h1
  rw [getElem?_insert] at h1
  split_ifs at h1 with hh
  · cases h1
    exact hh ▸ ⟨hr,ht⟩
  · exact hf h' r' t' h1

variable {idx : TxIndex} {fBlock} {tx}

theorem Fetched.fetchInput {txin} (hf : Fetched W idx inputs)
    (hidx : ∀ h, fetchTxIndex db pool fBlock fMiner h = idx h)
    (hfound : fBlock ∨ (idx txin.prevout.hash).isSome)
    (h : fetchInput W db pool fBlock fMiner inputs txin = .ok inputs') : Fetched W idx inputs' := by
  simp only [DarkSilk.fetchInput,hidx] at h
  by_cases hc : inputs.contains txin.prevout.hash
  · rw [if_pos hc,Except.ok.injEq] at h
    exact h ▸ hf
  · rw [if_neg hc] at h
    cases hr : idx txin.prevout.hash with
    | some r =>
      simp only [hr] at h
      obtain ⟨t,ht,h1⟩ := bind_eq_ok.mp h
      rw [Except.ok.injEq] at h1
      exact h1 ▸ hf.insert hr ht
    | none =>
      -- nothing is taken from the memory pool when the index has the record
      rcases hfound with rfl | hsome
      · simp [hr] at h
      · simp [hr] at hsome

theorem Fetched.fetchLoop {vin} (hf : Fetched W idx inputs)
    (hidx : ∀ h, fetchTxIndex db pool fBlock fMiner h = idx h)
    (hfound : ∀ i ∈ vin, fBlock ∨ (idx i.prevout.hash).isSome)
    (h : fetchLoop W db pool fBlock fMiner vin inputs = .ok inputs') : Fetched W idx inputs' := by
  induction vin generalizing inputs with
  | nil =>
    rw [fetchLoop,Except.ok.injEq] at h
    exact h ▸ hf
  | cons i vin ih =>
    obtain ⟨m,hm,h1⟩ := bind_eq_ok.mp h
    exact ih (hf.fetchInput hidx (hfound i mem_cons_self) hm) (fun j hj => hfound j (mem_cons_of_mem _ hj)) h1

/-- What is fetched comes from the index that is looked up, for a transaction whose
records are all there or are all demanded. -/
theorem fetched_of_fetchInputs
    (hcb : tx.isCoinBase = false) (hidx : ∀ h, fetchTxIndex db pool fBlock fMiner h = idx h)
    (hfound : ∀ i ∈ tx.vin, fBlock ∨ (idx i.prevout.hash).isSome)
    (h : fetchInputs W db pool fBlock fMiner tx = .ok inputs) :
    Fetched W idx inputs ∧ ∀ i ∈ tx.vin, inRange inputs i.prevout := by
  simp only [fetchInputs,hcb,Bool.false_eq_true,if_false] at h
  obtain ⟨m,hm,h1⟩ := bind_eq_ok.mp h
  simp only [andThen_eq_ok,checkAll_eq_ok,require_eq_ok,Except.ok.injEq] at h1
  obtain ⟨hr,rfl⟩ := h1
  have hempty : Fetched W idx ∅ := by
    intro h' r' t' h2
    simp at h2
  exact ⟨hempty.fetchLoop hidx hfound hm,hr⟩

theorem fetchInputs_spec (hcb : tx.isCoinBase = false)
    (h : fetchInputs W db pool true fMiner tx = .ok inputs) :
    Fetched W (overlay pool db.txView) inputs ∧ ∀ i ∈ tx.vin, inRange inputs i.prevout :=
  fetched_of_fetchInputs hcb (fetchTxIndex_block db pool fMiner) (fun _ _ => .inl rfl) h

variable {P} {tip} {posThisTx} {pindexBlock} {flags} {fValidateSig} {pool' : HashMap CTxIndex}

def inputValue (inputs : MapPrevTx) (i : CTxIn) : ℤ :=
  ((getOutputFor inputs i.prevout).map fun o => o.nValue.toInt).getD 0

variable {a v : CAmount} {i : CTxIn} {vin : List CTxIn} {nIn : ℕ} {s s' : MapPrevTx × HashMap CTxIndex}

theorem checkInput_spec (ha : moneyRange a) (h : checkInput tx pindexBlock inputs a i = .ok v) :
    moneyRange v ∧ v.toInt = a.toInt+inputValue inputs i ∧
      ∃ o, getOutputFor inputs i.prevout = some o ∧ v = a+o.nValue := by
  unfold checkInput at h
  split at h
  · cases h
  · rename_i r t hrt
    simp only [andThen_eq_ok,require_eq_ok] at h
    obtain ⟨-,-,-,h⟩ := h
    split at h
    · cases h
    · rename_i o ho
      simp only [andThen_eq_ok,require_eq_ok,Bool.and_eq_true,Except.ok.injEq] at h
      obtain ⟨-,⟨h1,h2⟩,rfl⟩ := h
      have hout : getOutputFor inputs i.prevout = some o := by simp [getOutputFor,hrt,ho]
      exact ⟨h2,by simp [inputValue,hout,toInt_add_of_moneyRange ha h1],o,hout,rfl⟩

/-- The checks of the first loop make the two input sums exact and equal. -/
theorem checkInputs_spec (ha : moneyRange a) (h : checkInputs tx pindexBlock inputs a vin = .ok v) :
    moneyRange v ∧ v.toInt = a.toInt+(vin.map (inputValue inputs)).sum ∧
      addValueIn inputs a vin = some v := by
  induction vin generalizing a with
  | nil =>
    rw [checkInputs,Except.ok.injEq] at h
    subst h
    exact ⟨ha,by simp,rfl⟩
  | cons i vin ih =>
    obtain ⟨b,hb,h1⟩ := bind_eq_ok.mp h
    obtain ⟨hr,hv,o,ho,rfl⟩ := checkInput_spec ha hb
    obtain ⟨h2,h3,h4⟩ := ih hr h1
    refine ⟨h2,?_,by simp [addValueIn,ho,h4]⟩
    rw [h3,hv,map_cons,sum_cons]
    omega

theorem spendInput_spec (hs : ∀ h r t, s.1[h]? = some (r,t) → overlay s.2 idx h = some r)
    (h : spendInput P tip tx posThisTx true fMiner flags fValidateSig nIn i s = .ok s') :
    spend .setNull posThisTx (overlay s.2 idx) i.prevout.key = some (overlay s'.2 idx) ∧
      ∀ h r t, s'.1[h]? = some (r,t) → overlay s'.2 idx h = some r := by
  unfold spendInput at h
  split at h
  · cases h
  · rename_i r t hrt
    simp only [andThen_eq_ok,require_eq_ok,Bool.true_or,if_true,Except.ok.injEq] at h
    obtain ⟨hnull,-,rfl⟩ := h
    have hr := hs _ _ _ hrt
    constructor
    · have hcell : r.vSpent[i.prevout.n.toNat]? = some CDiskTxPos.setNull := by
        split at hnull
        · rename_i p hp
          rw [hp,(CDiskTxPos.isNull_iff p).mp hnull]
        · cases hnull
      simp [spend,COutPoint.key,hr,hcell]
    · intro h' r' t' h1
      rw [overlay_insert]
      rw [getElem?_insert] at h1
      by_cases hh : i.prevout.hash = h'
      · rw [if_pos hh] at h1
        cases h1
        simp [← hh]
      · rw [if_neg hh] at h1
        rw [Function.update_of_ne (Ne.symm hh)]
        exact hs h' r' t' h1

theorem spendInputs_spec (hs : ∀ h r t, s.1[h]? = some (r,t) → overlay s.2 idx h = some r)
    (h : spendInputs P tip tx posThisTx true fMiner flags fValidateSig nIn vin s = .ok s') :
    spendAll .setNull posThisTx (vin.map fun i => i.prevout.key) (overlay s.2 idx) =
      some (overlay s'.2 idx) := by
  induction vin generalizing s nIn with
  | nil =>
    rw [spendInputs,Except.ok.injEq] at h
    simp [spendAll,h]
  | cons i vin ih =>
    obtain ⟨m,hm,h1⟩ := bind_eq_ok.mp h
    obtain ⟨h2,h3⟩ := spendInput_spec hs hm
    rw [map_cons,spendAll,h2,bind_some]
    exact ih h3 h1

def localIndex (inputs : MapPrevTx) (idx : TxIndex) : TxIndex := fun h =>
  ((inputs[h]?).map Prod.fst).or (idx h)

theorem localIndex_of_fetched (hf : Fetched W idx inputs) : localIndex inputs idx = idx := by
  funext h
  cases hm : inputs[h]? with
  | none => simp [localIndex,hm]
  | some e => simp [localIndex,hm,(hf h e.1 e.2 hm).1]

theorem spendInput_local (idx : TxIndex)
    (h : spendInput P tip tx posThisTx fBlock fMiner flags fValidateSig nIn i s = .ok s') :
    spend .setNull posThisTx (localIndex s.1 idx) i.prevout.key = some (localIndex s'.1 idx) := by
  unfold spendInput at h
  split at h
  · cases h
  · rename_i r t hrt
    simp only [andThen_eq_ok,require_eq_ok,Except.ok.injEq] at h
    obtain ⟨hnull,-,rfl⟩ := h
    have hr : localIndex s.1 idx i.prevout.hash = some r := by simp [localIndex,hrt]
    have hcell : r.vSpent[i.prevout.n.toNat]? = some CDiskTxPos.setNull := by
      split at hnull
      · rename_i p hp
        rw [hp,(CDiskTxPos.isNull_iff p).mp hnull]
      · cases hnull
    simp only [spend,COutPoint.key,hr,hcell,if_true,some.injEq]
    funext h'
    by_cases hh : i.prevout.hash = h'
    · subst hh
      simp [localIndex]
    · simp [localIndex,getElem?_insert,hh,Ne.symm hh]

theorem spendInputs_local (idx : TxIndex)
    (h : spendInputs P tip tx posThisTx fBlock fMiner flags fValidateSig nIn vin s = .ok s') :
    spendAll .setNull posThisTx (vin.map fun i => i.prevout.key) (localIndex s.1 idx) =
      some (localIndex s'.1 idx) := by
  induction vin generalizing s nIn with
  | nil =>
    rw [spendInputs,Except.ok.injEq] at h
    simp [spendAll,h]
  | cons i vin ih =>
    obtain ⟨m,hm,h1⟩ := bind_eq_ok.mp h
    rw [map_cons,spendAll,spendInput_local idx hm,bind_some]
    exact ih h1

theorem connectInputs_eq_ok (hcb : tx.isCoinBase = false) :
    connectInputs P tip tx posThisTx pindexBlock fBlock fMiner flags fValidateSig inputs pool =
      .ok pool' ↔
      ∃ v s, checkInputs tx pindexBlock inputs 0 tx.vin = .ok v ∧
        spendInputs P tip tx posThisTx fBlock fMiner flags fValidateSig 0 tx.vin (inputs,pool) =
          .ok s ∧
        checkFee tx v = .ok () ∧ s.2 = pool' := by
  simp only [connectInputs,hcb,Bool.false_eq_true,if_false,bind_eq_ok,Except.ok.injEq]
  constructor
  · rintro ⟨v,hv,s,hs,_,hfee,rfl⟩
    exact ⟨v,s,hv,hs,hfee,rfl⟩
  · rintro ⟨v,s,hv,hs,hfee,rfl⟩
    exact ⟨v,hv,s,hs,(),hfee,rfl⟩

theorem checkFee_spec (hcs : tx.isCoinStake = false) (h : checkFee tx v = .ok ()) :
    ∃ o, tx.getValueOut = some o ∧ o.toInt ≤ v.toInt := by
  simp only [checkFee,hcs,Bool.false_eq_true,if_false] at h
  split at h
  · cases h
  · rename_i o ho
    simp only [andThen_eq_ok,require_eq_ok,decide_eq_true_eq] at h
    exact ⟨o,ho,Int64.le_iff_toInt_le.mp h.1⟩

/-- The accepted inputs are distinct unspent outputs of the queued index, and the
new queue is that index with all of them marked. -/
theorem connectInputs_spend (hcb : tx.isCoinBase = false) (hf : Fetched W (overlay pool idx) inputs)
    (h : connectInputs P tip tx posThisTx pindexBlock true fMiner flags fValidateSig inputs pool =
      .ok pool') :
    spendAll .setNull posThisTx (tx.vin.map fun i => i.prevout.key) (overlay pool idx) =
      some (overlay pool' idx) := by
  obtain ⟨v,s,-,hs,-,rfl⟩ := (connectInputs_eq_ok hcb).mp h
  exact spendInputs_spec (s := (inputs,pool)) (fun h r t hrt => (hf h r t hrt).1) hs

theorem connectInputs_unspent (hcb : tx.isCoinBase = false)
    (hpos : posThisTx ≠ .setNull) (hf : Fetched W idx inputs)
    (h : connectInputs P tip tx posThisTx pindexBlock fBlock fMiner flags fValidateSig inputs pool =
      .ok pool') :
    ∀ i ∈ tx.vin, cell idx i.prevout.key = some .setNull := by
  obtain ⟨v,s,-,hs,-,-⟩ := (connectInputs_eq_ok hcb).mp h
  have hall := spendInputs_local idx hs
  rw [localIndex_of_fetched hf,spendAll_eq_some _ hpos] at hall
  exact fun i hi => hall.2.1 _ (mem_map_of_mem hi)

/-- The accepted inputs are worth an exact amount within the money range, and, but
for a coinstake, at least the outputs. -/
theorem connectInputs_value (hcb : tx.isCoinBase = false)
    (h : connectInputs P tip tx posThisTx pindexBlock fBlock fMiner flags fValidateSig inputs pool =
      .ok pool') :
    ∃ v, getValueIn inputs tx = some v ∧ moneyRange v ∧
      v.toInt = (tx.vin.map (inputValue inputs)).sum ∧
      (tx.isCoinStake = false → ∃ o, tx.getValueOut = some o ∧ o.toInt ≤ v.toInt) := by
  obtain ⟨v,s,hv,-,hfee,-⟩ := (connectInputs_eq_ok hcb).mp h
  obtain ⟨h1,h2,h3⟩ := checkInputs_spec (by decide) hv
  exact ⟨v,by simp [getValueIn,hcb,h3],h1,by simpa using h2,fun hcs => checkFee_spec hcs hfee⟩

end DarkSilk
