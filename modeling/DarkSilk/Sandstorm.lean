import DarkSilk.InstantX

/-! The mixing pool of a stormnode. Clients join a session, hand in entries of inputs and
outputs, and sign the transaction that is merged from all entries; the pool moves through
its states on messages, and on the clock. -/
namespace DarkSilk

def SANDSTORM_COLLATERAL : CAmount := 1000000
def SANDSTORM_POOL_MAX : CAmount := 999999000000
def SANDSTORM_QUEUE_TIMEOUT : ℤ := 30
def SANDSTORM_SIGNING_TIMEOUT : ℤ := 15

def getMaxPoolTransactions : ℕ := 3

def sandStormDenominations : List CAmount :=
  [10000*COIN+10000000,1000*COIN+1000000,100*COIN+100000,10*COIN+10000,COIN+1000,10000100]

inductive PoolStatus
  | unknown | idle | queue | acceptingEntries | finalizeTransaction | signing | transmission | error | success
  deriving DecidableEq, Repr

inductive PoolMessageId
  | ERR_ALREADY_HAVE | ERR_DENOM | ERR_ENTRIES_FULL | ERR_EXISTING_TX | ERR_FEES | ERR_INVALID_COLLATERAL
  | ERR_INVALID_INPUT | ERR_INVALID_SCRIPT | ERR_INVALID_TX | ERR_MAXIMUM | ERR_SN_LIST | ERR_MODE
  | ERR_NON_STANDARD_PUBKEY | ERR_QUEUE_FULL | ERR_RECENT | ERR_SESSION | ERR_MISSING_TX | ERR_VERSION
  | MSG_ENTRIES_ADDED
  deriving DecidableEq, Repr

structure CTxSSIn extends CTxIn where
  prevPubKey : CScript
  fHasSig : Bool
  deriving DecidableEq, Repr

structure CTxSSOut extends CTxOut where
  nRounds : ℤ
  deriving DecidableEq, Repr

structure CSandStormEntry where
  sev : List CTxSSIn
  vout : List CTxSSOut
  amount : CAmount
  collateral : CTransaction
  addedTime : ℤ
  deriving DecidableEq, Repr

def CTxSSIn.received (i : CTxIn) : CTxSSIn := ⟨i,[],false⟩

def CTxSSOut.received (o : CTxOut) : CTxSSOut := ⟨o,-10⟩

structure ScriptEnv where
  verifyScript : CScript → CScript → UInt32 → (List UInt8 → List UInt8 → CScript → Bool) → Bool
  isValid : List UInt8 → Bool
  verify : List UInt8 → UInt256 → List UInt8 → Bool

variable (S : ScriptEnv)

/-- What the checker of the pool has signed: a constant, but for an index out of range. -/
def signatureHash (_scriptCode : CScript) (txTo : CTransaction) (nIn nHashType : ℕ) : UInt256 :=
  if txTo.vin.length ≤ nIn then 1
  else if nHashType &&& 0x1f = 3 ∧ txTo.vout.length ≤ nIn then 1
  else 0

def checkSig (txTo : CTransaction) (nIn : ℕ) (vchSigIn vchPubKey : List UInt8)
    (scriptCode : CScript) : Bool :=
  match vchSigIn.getLast? with
  | none => false
  | some nHashType => S.isValid vchPubKey &&
      S.verify vchPubKey (signatureHash scriptCode txTo nIn nHashType.toNat) vchSigIn.dropLast

/-- VerifyScript with the flags of the pool, at an input of a transaction. -/
def verifyScriptAt (scriptSig scriptPubKey : CScript) (txTo : CTransaction) (nIn : ℕ) : Bool :=
  S.verifyScript scriptSig scriptPubKey (1 ||| Flags.STRICTENC) (checkSig S txTo nIn)

/-- What a handler finds around it: whether it is switched on, the version of the peer, the
clocks, the random numbers, the stormnode list, the chain and the memory pool, and the key
of this stormnode. -/
structure PoolEnv where
  fEnabled : Bool
  fVersionOk : Bool
  nTime : ℤ
  nTimeMillis : ℤ
  nAdjustedTime : UInt32
  nRand : ℤ
  fListed : Bool
  fTooRecent : Bool
  getTransaction : UInt256 → Option CTransaction
  acceptableInputs : CTransaction → Bool
  acceptToMemoryPool : CTransaction → Bool
  fSigned : Bool

/-- The conversions of a format; two percent signs are one of the text. -/
def conversions : List Char → ℕ
  | '%' :: '%' :: format => conversions format
  | '%' :: format => conversions format+1
  | _ :: format => conversions format
  | [] => 0

/-- ToString of a transaction that can be changed. Its format has an ampersand where a percent sign
should be, and strprintf throws if there are more arguments than conversions. -/
def CMutableTransaction.toStringThrows : Bool :=
  conversions
    "CMutableTransaction(hash=%s, ver=%d, nTime=&u, vin.size=%u, vout.size=%u, nLockTime=%u)\n".toList < 6

theorem CMutableTransaction.toStringThrows_eq : CMutableTransaction.toStringThrows = true := by
  decide +kernel

structure CSandstormPool where
  state : PoolStatus
  entries : List CSandStormEntry
  finalTransaction : CTransaction
  lastTimeChanged : ℤ
  sessionID : ℤ
  sessionUsers : ℤ
  sessionDenom : ℤ
  vecSessionCollateral : List CTransaction

namespace CSandstormPool

variable (E : PoolEnv) (p : CSandstormPool)

def inputs : List CTxSSIn := p.entries.flatMap CSandStormEntry.sev

def outputs : List CTxOut := p.entries.flatMap fun e => e.vout.map CTxSSOut.toCTxOut

def mergedTx (nTime : UInt32) : CTransaction := ⟨1,nTime,p.inputs.map CTxSSIn.toCTxIn,p.outputs,0⟩

def setNull : CSandstormPool where
  state := .idle
  entries := []
  finalTransaction := { p.finalTransaction with vin := [], vout := [] }
  lastTimeChanged := E.nTimeMillis
  sessionID := 0
  sessionUsers := 0
  sessionDenom := 0
  vecSessionCollateral := []

def new : CSandstormPool := setNull E ⟨.unknown,[],⟨1,E.nAdjustedTime,[],[],0⟩,0,0,0,0,[]⟩

/-- A stormnode is never in the last two states. -/
def updateState (newState : PoolStatus) : CSandstormPool :=
  if newState = .error ∨ newState = .success then p
  else { p with state := newState
                lastTimeChanged := if p.state ≠ newState then E.nTimeMillis else p.lastTimeChanged }

@[simp] theorem updateState_entries (newState) :
    (p.updateState E newState).entries = p.entries := by
  unfold updateState
  split <;> rfl

@[simp] theorem updateState_finalTransaction (newState) :
    (p.updateState E newState).finalTransaction = p.finalTransaction := by
  unfold updateState
  split <;> rfl

@[simp] theorem updateState_sessionUsers (newState) :
    (p.updateState E newState).sessionUsers = p.sessionUsers := by
  unfold updateState
  split <;> rfl

theorem updateState_state {newState} (h : newState ≠ .error ∧ newState ≠ .success) :
    (p.updateState E newState).state = newState := by
  rw [updateState,if_neg (not_or.mpr h)]

theorem updateState_error : p.updateState E .error = p := if_pos (.inl rfl)

def signaturesComplete : Bool := p.inputs.all CTxSSIn.fHasSig

def isSessionReady : Bool := (getMaxPoolTransactions : ℤ) ≤ p.sessionUsers

def checkFinalTransaction : CSandstormPool :=
  if !E.acceptToMemoryPool p.finalTransaction then (p.setNull E).updateState E .acceptingEntries
  else if !E.fSigned then p
  else p.setNull E

/-- If the entries are full, move on to the next phase. -/
def closeEntries : CSandstormPool :=
  if p.state = .acceptingEntries ∧ getMaxPoolTransactions ≤ p.entries.length then p.updateState E .finalizeTransaction
  else p

/-- Merge the entries, and ask for signatures. The merged transaction is written to the log before
it is kept; an error is an exception, with the pool that it leaves. -/
def finalize : Except CSandstormPool CSandstormPool :=
  if p.state = .finalizeTransaction then
    if CMutableTransaction.toStringThrows then .error (p.updateState E .signing)
    else .ok { p.updateState E .signing with finalTransaction := p.mergedTx E.nAdjustedTime }
  else .ok p

def transmit : CSandstormPool :=
  if p.state = .signing ∧ p.signaturesComplete then (p.updateState E .transmission).checkFinalTransaction E else p

def resetDone : CSandstormPool :=
  if (p.state = .error ∨ p.state = .success) ∧ 10000 ≤ E.nTimeMillis-p.lastTimeChanged then p.setNull E else p

def check : CSandstormPool :=
  match (p.closeEntries E).finalize E with
  | .error p => p
  | .ok p => (p.transmit E).resetDone E

/-- The first check of full entries ends with the exception, and leaves them to be signed. -/
theorem check_eq : p.check E =
    if (p.closeEntries E).state =
      .finalizeTransaction then (p.closeEntries E).updateState E .signing
    else ((p.closeEntries E).transmit E).resetDone E := by
  unfold check finalize
  split_ifs with hstate hthrows
  · rfl
  · exact absurd CMutableTransaction.toStringThrows_eq hthrows
  · rfl

end CSandstormPool

variable (E : PoolEnv)

/-- The denominations of a list of outputs as a bit mask, zero if an output has none. -/
def getDenominations (vout : List CTxOut) : ℕ :=
  if vout.all fun o => sandStormDenominations.contains o.nValue then
    (sandStormDenominations.zipIdx.map fun d => if vout.any fun o => o.nValue = d.1 then 2^d.2 else 0).sum
  else 0

def valueIn (vin : List CTxIn) : CAmount :=
  (vin.map fun i => ((E.getTransaction i.prevout.hash).bind fun tx => tx.vout[i.prevout.n.toNat]?).elim 0 CTxOut.nValue).foldl
    (fun v x => v+x) 0

def valueOut (vout : List CTxOut) : CAmount := vout.foldl (fun v o => v+o.nValue) 0

def missingTx (vin : List CTxIn) : Bool := vin.any fun i => (E.getTransaction i.prevout.hash).isNone

def isCollateralValid (txCollateral : CTransaction) : Bool :=
  if txCollateral.vout.length < 1 then false
  else if txCollateral.nLockTime ≠ 0 then false
  else if !txCollateral.vout.all fun o => Script.isNormalPaymentScript o.scriptPubKey then false
  else if missingTx E txCollateral.vin then false
  else if valueIn E txCollateral.vin-valueOut txCollateral.vout < SANDSTORM_COLLATERAL then false
  else true

/-- AcceptableInputs; what it asks of the memory pool and the chain is taken as given. -/
def acceptableInputs (tx : CTransaction) : Bool :=
  (checkTransaction tx).toBool && !tx.isCoinBase && !tx.isCoinStake && E.acceptableInputs tx

def reject (ok : Bool) (errorID : PoolMessageId) : Except PoolMessageId Unit :=
  if ok then .ok () else .error errorID

@[simp] theorem reject_eq_ok {ok errorID u} : reject ok errorID = .ok u ↔ ok := by
  cases ok <;> simp [reject]

def checkOutput (o : CTxOut) : Except PoolMessageId Unit := do
  reject (o.scriptPubKey.length = 25) .ERR_NON_STANDARD_PUBKEY
  reject (Script.isNormalPaymentScript o.scriptPubKey) .ERR_INVALID_SCRIPT

namespace CSandstormPool

variable (p : CSandstormPool)

def isCompatibleWithEntries (vout : List CTxOut) : Bool :=
  getDenominations vout ≠ 0 && p.entries.all fun e =>
    getDenominations vout = getDenominations (e.vout.map CTxSSOut.toCTxOut)

/-- The checks on an entry before it is added. Up to the maximum of the pool the floating
point product with one percent compares as the exact one does. -/
def checkEntry (vin : List CTxIn) (vout : List CTxOut) : Except PoolMessageId Unit := do
  reject E.fVersionOk .ERR_VERSION
  reject p.isSessionReady .ERR_SESSION
  reject (p.isCompatibleWithEntries vout) .ERR_EXISTING_TX
  vout.forM checkOutput
  reject (valueIn E vin ≤ SANDSTORM_POOL_MAX) .ERR_MAXIMUM
  reject (missingTx E vin || (valueIn E vin-valueOut vout).toInt*100 ≤ (valueIn E vin).toInt) .ERR_FEES
  reject (!missingTx E vin) .ERR_MISSING_TX
  reject (acceptableInputs E ⟨1,E.nAdjustedTime,vin,vout,0⟩) .ERR_INVALID_TX

/-- May the entry be added? An input counts as there if all of it is the same, the
signature and the sequence number too. -/
def entryError (newInput : List CTxIn) (nAmount : CAmount) (txCollateral : CTransaction) :
    Option PoolMessageId :=
  if newInput.any fun i => i.prevout.isNull || nAmount < 0 then some .ERR_INVALID_INPUT
  else if !isCollateralValid E txCollateral then some .ERR_INVALID_COLLATERAL
  else if getMaxPoolTransactions ≤ p.entries.length then some .ERR_ENTRIES_FULL
  else if newInput.any fun i => p.inputs.any fun s => s.toCTxIn = i then some .ERR_ALREADY_HAVE
  else none

def entry (newInput : List CTxIn) (nAmount : CAmount) (txCollateral : CTransaction)
    (newOutput : List CTxOut) :
    CSandStormEntry :=
  ⟨newInput.map CTxSSIn.received,newOutput.map CTxSSOut.received,nAmount,txCollateral,E.nTime⟩

/-- A client whose entry is refused here is taken off the session. -/
def addEntry (newInput : List CTxIn) (nAmount : CAmount) (txCollateral : CTransaction)
    (newOutput : List CTxOut) :
    Except PoolMessageId PoolMessageId × CSandstormPool :=
  match p.entryError E newInput nAmount txCollateral with
  | some errorID => (.error errorID,{ p with sessionUsers := p.sessionUsers-1 })
  | none => (.ok .MSG_ENTRIES_ADDED,
      { p with entries := p.entries++[entry E newInput nAmount txCollateral newOutput] })

def processSsi (vin : List CTxIn) (nAmount : CAmount) (txCollateral : CTransaction)
    (vout : List CTxOut) :
    Except PoolMessageId PoolMessageId × CSandstormPool :=
  match p.checkEntry E vin vout with
  | .error errorID => (.error errorID,p)
  | .ok _ =>
    let r := p.addEntry E vin nAmount txCollateral vout
    (r.1,if r.1.toBool then r.2.check E else r.2)

end CSandstormPool

namespace CSandstormPool

def startSession (nDenom : ℤ) (txCollateral : CTransaction) (p : CSandstormPool) : CSandstormPool :=
  let p := { p with sessionID := 1+E.nRand, sessionDenom := nDenom, sessionUsers := 1, lastTimeChanged := E.nTimeMillis }
  let p := p.updateState E .queue
  { p with vecSessionCollateral := p.vecSessionCollateral++[txCollateral] }

/-- Join a session. An error may come without a number. -/
def isCompatibleWithSession (nDenom : ℤ) (txCollateral : CTransaction) (p : CSandstormPool) :
    Except (Option PoolMessageId) Unit × CSandstormPool :=
  if nDenom = 0 then (.error none,p)
  else if !isCollateralValid E txCollateral then (.error (some .ERR_INVALID_COLLATERAL),p)
  else
    let p := { p with sessionUsers := max p.sessionUsers 0 }
    if p.sessionUsers = 0 then (.ok (),p.startSession E nDenom txCollateral)
    else if p.isSessionReady then (.error (some .ERR_QUEUE_FULL),p)
    else if p.state ≠ .acceptingEntries ∧ p.state ≠ .queue then (.error (some .ERR_MODE),p)
    else if nDenom ≠ p.sessionDenom then (.error (some .ERR_DENOM),p)
    else (.ok (),{ p with sessionUsers := p.sessionUsers+1, lastTimeChanged := E.nTimeMillis
                          vecSessionCollateral := p.vecSessionCollateral++[txCollateral] })

def processSsa (nDenom : ℤ) (txCollateral : CTransaction) (p : CSandstormPool) :
    Except (Option PoolMessageId) Unit × CSandstormPool :=
  if !E.fVersionOk then (.error (some .ERR_VERSION),p)
  else if !E.fListed then (.error (some .ERR_SN_LIST),p)
  else if p.sessionUsers = 0 ∧ E.fTooRecent then (.error (some .ERR_RECENT),p)
  else p.isCompatibleWithSession E nDenom txCollateral

structure Joined (p q : CSandstormPool) : Prop where
  entries : q.entries = p.entries
  final : q.finalTransaction = p.finalTransaction
  session : q.state = p.state ∧ p.sessionUsers ≤ q.sessionUsers ∨ q.state = .queue ∧ p.sessionUsers ≤ 0

theorem Joined.ite {α : Type} {c : Prop} [Decidable c] {p : CSandstormPool}
    {a b : α × CSandstormPool}
    (ha : c → Joined p a.2) (hb : ¬ c → Joined p b.2) : Joined p (if c then a else b).2 := by
  split_ifs with hc
  · exact ha hc
  · exact hb hc

theorem isCompatibleWithSession_spec (nDenom txCollateral p) :
    Joined p (p.isCompatibleWithSession E nDenom txCollateral).2 := by
  have hsame : Joined p p := ⟨rfl,rfl,.inl ⟨rfl,le_rfl⟩⟩
  have hreset : Joined p { p with sessionUsers := max p.sessionUsers 0 } := ⟨rfl,rfl,.inl ⟨rfl,le_max_left _ _⟩⟩
  refine .ite (fun _ => hsame) fun _ => ?_
  refine .ite (fun _ => hsame) fun _ => ?_
  refine .ite (fun hzero => ?_) fun _ => ?_
  · refine ⟨by simp [startSession],by simp [startSession],.inr ⟨?_,max_eq_right_iff.mp hzero⟩⟩
    exact updateState_state E _ (by simp)
  refine .ite (fun _ => hreset) fun _ => ?_
  refine .ite (fun _ => hreset) fun _ => ?_
  refine .ite (fun _ => hreset) fun _ => ?_
  exact ⟨rfl,rfl,.inl ⟨rfl,(le_max_left p.sessionUsers 0).trans (Int.le_add_one le_rfl)⟩⟩

theorem processSsa_spec (nDenom txCollateral p) :
    Joined p (p.processSsa E nDenom txCollateral).2 := by
  have hsame : Joined p p := ⟨rfl,rfl,.inl ⟨rfl,le_rfl⟩⟩
  refine .ite (fun _ => hsame) fun _ => .ite (fun _ => hsame) fun _ => .ite (fun _ => hsame) fun _ => ?_
  exact isCompatibleWithSession_spec E nDenom txCollateral p

def checkForCompleteQueue (p : CSandstormPool) : CSandstormPool :=
  if p.state = .queue ∧ p.sessionUsers = getMaxPoolTransactions then p.updateState E .acceptingEntries else p

def isExpired (e : CSandStormEntry) : Bool := E.nTime-e.addedTime > SANDSTORM_QUEUE_TIMEOUT

/-- Drop the entries that have expired; with the last one the session ends. -/
def dropExpired (p : CSandstormPool) : CSandstormPool :=
  let rest := p.entries.filter fun e => !isExpired E e
  if p.entries ≠ [] ∧ rest = [] then p.setNull E else { p with entries := rest }

def timedOut (nSeconds : ℤ) (p : CSandstormPool) : Bool :=
  nSeconds*1000 ≤ E.nTimeMillis-p.lastTimeChanged

def checkTimeout (p : CSandstormPool) : CSandstormPool :=
  let p := if p.state = .acceptingEntries ∨ p.state = .queue then p.dropExpired E else p
  let p := if p.timedOut E SANDSTORM_QUEUE_TIMEOUT then (p.setNull E).updateState E .error else p
  if p.state = .signing ∧ p.timedOut E SANDSTORM_SIGNING_TIMEOUT then (p.setNull E).updateState E .error else p

theorem checkTimeout_rule {E} {p : CSandstormPool} {I : CSandstormPool → Prop}
    (hnull : ∀ q : CSandstormPool, I (q.setNull E))
    (hdrop : p.state = .acceptingEntries ∨ p.state = .queue → I (p.dropExpired E)) (h : I p) :
    I (p.checkTimeout E) := by
  have hreset : ∀ {q : CSandstormPool} (c : Prop) [Decidable c], I q →
      I (if c then (q.setNull E).updateState E .error else q) := by
    intro q c _ hq
    rw [updateState_error]
    split_ifs
    · exact hnull q
    · exact hq
  refine hreset _ (hreset _ ?_)
  split_ifs with hs
  · exact hdrop hs
  · exact h

end CSandstormPool

/-- The last input of the pool that is the same in all of it, and the script with it. -/
def CSandstormPool.found (p : CSandstormPool) (newVin : CTxIn) : Option (ℕ × CScript) :=
  p.inputs.zipIdx.foldl (fun r x => if x.1.toCTxIn = newVin then some (x.2,x.1.prevPubKey) else r) none

/-- A signature for an input that is not found passes. -/
def CSandstormPool.signatureValid (p : CSandstormPool) (newSig : CScript) (newVin : CTxIn) : Bool :=
  match p.found newVin with
  | none => true
  | some (n,sigPubKey) =>
    let txNew := p.mergedTx E.nAdjustedTime
    verifyScriptAt S newSig sigPubKey { txNew with vin := txNew.vin.modify n fun i => { i with scriptSig := newSig } } n

def sameInput (i j : CTxIn) : Bool := i.prevout = j.prevout && i.nSequence = j.nSequence

/-- Sign the first input of an entry that fits, unless it is signed. -/
def addSig (vin : CTxIn) : List CTxSSIn → Option (List CTxSSIn)
  | [] => none
  | s::sev =>
    if sameInput s.toCTxIn vin then
      if s.fHasSig then none else some (⟨{ s.toCTxIn with scriptSig := vin.scriptSig },[],true⟩::sev)
    else (addSig vin sev).map (s::·)

/-- Sign in the first entry that takes the signature. -/
def addSigEntries (vin : CTxIn) : List CSandStormEntry → Option (List CSandStormEntry)
  | [] => none
  | e::entries =>
    match addSig vin e.sev with
    | some sev => some ({ e with sev := sev }::entries)
    | none => (addSigEntries vin entries).map (e::·)

/-- Every input of the final transaction that fits gets the signature. -/
def setScriptSig (newVin : CTxIn) (vin : List CTxIn) : List CTxIn :=
  vin.map fun i => if sameInput i newVin then { i with scriptSig := newVin.scriptSig } else i

namespace CSandstormPool

variable (p : CSandstormPool)

def signFinal (newVin : CTxIn) : CSandstormPool :=
  { p with finalTransaction := { p.finalTransaction with vin := setScriptSig newVin p.finalTransaction.vin } }

def addScriptSig (newVin : CTxIn) : Bool × CSandstormPool :=
  if p.inputs.any fun s => s.scriptSig = newVin.scriptSig then (false,p)
  else if !p.signatureValid S E newVin.scriptSig newVin then (false,p)
  else
    match addSigEntries newVin p.entries with
    | some entries => (true,{ p.signFinal newVin with entries := entries })
    | none => (false,p.signFinal newVin)

def addScriptSigs : List CTxIn → CSandstormPool → Bool × CSandstormPool
  | [], p => (false,p)
  | newVin::sigs, p =>
    let r := p.addScriptSig S E newVin
    let r' := addScriptSigs sigs r.2
    (r.1 || r'.1,r'.2)

/-- Neither the state of the pool nor the sender is looked at. -/
def processSss (sigs : List CTxIn) : CSandstormPool :=
  if E.fVersionOk then
    let r := addScriptSigs S E sigs p
    if r.1 then r.2.check E else r.2
  else p

end CSandstormPool

inductive PoolMessage
  | ssa (E : PoolEnv) (nDenom : ℤ) (txCollateral : CTransaction)
  | ssi (E : PoolEnv) (vin : List CTxIn) (nAmount : CAmount) (txCollateral : CTransaction) (vout : List CTxOut)
  | sss (E : PoolEnv) (sigs : List CTxIn)
  | checkTimeout (E : PoolEnv)
  | checkForCompleteQueue (E : PoolEnv)

def CSandstormPool.step (S : ScriptEnv) (p : CSandstormPool) : PoolMessage → CSandstormPool
  | .ssa E nDenom txCollateral => if E.fEnabled then (p.processSsa E nDenom txCollateral).2 else p
  | .ssi E vin nAmount txCollateral vout => if E.fEnabled then (p.processSsi E vin nAmount txCollateral vout).2 else p
  | .sss E sigs => if E.fEnabled then p.processSss S E sigs else p
  | .checkTimeout E => if E.fEnabled then p.checkTimeout E else p
  | .checkForCompleteQueue E => if E.fEnabled then p.checkForCompleteQueue E else p

end DarkSilk
