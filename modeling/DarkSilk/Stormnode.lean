import DarkSilk.MemPoolReads
import DarkSilk.Solver

/-! The list of stormnodes: entries come in by broadcasts and are kept alive, or should be,
by pings. A broadcast is signed by the key of the collateral, a ping by the key of the
stormnode. -/

namespace DarkSilk

open PrefixCode

namespace Stormnode

def STORMNODE_MIN_CONFIRMATIONS : ℤ := 10
def STORMNODE_MIN_SNP_SECONDS : Int64 := 10*60
def STORMNODE_MIN_SNB_SECONDS : Int64 := 5*60
def STORMNODE_EXPIRATION_SECONDS : Int64 := 65*60
def STORMNODE_REMOVAL_SECONDS : Int64 := 75*60
def STORMNODE_CHECK_SECONDS : Int64 := 5

inductive State
  | STORMNODE_PRE_ENABLED | STORMNODE_ENABLED | STORMNODE_EXPIRED | STORMNODE_VIN_SPENT | STORMNODE_REMOVE
  | STORMNODE_POS_ERROR
  deriving DecidableEq, Repr

abbrev CPubKey := List UInt8

structure CService where
  ip : BitVec 128
  port : UInt16
  deriving DecidableEq, Repr

structure CStormnodePing where
  vin : CTxIn
  blockHash : UInt256
  sigTime : Int64
  vchSig : List UInt8
  deriving DecidableEq, Repr

structure CStormnodeBroadcast where
  vin : CTxIn
  addr : CService
  pubkey : CPubKey
  pubkey2 : CPubKey
  vchSig : List UInt8
  sigTime : Int64
  protocolVersion : ℤ
  lastPing : CStormnodePing
  nLastSsq : Int64
  deriving DecidableEq, Repr

/-- An entry of the list: what its broadcast carried, its state, and when it was checked. -/
structure CStormnode extends CStormnodeBroadcast where
  activeState : State
  lastTimeChecked : Int64
  deriving DecidableEq, Repr

/-- What is signed: the texts of these fields, one after the other. The outpoint is no part
of a broadcast's text. -/
inductive SignedText
  | snb (addr : CService) (sigTime : Int64) (pubkey pubkey2 : CPubKey) (protocolVersion : ℤ)
  | snp (vin : CTxIn) (blockHash : UInt256) (sigTime : Int64)
  deriving DecidableEq, Repr

structure Crypto where
  P : Params
  verifyMessage : CPubKey → List UInt8 → SignedText → Bool

/-- What a handler finds around it: whether it is switched on, the clocks, the version
demanded, the chain, and the stormnode that runs here. -/
structure Env where
  fLiteMode : Bool
  isBlockchainSynced : Bool
  shutdownRequested : Bool
  nTime : Int64
  nAdjustedTime : Int64
  minStormnodePaymentsProto : ℤ
  getTransaction : UInt256 → Option CTransaction
  acceptableInputs : CTransaction → Bool
  getInputAge : CTxIn → ℤ
  lockMain : Bool
  fStormNode : Bool
  activeVin : COutPoint
  activePubKey : CPubKey
  collateralPubKey : CScript

structure CStormnodeMan where
  vStormnodes : List CStormnode
  mapSeenStormnodeBroadcast : HashMap CStormnodeBroadcast
  mapSeenStormnodePing : HashMap CStormnodePing

section

variable (E : Env)

/-- The ping that is none: only the outpoint and the block are compared. -/
def CStormnodePing.isNone (p : CStormnodePing) : Bool :=
  p.vin = ⟨⟨0,0xFFFFFFFF⟩,[],0xFFFFFFFF⟩ && p.blockHash = 0

def CStormnode.isEnabled (sn : CStormnode) : Bool := sn.activeState = .STORMNODE_ENABLED

def CStormnode.isPreEnabled (sn : CStormnode) : Bool := sn.activeState = .STORMNODE_PRE_ENABLED

def CStormnode.isBroadcastedWithin (seconds : Int64) (sn : CStormnode) : Bool :=
  E.nAdjustedTime-sn.sigTime < seconds

/-- The time minus one stands for the present. -/
def CStormnode.isPingedWithin (seconds now : Int64) (sn : CStormnode) : Bool :=
  let now := if now = -1 then E.nAdjustedTime else now
  !sn.lastPing.isNone && now-sn.lastPing.sigTime < seconds

/-- The check that the collateral is unspent is switched off in the source. -/
def CStormnode.check (forceCheck : Bool) (sn : CStormnode) : CStormnode :=
  if E.shutdownRequested then sn
  else if !forceCheck && E.nTime-sn.lastTimeChecked < STORMNODE_CHECK_SECONDS then sn
  else
    let sn := { sn with lastTimeChecked := E.nTime }
    if sn.activeState = .STORMNODE_VIN_SPENT then sn
    else if sn.lastPing.sigTime-sn.sigTime < STORMNODE_MIN_SNP_SECONDS then
      { sn with activeState := .STORMNODE_PRE_ENABLED }
    else if !sn.isPingedWithin E STORMNODE_REMOVAL_SECONDS (-1) then { sn with activeState := .STORMNODE_REMOVE }
    else if !sn.isPingedWithin E STORMNODE_EXPIRATION_SECONDS (-1) then { sn with activeState := .STORMNODE_EXPIRED }
    else { sn with activeState := .STORMNODE_ENABLED }

def CStormnode.ofBroadcast (snb : CStormnodeBroadcast) : CStormnode := ⟨snb,.STORMNODE_ENABLED,0⟩

end

def updateFirst {α : Type} (fits : α → Bool) (f : α → α) : List α → List α
  | [] => []
  | a::l => if fits a then f a::l else a::updateFirst fits f l

namespace CStormnodeMan

variable (man : CStormnodeMan)

def find (vin : CTxIn) : Option CStormnode :=
  man.vStormnodes.find? fun sn => sn.vin.prevout = vin.prevout

def add (sn : CStormnode) : CStormnodeMan :=
  if !sn.isEnabled && !sn.isPreEnabled then man
  else match man.find sn.vin with
    | none => { man with vStormnodes := man.vStormnodes++[sn] }
    | some _ => man

def remove (vin : CTxIn) : CStormnodeMan :=
  { man with vStormnodes := man.vStormnodes.eraseP fun sn => sn.vin = vin }

def check (E : Env) : CStormnodeMan :=
  { man with vStormnodes := man.vStormnodes.map (CStormnode.check E false) }

end CStormnodeMan

variable (K : Crypto) (E : Env)

def CStormnodeBroadcast.getHash (snb : CStormnodeBroadcast) : UInt256 :=
  K.P.hash (leBytes 8 snb.sigTime.toUInt64.toNat++writeScript snb.pubkey)

def CStormnodePing.getHash (snp : CStormnodePing) : UInt256 :=
  K.P.hash (snp.vin.serialize++leBytes 8 snp.sigTime.toUInt64.toNat)

def payee (pubkey : CPubKey) : CScript := Script.getScriptForDestination (K.P.hash160 pubkey)

/-- Every way ends with a refusal, after a good signature too: the lines that would take
the ping stand behind the last return. The number is the score of the peer. -/
def CStormnodePing.checkAndUpdate (fRequireEnabled : Bool) (man : CStormnodeMan)
    (snp : CStormnodePing) : Except ℕ Unit :=
  if snp.sigTime > E.nAdjustedTime+60*60 then .error 1
  else if snp.sigTime ≤ E.nAdjustedTime-60*60 then .error 1
  else match man.find snp.vin with
    | none => .error 0
    | some psn =>
      if psn.protocolVersion < E.minStormnodePaymentsProto then .error 0
      else if fRequireEnabled && !psn.isEnabled && !psn.isPreEnabled then .error 0
      else if psn.isPingedWithin E (STORMNODE_MIN_SNP_SECONDS-60) snp.sigTime then .error 0
      else if !K.verifyMessage psn.pubkey2 snp.vchSig (.snp snp.vin snp.blockHash snp.sigTime) then .error 33
      else .error 0

/-- What a broadcast that is newer puts into the entry. -/
def CStormnode.updateFromNewBroadcast (man : CStormnodeMan) (snb : CStormnodeBroadcast)
    (sn : CStormnode) : CStormnode :=
  { sn with
    pubkey2 := snb.pubkey2
    sigTime := snb.sigTime
    vchSig := snb.vchSig
    protocolVersion := snb.protocolVersion
    addr := snb.addr
    lastTimeChecked := 0
    lastPing := if snb.lastPing.isNone || (snb.lastPing.checkAndUpdate K E false man).toBool then snb.lastPing
      else sn.lastPing }

def CStormnodeBroadcast.text (snb : CStormnodeBroadcast) : SignedText :=
  .snb snb.addr snb.sigTime snb.pubkey snb.pubkey2 snb.protocolVersion

def CStormnodeBroadcast.portOk (snb : CStormnodeBroadcast) : Bool :=
  if K.P.testNet then snb.addr.port ≠ 31000 else snb.addr.port = 31000

def CStormnodeBroadcast.checkFields (snb : CStormnodeBroadcast) : Except ℕ Unit :=
  if snb.sigTime > E.nAdjustedTime+60*60 then .error 1
  else if snb.protocolVersion < E.minStormnodePaymentsProto then .error 0
  else if (payee K snb.pubkey).length ≠ 25 then .error 100
  else if (payee K snb.pubkey2).length ≠ 25 then .error 100
  else if snb.vin.scriptSig ≠ [] then .error 0
  else if !K.verifyMessage snb.pubkey snb.vchSig snb.text then .error 100
  else if !snb.portOk K then .error 0
  else .ok ()

/-- Is the broadcast to be taken over into the entry? -/
def CStormnodeBroadcast.updates (snb : CStormnodeBroadcast) (psn : CStormnode) : Bool :=
  psn.isEnabled && psn.pubkey = snb.pubkey && !psn.isBroadcastedWithin E STORMNODE_MIN_SNB_SECONDS &&
    psn.sigTime < snb.sigTime

/-- The list with the entry updated and checked, and the ping of the broadcast as seen. -/
def CStormnodeMan.update (man : CStormnodeMan) (snb : CStormnodeBroadcast) : CStormnodeMan :=
  { man with
    vStormnodes := updateFirst (fun sn => sn.vin.prevout = snb.vin.prevout)
      (fun sn => (sn.updateFromNewBroadcast K E man snb).check E false) man.vStormnodes
    mapSeenStormnodePing :=
      if snb.lastPing.isNone || (snb.lastPing.checkAndUpdate K E false man).toBool then
        man.mapSeenStormnodePing.insertIfNew (snb.lastPing.getHash K) snb.lastPing
      else man.mapSeenStormnodePing }

def CStormnodeBroadcast.checkAndUpdate (man : CStormnodeMan) (snb : CStormnodeBroadcast) :
    Except ℕ CStormnodeMan :=
  match snb.checkFields K E with
  | .error nDos => .error nDos
  | .ok _ =>
    match man.find snb.vin with
    | none => .ok man
    | some psn =>
      if psn.sigTime > snb.sigTime then .error 0
      else if snb.updates E psn then .ok (man.update K E snb)
      else .ok man

/-- Does the transaction of the outpoint have an output of a thousand coins for the key? The
number of the output is not looked at. -/
def isVinAssociatedWithPubkey (vin : CTxIn) (pubkey : CPubKey) : Bool :=
  match E.getTransaction vin.prevout.hash with
  | none => false
  | some txVin => txVin.vout.any fun out => out.nValue = 1000*COIN && out.scriptPubKey = payee K pubkey

/-- A transaction that would spend the collateral. The amount is 9999.99 coins, whatever the
collateral is. -/
def CStormnodeBroadcast.probe (snb : CStormnodeBroadcast) : CTransaction :=
  ⟨1,E.nAdjustedTime.toUInt64.toUInt32,[snb.vin],[⟨999999000000,E.collateralPubKey⟩],0⟩

def CStormnodeMan.forget (man : CStormnodeMan) (hash : UInt256) : CStormnodeMan :=
  { man with mapSeenStormnodeBroadcast := man.mapSeenStormnodeBroadcast.erase hash }

def CStormnodeBroadcast.checkInputsAndAdd (man : CStormnodeMan) (snb : CStormnodeBroadcast) :
    Bool × CStormnodeMan :=
  if E.fStormNode && snb.vin.prevout = E.activeVin && snb.pubkey2 = E.activePubKey then (true,man)
  else
    match man.find snb.vin with
    | none => addNew man
    | some psn => if psn.isEnabled || psn.isPreEnabled then (true,man) else addNew (man.remove psn.vin)
where
  addNew (man : CStormnodeMan) : Bool × CStormnodeMan :=
    if !E.lockMain then (false,man.forget (snb.getHash K))
    else if !E.acceptableInputs (snb.probe E) then (false,man)
    else if E.getInputAge snb.vin < STORMNODE_MIN_CONFIRMATIONS then (false,man.forget (snb.getHash K))
    else (true,man.add (.ofBroadcast snb))

/-- The broadcast is noted as seen before it is checked. -/
def CStormnodeMan.processSnb (snb : CStormnodeBroadcast) (man : CStormnodeMan) : CStormnodeMan :=
  if man.mapSeenStormnodeBroadcast.contains (snb.getHash K) then man
  else
    let man := { man with mapSeenStormnodeBroadcast := man.mapSeenStormnodeBroadcast.insert (snb.getHash K) snb }
    match snb.checkAndUpdate K E man with
    | .error _ => man
    | .ok man => if isVinAssociatedWithPubkey K E snb.vin snb.pubkey then (snb.checkInputsAndAdd K E man).2 else man

/-- A ping is noted as seen; what its check says matters to the peer only. -/
def CStormnodeMan.processSnp (snp : CStormnodePing) (man : CStormnodeMan) : CStormnodeMan :=
  if man.mapSeenStormnodePing.contains (snp.getHash K) then man
  else { man with mapSeenStormnodePing := man.mapSeenStormnodePing.insert (snp.getHash K) snp }

inductive Message
  | snb (E : Env) (snb : CStormnodeBroadcast)
  | snp (E : Env) (snp : CStormnodePing)

def Message.env : Message → Env
  | .snb E _ => E
  | .snp E _ => E

def CStormnodeMan.processMessage (K : Crypto) (man : CStormnodeMan) (msg : Message) :
    CStormnodeMan :=
  if msg.env.fLiteMode || !msg.env.isBlockchainSynced then man
  else match msg with
    | .snb E snb => man.processSnb K E snb
    | .snp _ snp => man.processSnp K snp

theorem CStormnodePing.checkAndUpdate_toBool (K E fRequireEnabled man) (snp : CStormnodePing) :
    (snp.checkAndUpdate K E fRequireEnabled man).toBool = false := by
  unfold CStormnodePing.checkAndUpdate
  split_ifs <;> try rfl
  split
  · rfl
  · split_ifs <;> rfl

end Stormnode

end DarkSilk
