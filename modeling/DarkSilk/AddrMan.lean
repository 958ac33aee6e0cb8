import DarkSilk.MapSum
import DarkSilk.NetAddress
import DarkSilk.SlotTable

/-! The address manager. Addresses that were heard of are in the new table, in up to eight
slots each; addresses of nodes that answered are in the tried table, each in the one slot
its hash determines. An entry is found by its number, by its address and by its place in a
random order. A failed assertion is `none`. -/
namespace DarkSilk

open PrefixCode SlotTable
open Stormnode (CService)
open NetAddress (isRoutable getGroup)

namespace AddrMan

def ADDRMAN_TRIED_BUCKET_COUNT : ℕ := 256
def ADDRMAN_NEW_BUCKET_COUNT : ℕ := 1024
def ADDRMAN_BUCKET_SIZE : ℕ := 64
def ADDRMAN_TRIED_BUCKETS_PER_GROUP : ℕ := 8
def ADDRMAN_NEW_BUCKETS_PER_SOURCE_GROUP : ℕ := 64
def ADDRMAN_NEW_BUCKETS_PER_ADDRESS : ℤ := 8
def ADDRMAN_HORIZON_DAYS : Int64 := 30
def ADDRMAN_RETRIES : Int32 := 3
def ADDRMAN_MAX_FAILURES : Int32 := 10
def ADDRMAN_MIN_FAIL_DAYS : Int64 := 7
def ADDRMAN_GETADDR_MAX_PCT : ℕ := 23
def ADDRMAN_GETADDR_MAX : ℕ := 2500

instance : NeZero ADDRMAN_TRIED_BUCKET_COUNT := ⟨by decide⟩
instance : NeZero ADDRMAN_NEW_BUCKET_COUNT := ⟨by decide⟩
instance : NeZero ADDRMAN_BUCKET_SIZE := ⟨by decide⟩

abbrev NewSlot := Fin ADDRMAN_NEW_BUCKET_COUNT × Fin ADDRMAN_BUCKET_SIZE

abbrev TriedSlot := Fin ADDRMAN_TRIED_BUCKET_COUNT × Fin ADDRMAN_BUCKET_SIZE

def newBuckets : List (Fin ADDRMAN_NEW_BUCKET_COUNT) := List.finRange ADDRMAN_NEW_BUCKET_COUNT

theorem newBuckets_eq : newBuckets = List.finRange ADDRMAN_NEW_BUCKET_COUNT := rfl

def positions : List (Fin ADDRMAN_BUCKET_SIZE) := List.finRange ADDRMAN_BUCKET_SIZE

theorem positions_eq : positions = List.finRange ADDRMAN_BUCKET_SIZE := rfl

-- long lists, which no proof is to compute
attribute [irreducible] newBuckets positions

structure CAddress extends CService where
  nServices : UInt64
  nTime : UInt32
  nLastTry : Int64
  deriving DecidableEq, Repr

/-- An address with what is known about it. The position in the random order is -1 before
there is one, read as an unsigned number. -/
structure CAddrInfo extends CAddress where
  source : CNetAddr
  nLastSuccess : Int64
  nAttempts : Int32
  nRefCount : ℤ
  fInTried : Bool
  nRandomPos : ℕ
  deriving DecidableEq, Repr

def CAddress.init : CAddress := ⟨⟨0,0⟩,1,100000000,0⟩

def CAddrInfo.init (addrIn : CAddress) (addrSource : CNetAddr) : CAddrInfo :=
  ⟨{ addrIn with nLastTry := 0 },addrSource,0,0,0,false,0xFFFFFFFF⟩

def CAddrInfo.blank : CAddrInfo := .init .init 0

variable (P : Params) (nKey : UInt256) (addr : CService)

def low64 (hash : UInt256) : ℕ := hash.toNat%2^64

def getTriedBucket : Fin ADDRMAN_TRIED_BUCKET_COUNT :=
  let hash1 := low64 (P.hash (leBytes 32 nKey.toNat++writeScript addr.getKey))
  .ofNat _ (low64 (P.hash (leBytes 32 nKey.toNat++writeScript (getGroup addr.ip)++
    leBytes 8 (hash1%ADDRMAN_TRIED_BUCKETS_PER_GROUP))))

def getNewBucket (src : CNetAddr) : Fin ADDRMAN_NEW_BUCKET_COUNT :=
  let hash1 := low64 (P.hash (leBytes 32 nKey.toNat++writeScript (getGroup addr.ip)++writeScript (getGroup src)))
  .ofNat _ (low64 (P.hash (leBytes 32 nKey.toNat++writeScript (getGroup src)++
    leBytes 8 (hash1%ADDRMAN_NEW_BUCKETS_PER_SOURCE_GROUP))))

def getBucketPosition (fNew : Bool) (nBucket : ℕ) : Fin ADDRMAN_BUCKET_SIZE :=
  .ofNat _ (low64 (P.hash (leBytes 32 nKey.toNat++[if fNew then 'N'.toUInt8 else 'K'.toUInt8]++leBytes 4 nBucket++
    writeScript addr.getKey)))

def triedSlot : TriedSlot :=
  (getTriedBucket P nKey addr,getBucketPosition P nKey addr false (getTriedBucket P nKey addr))

def newSlot (src : CNetAddr) : NewSlot :=
  (getNewBucket P nKey addr src,getBucketPosition P nKey addr true (getNewBucket P nKey addr src))

def CAddrInfo.isTerrible (info : CAddrInfo) (nNow : Int64) : Bool :=
  let nTime := Int64.ofNat info.nTime.toNat
  if info.nLastTry ≠ 0 && nNow-60 ≤ info.nLastTry then false
  else if nNow+10*60 < nTime then true
  else if info.nTime = 0 || ADDRMAN_HORIZON_DAYS*24*60*60 < nNow-nTime then true
  else if info.nLastSuccess = 0 && ADDRMAN_RETRIES ≤ info.nAttempts then true
  else ADDRMAN_MIN_FAIL_DAYS*24*60*60 < nNow-info.nLastSuccess && ADDRMAN_MAX_FAILURES ≤ info.nAttempts

def CAddrInfo.refresh (info : CAddrInfo) (addr : CAddress) (nTimePenalty nNow : Int64) :
    CAddrInfo :=
  let nTime := Int64.ofNat addr.nTime.toNat
  let fCurrentlyOnline := nNow-nTime < 24*60*60
  let nUpdateInterval : Int64 := if fCurrentlyOnline then 60*60 else 24*60*60
  let fUpdate := addr.nTime ≠ 0 &&
    (info.nTime = 0 || Int64.ofNat info.nTime.toNat < nTime-nUpdateInterval-nTimePenalty)
  { info with
    nTime := if fUpdate then (max 0 (nTime-nTimePenalty)).toUInt64.toUInt32 else info.nTime
    nServices := info.nServices ||| addr.nServices }

/-- The number that comes next, in the arithmetic of `int`. -/
def nextId (nId : ℤ) : ℤ := (nId+1).bmod (2^32)

/-- What a slot holds with a number in it: -1 is the mark of an empty slot. -/
def slotMark (nId : ℤ) : Option ℤ := if nId = -1 then none else some nId

/-- Entries are numbered by an `int` that counts them all, also those that were deleted. A
slot of a table holds the number of an entry, or nothing. -/
structure CAddrMan where
  nKey : UInt256
  nIdCount : ℤ
  mapInfo : Std.ExtTreeMap ℤ CAddrInfo
  mapAddr : Std.ExtTreeMap CNetAddr ℤ
  vRandom : List ℤ
  nTried : ℤ
  vvTried : TriedSlot → Option ℤ
  nNew : ℤ
  vvNew : NewSlot → Option ℤ

namespace CAddrMan

variable (s : CAddrMan)

def empty (nKey : UInt256) : CAddrMan := ⟨nKey,0,∅,∅,[],0,fun _ => none,0,fun _ => none⟩

def update (nId : ℤ) (f : CAddrInfo → CAddrInfo) : CAddrMan :=
  { s with mapInfo := s.mapInfo.modify nId f }

/-- A look-up by number that creates a missing entry. -/
def touch (nId : ℤ) : CAddrMan := { s with mapInfo := s.mapInfo.insertIfNew nId .blank }

def find (addr : CNetAddr) : Option (ℤ × CAddrInfo) :=
  (s.mapAddr[addr]?).bind fun nId => (s.mapInfo[nId]?).map fun info => (nId,info)

def create (addr : CAddress) (addrSource : CNetAddr) : CAddrMan :=
  { s with
    nIdCount := nextId s.nIdCount
    mapInfo := s.mapInfo.insert s.nIdCount { CAddrInfo.init addr addrSource with nRandomPos := s.vRandom.length }
    mapAddr := s.mapAddr.insert addr.ip s.nIdCount
    vRandom := s.vRandom++[s.nIdCount] }

def exchange (nRndPos1 nRndPos2 : ℕ) (nId1 nId2 : ℤ) : CAddrMan :=
  { s with
    mapInfo := (s.mapInfo.modify nId1 fun i => { i with nRandomPos := nRndPos2 }).modify nId2
      fun i => { i with nRandomPos := nRndPos1 }
    vRandom := (s.vRandom.set nRndPos1 nId2).set nRndPos2 nId1 }

def swapRandom (nRndPos1 nRndPos2 : ℕ) : Option CAddrMan :=
  if nRndPos1 = nRndPos2 then some s
  else
    match s.vRandom[nRndPos1]?, s.vRandom[nRndPos2]? with
    | some nId1, some nId2 =>
      if s.mapInfo.contains nId1 && s.mapInfo.contains nId2 then
        some (s.exchange nRndPos1 nRndPos2 nId1 nId2)
      else none
    | _, _ => none

def dropLast (nId : ℤ) (addr : CNetAddr) : CAddrMan :=
  { s with
    vRandom := s.vRandom.dropLast
    mapAddr := s.mapAddr.erase addr
    mapInfo := s.mapInfo.erase nId
    nNew := s.nNew-1 }

def delete (nId : ℤ) : Option CAddrMan :=
  match s.mapInfo[nId]? with
  | none => none
  | some info =>
    -- with no random order the last place is out of range
    if info.fInTried || info.nRefCount ≠ 0 || s.vRandom.isEmpty then none
    else (s.swapRandom info.nRandomPos (s.vRandom.length-1)).map fun s => s.dropLast nId info.ip

def unref (x : NewSlot) (nId : ℤ) : CAddrMan :=
  { s.update nId fun i => { i with nRefCount := i.nRefCount-1 } with vvNew := Function.update s.vvNew x none }

def ref (x : NewSlot) (nId : ℤ) : CAddrMan :=
  { s.update nId fun i => { i with nRefCount := i.nRefCount+1 } with vvNew := Function.update s.vvNew x (slotMark nId) }

def clearNew (x : NewSlot) : Option CAddrMan :=
  match s.vvNew x with
  | none => some s
  | some nIdDelete =>
    match s.mapInfo[nIdDelete]? with
    | none => none
    | some infoDelete =>
      if infoDelete.nRefCount ≤ 0 then none
      else if infoDelete.nRefCount-1 = 0 then (s.unref x nIdDelete).delete nIdDelete
      else some (s.unref x nIdDelete)

def leaveBucket (nId : ℤ) (s : CAddrMan) (bucket : Fin ADDRMAN_NEW_BUCKET_COUNT) : CAddrMan :=
  match s.mapInfo[nId]? with
  | none => s
  | some info =>
    let x : NewSlot := (bucket,getBucketPosition P s.nKey info.toCService true bucket)
    if s.vvNew x = slotMark nId then s.unref x nId else s

def leaveBuckets (nId : ℤ) : CAddrMan := newBuckets.foldl (leaveBucket P nId) s

def demote (x : TriedSlot) (nId : ℤ) : CAddrMan :=
  { s.update nId fun i => { i with fInTried := false } with
    vvTried := Function.update s.vvTried x none
    nTried := s.nTried-1 }

def promote (x : TriedSlot) (nId : ℤ) : CAddrMan :=
  { s.update nId fun i => { i with fInTried := true } with
    vvTried := Function.update s.vvTried x (slotMark nId)
    nTried := s.nTried+1 }

def reenter (x : NewSlot) (nId : ℤ) : CAddrMan :=
  { s.update nId fun i => { i with nRefCount := 1 } with
    vvNew := Function.update s.vvNew x (slotMark nId)
    nNew := s.nNew+1 }

/-- A tried entry goes back to the new table, deleting whatever is in its slot there. -/
def evict (x : TriedSlot) (nIdEvict : ℤ) : Option CAddrMan :=
  match s.mapInfo[nIdEvict]? with
  | none => none
  | some infoOld =>
    let y := newSlot P s.nKey infoOld.toCService infoOld.source
    ((s.demote x nIdEvict).clearNew y).bind fun s =>
      if s.vvNew y ≠ none then none else some (s.reenter y nIdEvict)

def makeRoom (x : TriedSlot) : Option CAddrMan :=
  match s.vvTried x with
  | none => some s
  | some nIdEvict => s.evict P x nIdEvict

/-- The entry that left the new table, and is not counted there any more, enters the tried table. -/
def enterTried (nId : ℤ) : Option CAddrMan :=
  match s.mapInfo[nId]? with
  | none => none
  | some info =>
    if info.nRefCount ≠ 0 then none
    else
      let x := triedSlot P s.nKey info.toCService
      (s.makeRoom P x).bind fun s => if s.vvTried x ≠ none then none else some (s.promote x nId)

def uncountNew : CAddrMan := { s with nNew := s.nNew-1 }

def makeTried (nId : ℤ) : Option CAddrMan := (s.leaveBuckets P nId).uncountNew.enterTried P nId

def inNewBucket (nId : ℤ) (addr : CService) (nRnd : ℕ) : Bool :=
  (List.range ADDRMAN_NEW_BUCKET_COUNT).any fun n =>
    let nB := Fin.ofNat ADDRMAN_NEW_BUCKET_COUNT (n+nRnd)
    s.vvNew (nB,getBucketPosition P s.nKey addr true nB) = slotMark nId

def good (addr : CService) (nTime : Int64) (nRnd : ℕ) : Option CAddrMan :=
  match s.find addr.ip with
  | none => some s
  | some (nId,info) =>
    if info.toCService ≠ addr then some s
    else
      let s := s.update nId fun i => { i with nLastSuccess := nTime, nLastTry := nTime, nAttempts := 0 }
      if info.fInTried then some s
      else if s.inNewBucket P nId info.toCService nRnd then s.makeTried P nId
      else some s

/-- The entry gets a new slot, unless a better one is there already. -/
def place (nId : ℤ) (source : CNetAddr) (nNow : Int64) : Option CAddrMan :=
  match s.mapInfo[nId]? with
  | none => none
  | some info =>
    let x := newSlot P s.nKey info.toCService source
    let insert (s : CAddrMan) := (s.clearNew x).map fun s => s.ref x nId
    if s.vvNew x = slotMark nId then some s
    else
      match s.vvNew x with
      | none => insert s
      | some nIdExisting =>
        let infoExisting := (s.mapInfo[nIdExisting]?).getD .blank
        let s := s.touch nIdExisting
        if infoExisting.isTerrible nNow || (1 < infoExisting.nRefCount && info.nRefCount = 0) then insert s
        else if info.nRefCount = 0 then s.delete nId
        else some s

def createNew (addr : CAddress) (source : CNetAddr) (nTimePenalty : Int64) : CAddrMan :=
  { (s.create addr source).update s.nIdCount fun i =>
      { i with nTime := (max 0 (Int64.ofNat i.nTime.toNat-nTimePenalty)).toUInt64.toUInt32 } with
    nNew := s.nNew+1 }

/-- The time is asked for twice, and there may be one random choice. -/
def add (addr : CAddress) (source : CNetAddr) (nTimePenalty nNow nNow' : Int64) (nRnd : ℕ) :
    Option (Bool × CAddrMan) :=
  if !isRoutable addr.ip then some (false,s)
  else
    match s.find addr.ip with
    | some (nId,info) =>
      let info := info.refresh addr nTimePenalty nNow
      let s := s.update nId fun _ => info
      if addr.nTime = 0 || (info.nTime ≠ 0 && addr.nTime ≤ info.nTime) then some (false,s)
      else if info.fInTried then some (false,s)
      else if info.nRefCount = ADDRMAN_NEW_BUCKETS_PER_ADDRESS then some (false,s)
      -- each reference makes another one half as likely
      else if nRnd%2^info.nRefCount.toNat ≠ 0 then some (false,s)
      else (s.place P nId source nNow').map fun s => (false,s)
    | none =>
      ((s.createNew addr source nTimePenalty).place P s.nIdCount source nNow').map fun s => (true,s)

def attempt (addr : CService) (nTime : Int64) : CAddrMan :=
  match s.find addr.ip with
  | none => s
  | some (nId,info) =>
    if info.toCService ≠ addr then s
    else s.update nId fun i => { i with nLastTry := nTime, nAttempts := i.nAttempts+1 }

def connected (addr : CService) (nTime : Int64) : CAddrMan :=
  match s.find addr.ip with
  | none => s
  | some (nId,info) =>
    if info.toCService ≠ addr then s
    else if 20*60 < nTime-Int64.ofNat info.nTime.toNat then
      s.update nId fun i => { i with nTime := nTime.toUInt64.toUInt32 }
    else s

def pick {ι : Type} (table : ι → Option ℤ) : List (ι × Bool) → Option (Option CAddress)
  | [] => some none
  | (x,accept)::choices =>
    match table x with
    | none => pick table choices
    | some nId =>
      match s.mapInfo[nId]? with
      | none => none
      | some info => if accept then some (some info.toCAddress) else pick table choices

/-- The choices are the slots and whether the chance of the entry there was met; there is
no address if they run out before. -/
def select (nRnd : ℕ) (tried : List (TriedSlot × Bool)) (new : List (NewSlot × Bool)) :
    Option (Option CAddress) :=
  if s.vRandom.length = 0 then some (some .init)
  else if 0 < s.nTried && (s.nNew = 0 || nRnd%2 = 0) then s.pick s.vvTried tried
  else s.pick s.vvNew new

def gather (nRnd : ℕ → ℕ) (nNow : ℕ → Int64) (nNodes : ℕ) :
    ℕ → ℕ → List CAddress → CAddrMan → Option (List CAddress × CAddrMan)
  | 0, _, vAddr, s => some (vAddr,s)
  | k+1, n, vAddr, s =>
    if nNodes ≤ vAddr.length then some (vAddr,s)
    else
      (s.swapRandom n (nRnd n%(s.vRandom.length-n)+n)).bind fun s =>
        match (s.vRandom[n]?).bind fun nId => s.mapInfo[nId]? with
        | none => none
        | some ai =>
          gather nRnd nNow nNodes k (n+1) (if ai.isTerrible (nNow n) then vAddr else vAddr++[ai.toCAddress]) s

def getAddr (nRnd : ℕ → ℕ) (nNow : ℕ → Int64) : Option (List CAddress × CAddrMan) :=
  gather nRnd nNow (min (ADDRMAN_GETADDR_MAX_PCT*s.vRandom.length/100) ADDRMAN_GETADDR_MAX) s.vRandom.length 0 [] s

end CAddrMan

/-- A call, with the random choices made in it and the times the clock gave. -/
inductive AddrManCall
  | add (addr : CAddress) (source : CNetAddr) (nTimePenalty nNow nNow' : Int64) (nRnd : ℕ)
  | good (addr : CService) (nTime : Int64) (nRnd : ℕ)
  | attempt (addr : CService) (nTime : Int64)
  | connected (addr : CService) (nTime : Int64)
  | select (nRnd : ℕ) (tried : List (TriedSlot × Bool)) (new : List (NewSlot × Bool))
  | getAddr (nRnd : ℕ → ℕ) (nNow : ℕ → Int64)

def CAddrMan.call (P : Params) (s : CAddrMan) : AddrManCall → Option CAddrMan
  | .add addr source nTimePenalty nNow nNow' nRnd =>
    (s.add P addr source nTimePenalty nNow nNow' nRnd).map Prod.snd
  | .good addr nTime nRnd => s.good P addr nTime nRnd
  | .attempt addr nTime => some (s.attempt addr nTime)
  | .connected addr nTime => some (s.connected addr nTime)
  | .select nRnd tried new => (s.select nRnd tried new).map fun _ => s
  | .getAddr nRnd nNow => (s.getAddr nRnd nNow).map Prod.snd

end AddrMan
end DarkSilk
