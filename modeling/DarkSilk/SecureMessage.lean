import DarkSilk.ByteReads
import DarkSilk.Decoder
import DarkSilk.SortedSet

/-! Secure messages: the buckets of message tokens, and the messages by which two nodes
compare their buckets and exchange what is missing. Every access to the bytes that a peer
sent is recorded, and counts and lengths are of the machine types of the program. -/
namespace DarkSilk
namespace Smsg

open PrefixCode ByteReads

def SMSG_HDR_LEN : ℕ := 104
def SMSG_MAX_MSG_WORST : ℕ := 4218
def SMSG_BUCKET_LEN : ℤ := 60*10
def SMSG_RETENTION : ℤ := 60*60*48
def SMSG_TIME_LEEWAY : ℤ := 60
def MAX_PROTOCOL_MESSAGE_LENGTH : ℕ := 2*1024*1024

structure SecMsgToken where
  timestamp : ℤ
  /-- The first eight bytes of the payload, as memcmp orders them. -/
  sample : UInt64
  offset : ℤ
  deriving DecidableEq, Repr

def SecMsgToken.key (t : SecMsgToken) : ℤ ×ₗ ℕ := toLex (t.timestamp,t.sample.toNat)

structure SecMsgBucket where
  timeChanged : ℤ
  hash : UInt32
  nLockCount : ℕ
  nLockPeerId : ℤ
  setTokens : SortedSet SecMsgToken SecMsgToken.key

def SecMsgBucket.empty : SecMsgBucket := ⟨0,0,0,0,.empty⟩

abbrev Buckets := Std.ExtTreeMap ℤ SecMsgBucket

/-- The hash functions: a keyed hash that may fail, and the hash of a bucket. -/
structure Hashes where
  hmac : List UInt8 → List UInt8 → Option (List UInt8)
  xxh32 : List UInt8 → UInt32

structure SecMsgAddress where
  sAddress : String
  fReceiveEnabled : Bool
  fReceiveAnon : Bool

structure SmsgEnv where
  now : ℤ
  peerId : ℤ
  ignoreUntil : ℤ
  createDirectory : Bool
  fopen : ℤ → Bool
  fwrite : ℤ → Bool
  /-- Where a message of some time and sample begins in its file. -/
  ftell : ℤ → UInt64 → ℤ
  secureMsgRetrieve : SecMsgToken → Option (List UInt8)
  isLocked : Bool
  smsgAddresses : List SecMsgAddress
  /-- The sender of a message for an address, from its header and its payload. -/
  decrypt : Bool → String → List UInt8 → List UInt8 → Option String
  storeUnscanned : ℤ → Bool

inductive SmsgReply where
  | smsgShow | smsgMatch | smsgHave | smsgWant | smsgMsg
  deriving DecidableEq, Repr

structure Handled where
  accepted : Bool
  misbehaving : ℕ
  replies : List (SmsgReply × List UInt8)
  buckets : Buckets

section

def i64Bytes (k : ℤ) : List UInt8 := leBytes 8 (k%2^64).toNat
def u32Bytes (n : UInt32) : List UInt8 := leBytes 4 n.toNat
def sampleBytes (sample : UInt64) : List UInt8 := (leBytes 8 sample.toNat).reverse

variable (v : Buffer)

@[irreducible] def u32 (offset : ℕ) : UInt32 := UInt32.ofNat (leValue (v.slice offset 4))
@[irreducible] def i64 (offset : ℕ) : ℤ := (BitVec.ofNat 64 (leValue (v.slice offset 8))).toInt
@[irreducible] def sample (offset : ℕ) : UInt64 := UInt64.ofNat (leValue (v.slice offset 8).reverse)

def readU32 (offset : ℕ) : Logged UInt32 := ⟨[(offset,4)],u32 v offset⟩
def readI64 (offset : ℕ) : Logged ℤ := ⟨[(offset,8)],i64 v offset⟩
def readSample (offset : ℕ) : Logged UInt64 := ⟨[(offset,8)],sample v offset⟩

end

def Buckets.at (b : Buckets) (time : ℤ) : SecMsgBucket := (b[time]?).getD .empty

def Buckets.touch (b : Buckets) (time : ℤ) : Buckets := b.insert time (b.at time)

def Buckets.has (b : Buckets) (time : ℤ) (k : ℤ ×ₗ ℕ) : Bool := (b.at time).setTokens.contains k

def SecMsgBucket.hashBucket (H : Hashes) (now : ℤ) (k : SecMsgBucket) : SecMsgBucket :=
  { k with timeChanged := now, hash := H.xxh32 (k.setTokens.toList.flatMap fun t => sampleBytes t.sample) }

def bucketOf (timestamp : ℤ) : ℤ := timestamp-timestamp.tmod SMSG_BUCKET_LEN

variable (H : Hashes) (E : SmsgEnv) (v : Buffer)

/-- The proof of work. The mask is a logical or, so only the lowest bit of the byte counts. -/
def workValid (sha256Hash : List UInt8) : Bool :=
  sha256Hash.getD 31 0 = 0 && sha256Hash.getD 30 0 = 0 && (~~~(sha256Hash.getD 29 0) &&& 1) ≠ 0

/-- The header at one place of the buffer and the payload at another. -/
def secureMsgValidate (pHeader pPayload : ℕ) (nPayload : UInt32) : Logged ℕ := do
  let version ← v.read (pHeader+4) 1
  if version ≠ [1] then return 4
  else if nPayload.toNat > SMSG_MAX_MSG_WORST then return 5
  else
    let nonse ← v.read (pHeader+96) 4
    let header ← v.read (pHeader+4) (SMSG_HDR_LEN-4)
    let payload ← v.read pPayload nPayload.toNat
    let again ← v.read pPayload nPayload.toNat
    match H.hmac (List.replicate 8 nonse).flatten (header++payload++again) with
    | none => return 1
    | some sha256Hash =>
      let hash ← v.read pHeader 4
      return if hash ≠ sha256Hash.take 4 then 3 else if workValid sha256Hash then 0 else 2

/-- The sample of a token, zero for a payload that is too short as a signed number. -/
def tokenSample (pPayload : ℕ) (nPayload : UInt32) : Logged UInt64 :=
  if nPayload.toNat < 8 || 2^31 ≤ nPayload.toNat then pure 0 else readSample v pPayload

/-- The time of a message or a bucket is neither past nor future. -/
def isTimely (time : ℤ) : Bool := !(time > E.now+SMSG_TIME_LEEWAY) && !(time < E.now-SMSG_RETENTION)

/-- A token and its message, from the look into the bucket on. -/
def storeToken (pHeader pPayload : ℕ) (nPayload : UInt32) (fUpdateBucket : Bool)
    (token : SecMsgToken) (b : Buckets) :
    Logged (ℕ × Buckets) :=
  let bucket := bucketOf token.timestamp
  if b.has bucket token.key then pure (1,b)
  else if !E.fopen bucket then pure (1,b)
  else do
    let _ ← v.read pHeader SMSG_HDR_LEN
    let _ ← v.read pPayload nPayload.toNat
    if !E.fwrite bucket then return (1,b)
    else
      let k := { b.at bucket with setTokens := (b.at bucket).setTokens.insert token }
      return (0,b.insert bucket (if fUpdateBucket then k.hashBucket H E.now else k))

def secureMsgStore (pHeader pPayload : ℕ) (nPayload : UInt32) (fUpdateBucket : Bool) (b : Buckets) :
    Logged (ℕ × Buckets) :=
  if !E.createDirectory then pure (1,b)
  else do
    let timestamp ← readI64 v (pHeader+7)
    if !isTimely E timestamp then return (1,b)
    else
      let sample ← tokenSample v pPayload nPayload
      storeToken H E v pHeader pPayload nPayload fUpdateBucket ⟨timestamp,sample,E.ftell timestamp sample⟩
        (b.touch (bucketOf timestamp))

/-- Without a sender if the message is not for the address. Of the header, more is read here than
in the program. -/
def secureMsgDecrypt (fTestOnly : Bool) (sAddress : String) (pHeader pPayload : ℕ)
    (nPayload : UInt32) :
    Logged (Option String) := do
  let header ← v.read pHeader SMSG_HDR_LEN
  let payload ← v.read pPayload nPayload.toNat
  return E.decrypt fTestOnly sAddress header payload

/-- Go through the addresses up to the first one that the message is for. -/
def ownMessage (pHeader pPayload : ℕ) (nPayload : UInt32) : List SecMsgAddress → Logged Bool
  | [] => pure false
  | it::rest =>
    if !it.fReceiveEnabled then ownMessage pHeader pPayload nPayload rest
    else do
      match ← secureMsgDecrypt E v it.fReceiveAnon it.sAddress pHeader pPayload nPayload with
      | none => ownMessage pHeader pPayload nPayload rest
      | some sFromAddress => return it.fReceiveAnon || sFromAddress ≠ "anon"

def secureMsgStoreUnscanned (pHeader pPayload : ℕ) (nPayload : UInt32) : Logged ℕ :=
  if !E.createDirectory then pure 1
  else do
    let timestamp ← readI64 v (pHeader+7)
    if !isTimely E timestamp then return 1
    else
      let _ ← v.read pHeader SMSG_HDR_LEN
      let _ ← v.read pPayload nPayload.toNat
      return if E.storeUnscanned (bucketOf timestamp) then 0 else 1

/-- Is the message for this node? The key of an own message in the inbox has the first eight bytes
of its payload, whether it has so many or not. -/
def secureMsgScanMessage (pHeader pPayload : ℕ) (nPayload : UInt32) : Logged ℕ :=
  if E.isLocked then do
    let rv ← secureMsgStoreUnscanned E v pHeader pPayload nPayload
    return if rv ≠ 0 then 1 else 3
  else do
    let fOwnMessage ← ownMessage E v pHeader pPayload nPayload E.smsgAddresses
    if fOwnMessage then
      let _ ← readI64 v (pHeader+7)
      let _ ← v.read pPayload 8
      let _ ← v.read pHeader SMSG_HDR_LEN
      let _ ← v.read pPayload nPayload.toNat
      return 0
    else return 0

/-- The loop over the messages of a bunch. After an invalid message it stays where it is,
and a message that is not stored ends it. -/
def receiveLoop : ℕ → UInt32 → ℕ → Buckets → Logged (ℕ × Buckets)
  | 0, _, misbehaving, b => pure (misbehaving,b)
  | i+1, n, misbehaving, b =>
    if (UInt64.ofNat v.size-n.toUInt64).toNat < SMSG_HDR_LEN then pure (misbehaving,b)
    else do
      let nPayload ← readU32 v (n.toNat+100)
      let rv ← secureMsgValidate H v n.toNat (n+104).toNat nPayload
      if rv ≠ 0 then receiveLoop i n (misbehaving+if rv = 2 then 10 else 1) b
      else
        let (stored,b) ← secureMsgStore H E v n.toNat (n+104).toNat nPayload false b
        if stored ≠ 0 then return (misbehaving,b)
        else
          let _ ← secureMsgScanMessage E v n.toNat (n+104).toNat nPayload
          receiveLoop i (n+(104+nPayload)) misbehaving b

def secureMsgReceive (b : Buckets) : Logged Handled :=
  if v.size < 12 then pure ⟨true,0,[],b⟩
  else do
    let nBunch ← readU32 v 0
    let bktTime ← readI64 v 4
    if !isTimely E bktTime then return ⟨true,0,[],b⟩
    else if nBunch = 0 || nBunch > 500 then
      return ⟨true,1,[],match b[bktTime]? with
        | none => b
        | some k => b.insert bktTime { k with nLockCount := 0 }⟩
    else
      let (misbehaving,b) ← receiveLoop H E v nBunch.toNat 12 0 b
      return ⟨true,misbehaving,[],match b[bktTime]? with
        | none => b
        | some k => b.insert bktTime ({ k with nLockCount := 0, nLockPeerId := 0 }.hashBucket H E.now)⟩

structure InvState where
  nLocked : ℕ
  wanted : List ℤ
  misbehaving : ℕ
  buckets : Buckets

def InvState.header (s : InvState) (time : ℤ) (ncontent hash : UInt32) : InvState :=
  if time < E.now-SMSG_RETENTION then
    if time < E.now-SMSG_RETENTION-SMSG_TIME_LEEWAY then { s with misbehaving := s.misbehaving+1 } else s
  else if time > E.now+SMSG_TIME_LEEWAY then { s with misbehaving := s.misbehaving+1 }
  else if ncontent < 1 then s
  else
    let s := { s with buckets := s.buckets.touch time }
    let k := s.buckets.at time
    if k.nLockCount > 0 then { s with nLocked := s.nLocked+1 }
    else if k.setTokens.toList.length < ncontent.toNat ||
        (k.setTokens.toList.length = ncontent.toNat && k.hash ≠ hash) then
      { s with wanted := s.wanted++[time] }
    else s

def invLoop : ℕ → ℕ → InvState → Logged InvState
  | 0, _, s => pure s
  | i+1, p, s => do
    let time ← readI64 v p
    let ncontent ← readU32 v (p+8)
    let hash ← readU32 v (p+12)
    invLoop i (p+16) (s.header E time ncontent hash)

def smsgInv (b : Buckets) : Logged Handled :=
  if v.size < 4 then pure ⟨false,1,[],b⟩
  else if E.now < E.ignoreUntil then pure ⟨false,0,[],b⟩
  else do
    let nInvBuckets ← readU32 v 0
    if (nInvBuckets.toNat : ℤ) > SMSG_RETENTION/SMSG_BUCKET_LEN+1 then return ⟨false,1,[],b⟩
    else if v.size < (4+nInvBuckets*16).toNat then return ⟨false,1,[],b⟩
    else
      let s ← invLoop E v nInvBuckets.toNat 4 ⟨0,[],0,b⟩
      let replies := if s.wanted ≠ [] then
          [(.smsgShow,u32Bytes (UInt32.ofNat s.wanted.length)++s.wanted.flatMap i64Bytes)]
        else if s.nLocked < 1 then [(.smsgMatch,i64Bytes E.now)] else []
      return ⟨true,s.misbehaving,replies,s.buckets⟩

def haveBytes (time : ℤ) (k : SecMsgBucket) : List UInt8 :=
  i64Bytes time++k.setTokens.toList.flatMap fun t => i64Bytes t.timestamp++sampleBytes t.sample

def showLoop (b : Buckets) :
    ℕ → ℕ → List (SmsgReply × List UInt8) → Logged (List (SmsgReply × List UInt8))
  | 0, _, replies => pure replies
  | i+1, p, replies => do
    let time ← readI64 v p
    showLoop b i (p+8) (match b[time]? with
      | none => replies
      | some k => replies++[(.smsgHave,haveBytes time k)])

def smsgShow (b : Buckets) : Logged Handled :=
  if v.size < 4 then pure ⟨false,0,[],b⟩
  else do
    let nBuckets ← readU32 v 0
    if v.size < (4+nBuckets*8).toNat then return ⟨false,0,[],b⟩
    else
      let replies ← showLoop v b nBuckets.toNat 4 []
      return ⟨true,0,replies,b⟩

/-- The number of tokens behind a bucket time, as a signed number. -/
def nTokens : ℕ := (BitVec.ofNat 32 ((v.size-8)/16)).toInt.toNat

def haveLoop (k : SecMsgBucket) : ℕ → ℕ → List UInt8 → Logged (List UInt8)
  | 0, _, out => pure out
  | i+1, p, out => do
    let timestamp ← readI64 v p
    let sample ← readSample v (p+8)
    if k.setTokens.contains (toLex (timestamp,sample.toNat)) then haveLoop k i (p+16) out
    else
      let wanted ← v.read p 16
      haveLoop k i (p+16) (out++wanted)

def smsgHave (b : Buckets) : Logged Handled :=
  if v.size < 8 then pure ⟨false,0,[],b⟩
  else do
    let time ← readI64 v 0
    if time < E.now-SMSG_RETENTION then return ⟨false,0,[],b⟩
    else if time > E.now+SMSG_TIME_LEEWAY then return ⟨false,1,[],b⟩
    else
      let b := b.touch time
      if (b.at time).nLockCount > 0 then return ⟨false,0,[],b⟩
      else
        let first ← v.read 0 8
        let out ← haveLoop v (b.at time) (nTokens v) 8 first
        return if out.length > 8 then
            ⟨true,0,[(.smsgWant,out)],b.insert time { b.at time with nLockCount := 3, nLockPeerId := E.peerId }⟩
          else ⟨true,0,[],b⟩

/-- The loop over the tokens that a peer wants, until the bunch is full. -/
def wantLoop (k : SecMsgBucket) : ℕ → ℕ → ℕ → List UInt8 → Logged (ℕ × List UInt8)
  | 0, _, nBunch, out => pure (nBunch,out)
  | i+1, p, nBunch, out => do
    let timestamp ← readI64 v p
    let sample ← readSample v (p+8)
    match k.setTokens.find? (toLex (timestamp,sample.toNat)) with
    | none => wantLoop k i (p+16) nBunch out
    | some token =>
      let one := E.secureMsgRetrieve token
      let nBunch := if one.isSome then nBunch+1 else nBunch
      let out := out++one.getD []
      if nBunch ≥ 500 || out.length+12 ≥ 96000 then return (nBunch,out) else wantLoop k i (p+16) nBunch out

def smsgWant (b : Buckets) : Logged Handled :=
  if v.size < 8 then pure ⟨false,0,[],b⟩
  else do
    let time ← readI64 v 0
    match b[time]? with
    | none => return ⟨false,0,[],b⟩
    | some k =>
      let (nBunch,out) ← wantLoop E v k (nTokens v) 8 0 []
      return ⟨true,0,if nBunch > 0 then
        [(.smsgMsg,u32Bytes (UInt32.ofNat nBunch)++i64Bytes time++out)] else [],b⟩

inductive SmsgCommand where
  | smsgInv | smsgShow | smsgHave | smsgWant | smsgMsg
  deriving DecidableEq, Repr

def secureMsgReceiveData (H : Hashes) (E : SmsgEnv) (command : SmsgCommand) (v : Buffer)
    (b : Buckets) : Logged Handled :=
  match command with
  | .smsgInv => smsgInv E v b
  | .smsgShow => smsgShow v b
  | .smsgHave => smsgHave E v b
  | .smsgWant => smsgWant E v b
  | .smsgMsg => secureMsgReceive H E v b

end Smsg
end DarkSilk
