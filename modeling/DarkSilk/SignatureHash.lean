import DarkSilk.Sandstorm

/-! What a signature of an input signs, and the check of a signature, in the two versions of
the source. The rules of blocks hash the transaction with the parts that the hash type leaves
open taken out, and remember good signatures in a cache; the checker of the other interpreter
hashes nothing. -/

namespace DarkSilk

open PrefixCode Script

def getLen (chHeader : UInt8) : ℕ :=
  if chHeader = 2 || chHeader = 3 then 33
  else if chHeader = 4 || chHeader = 6 || chHeader = 7 then 65
  else 0

/-- The bytes that a public key object keeps: none if their number is wrong. -/
def cPubKey (vch : List UInt8) : List UInt8 :=
  match vch.head? with
  | none => []
  | some b => if getLen b ≠ 0 && getLen b = vch.length then vch else []

namespace Consensus

def SIGHASH_ALL : ℕ := 1
def SIGHASH_NONE : ℕ := 2
def SIGHASH_SINGLE : ℕ := 3
def SIGHASH_ANYONECANPAY : ℕ := 0x80

def OP_CODESEPARATOR : ℕ := 0xab

/-- Where an operation starts, the pattern is taken out as often as it stands there. -/
def deleteLoop (b : CScript) : ℕ → CScript → CScript
  | 0, pc => pc
  | fuel+1, pc =>
    if b.isPrefixOf pc then deleteLoop b fuel (pc.drop b.length)
    else
      let r := getOp2 pc
      if r.ok then pc.take (pc.length-r.rest.length)++deleteLoop b fuel r.rest else pc

def findAndDelete (b script : CScript) : CScript :=
  if b = [] then script else deleteLoop b script.length script

section

variable (P : Params) (scriptCode : CScript) (txTo : CTransaction) (nIn nHashType : ℕ)

/-- The other inputs lose their scripts and, where not all outputs are signed, their sequence
numbers. -/
def signedVin : List CTxIn :=
  let scriptCode := findAndDelete [UInt8.ofNat OP_CODESEPARATOR] scriptCode
  let fOpen := nHashType &&& 0x1f = SIGHASH_NONE || nHashType &&& 0x1f = SIGHASH_SINGLE
  let vin := txTo.vin.mapIdx fun i txin =>
    if i = nIn then { txin with scriptSig := scriptCode }
    else ⟨txin.prevout,[],if fOpen then 0 else txin.nSequence⟩
  if nHashType &&& SIGHASH_ANYONECANPAY ≠ 0 then (vin[nIn]?).toList else vin

/-- No outputs, the one of the input with blank ones before it, or all. -/
def signedVout : List CTxOut :=
  if nHashType &&& 0x1f = SIGHASH_NONE then []
  else if nHashType &&& 0x1f = SIGHASH_SINGLE then
    List.replicate nIn ⟨-1,[]⟩++(txTo.vout.drop nIn).take 1
  else txTo.vout

def signedTx : CTransaction :=
  { txTo with vin := signedVin scriptCode txTo nIn nHashType, vout := signedVout txTo nIn nHashType }

def signatureHash : UInt256 :=
  if txTo.vin.length ≤ nIn then 1
  else if nHashType &&& 0x1f = SIGHASH_SINGLE ∧ txTo.vout.length ≤ nIn then 1
  else P.hash ((signedTx scriptCode txTo nIn nHashType).serialize++leBytes 4 nHashType)

end

abbrev SigData := UInt256 × List UInt8 × List UInt8

/-- The cache and its size. Which entries go when it is full is up to chance. -/
structure Eviction where
  nMaxCacheSize : ℤ
  keep : List SigData → List SigData
  keep_subset : ∀ l, keep l ⊆ l

def setValid (V : Eviction) (k : SigData) (cache : List SigData) : List SigData :=
  if V.nMaxCacheSize ≤ 0 then cache else k::(if V.nMaxCacheSize < cache.length then V.keep cache else cache)

variable (S : ScriptEnv) (P : Params) (V : Eviction)

structure SigCall where
  vchSig : List UInt8
  vchPubKey : List UInt8
  scriptCode : CScript
  txTo : CTransaction
  nIn : ℕ
  nHashType : ℕ
  flags : UInt32

/-- The answer and the cache after it. Hash type zero stands for the one of the signature. -/
def checkSig (call : SigCall) (cache : List SigData) : Bool × List SigData :=
  if !S.isValid call.vchPubKey then (false,cache)
  else match call.vchSig.getLast? with
    | none => (false,cache)
    | some last =>
      if call.nHashType ≠ 0 && call.nHashType ≠ last.toNat then (false,cache)
      else
        let vchSig := call.vchSig.dropLast
        let sighash := signatureHash P call.scriptCode call.txTo call.nIn last.toNat
        if (sighash,vchSig,call.vchPubKey) ∈ cache then (true,cache)
        else if !S.verify call.vchPubKey sighash vchSig then (false,cache)
        else (true,if call.flags &&& Flags.NOCACHE = 0 then setValid V (sighash,vchSig,call.vchPubKey) cache else cache)

/-- Every signature that is remembered is good. -/
def Sound (cache : List SigData) : Prop := ∀ k ∈ cache, S.verify k.2.2 k.1 k.2.1 = true

variable {S P V} {cache : List SigData}

theorem checkSig_fst (h : Sound S cache) {call last} (hlast : call.vchSig.getLast? = some last)
    (htype : call.nHashType = 0) :
    (checkSig S P V call cache).1 = (S.isValid call.vchPubKey &&
      S.verify call.vchPubKey (signatureHash P call.scriptCode call.txTo call.nIn last.toNat)
        call.vchSig.dropLast) := by
  unfold checkSig
  rw [hlast]
  cases hvalid : S.isValid call.vchPubKey with
  | false => rfl
  | true =>
    rw [if_neg (by simp)]
    dsimp only
    rw [if_neg (by simp [htype])]
    by_cases hcached : (signatureHash P call.scriptCode call.txTo call.nIn last.toNat,
      call.vchSig.dropLast,call.vchPubKey) ∈ cache
    · rw [if_pos hcached,h _ hcached]
      rfl
    · rw [if_neg hcached]
      cases S.verify call.vchPubKey (signatureHash P call.scriptCode call.txTo call.nIn last.toNat)
        call.vchSig.dropLast <;> rfl

end Consensus

variable {S : ScriptEnv} {P : Params} {V : Consensus.Eviction}

/-- Signatures tell hashes apart: for two of them some key has a signature that is good for
the one and not for the other. -/
def Distinguishes (S : ScriptEnv) : Prop :=
  ∀ h₁ h₂ : UInt256, h₁ ≠ h₂ → ∃ vchPubKey vchSig, S.isValid vchPubKey = true ∧
    S.verify vchPubKey h₁ vchSig = true ∧ S.verify vchPubKey h₂ vchSig = false

/-- No index, or no output for it where only that one is signed. -/
def NothingToSign (txTo : CTransaction) (nIn nHashType : ℕ) : Prop :=
  txTo.vin.length ≤ nIn ∨ nHashType &&& 0x1f = Consensus.SIGHASH_SINGLE ∧ txTo.vout.length ≤ nIn

instance (txTo : CTransaction) (nIn nHashType : ℕ) : Decidable (NothingToSign txTo nIn nHashType) :=
  inferInstanceAs (Decidable (_ ∨ _))

theorem signatureHash_eq_iff (hhash : ∀ bytes, P.hash bytes ≠ 0) (scriptCode txTo nIn nHashType) :
    signatureHash scriptCode txTo nIn nHashType =
      Consensus.signatureHash P scriptCode txTo nIn nHashType ↔
      NothingToSign txTo nIn nHashType := by
  unfold signatureHash Consensus.signatureHash NothingToSign
  by_cases hin : txTo.vin.length ≤ nIn
  · rw [if_pos hin,if_pos hin]
    exact iff_of_true rfl (.inl hin)
  · rw [if_neg hin,if_neg hin]
    by_cases hout : nHashType &&& 0x1f = Consensus.SIGHASH_SINGLE ∧ txTo.vout.length ≤ nIn
    · have hout' : nHashType &&& 0x1f = 3 ∧ txTo.vout.length ≤ nIn := hout
      rw [if_pos hout',if_pos hout]
      exact iff_of_true rfl (.inr hout)
    · have hout' : ¬ (nHashType &&& 0x1f = 3 ∧ txTo.vout.length ≤ nIn) := hout
      rw [if_neg hout',if_neg hout]
      exact iff_of_false (fun heq => hhash _ heq.symm) (not_or.mpr ⟨hin,hout⟩)

/-- The two checks of a signature, for a transaction, an input, a script and a hash type,
accept the same signatures of the same keys if and only if there is nothing to sign. -/
theorem checkSig_agree_iff (hhash : ∀ bytes, P.hash bytes ≠ 0) (hsig : Distinguishes S)
    (scriptCode : CScript) (txTo : CTransaction) (nIn : ℕ) (last : UInt8) :
    (∀ (vchSig vchPubKey : List UInt8) (flags : UInt32) (cache : List Consensus.SigData),
      Consensus.Sound S cache →
      checkSig S txTo nIn (vchSig++[last]) vchPubKey scriptCode =
        (Consensus.checkSig S P V ⟨vchSig++[last],vchPubKey,scriptCode,txTo,nIn,0,flags⟩ cache).1) ↔
      NothingToSign txTo nIn last.toNat := by
  have hchecker : ∀ vchSig vchPubKey : List UInt8, checkSig S txTo nIn (vchSig++[last]) vchPubKey scriptCode =
      (S.isValid vchPubKey && S.verify vchPubKey (signatureHash scriptCode txTo nIn last.toNat) vchSig) := by
    intro vchSig vchPubKey
    simp [checkSig]
  have hconsensus : ∀ (vchSig vchPubKey : List UInt8) (flags : UInt32) (cache : List Consensus.SigData),
      Consensus.Sound S cache →
      (Consensus.checkSig S P V ⟨vchSig++[last],vchPubKey,scriptCode,txTo,nIn,0,flags⟩ cache).1 =
        (S.isValid vchPubKey && S.verify vchPubKey (Consensus.signatureHash P scriptCode txTo nIn last.toNat) vchSig) := by
    intro vchSig vchPubKey flags cache hsound
    rw [Consensus.checkSig_fst hsound (show (vchSig++[last]).getLast? = some last by simp) rfl]
    simp
  rw [← signatureHash_eq_iff hhash scriptCode txTo nIn last.toNat]
  constructor
  · intro hagree
    by_contra hne
    obtain ⟨vchPubKey,vchSig,hvalid,hgood,hbad⟩ := hsig _ _ hne
    have h := hagree vchSig vchPubKey 0 [] (fun k hk => by cases hk)
    rw [hchecker,hconsensus _ _ _ _ (fun k hk => by cases hk),hvalid,hgood,hbad] at h
    cases h
  · intro heq vchSig vchPubKey flags cache hsound
    rw [hchecker,hconsensus _ _ _ _ hsound,heq]

namespace Sample

/-- A hash that is never zero. -/
def signParams : Params := { params with hash := fun l => if l.length%2 = 0 then 7 else 11 }

/-- A signature is the hash itself. -/
def signEnv : ScriptEnv :=
  ⟨fun _ _ _ _ => false,fun _ => true,fun _ hash vchSig => vchSig = leBytes 32 hash.toNat⟩

def keepAll : Consensus.Eviction := ⟨50000,id,fun _ => List.Subset.refl _⟩

def signedPay : CTransaction := ⟨1,100,[⟨⟨3,0⟩,[],0xFFFFFFFF⟩],[⟨5,[0x51]⟩],0⟩

theorem signParams_hash (bytes) : signParams.hash bytes ≠ 0 := by
  show (if bytes.length%2 = 0 then (7 : UInt256) else 11) ≠ 0
  split_ifs <;> decide

theorem signEnv_distinguishes : Distinguishes signEnv := by
  intro h1 h2 hne
  refine ⟨[],leBytes 32 h1.toNat,rfl,by simp [signEnv],?_⟩
  simp only [signEnv,decide_eq_false_iff_not]
  intro heq
  exact hne (BitVec.eq_of_toNat_eq (leBytes_inj h1.isLt h2.isLt heq))

end Sample

open Sample

theorem checkSig_agree_iff_payment :
    ¬ (∀ (vchSig vchPubKey : List UInt8) (flags : UInt32) (cache : List Consensus.SigData),
      Consensus.Sound signEnv cache →
      checkSig signEnv signedPay 0 (vchSig++[1]) vchPubKey [0x51] =
        (Consensus.checkSig signEnv signParams keepAll
          ⟨vchSig++[1],vchPubKey,[0x51],signedPay,0,0,flags⟩ cache).1) := by
  rw [checkSig_agree_iff signParams_hash signEnv_distinguishes]
  decide

/-- A signature over the transaction is good by the rules of blocks and refused by the
checker, which takes one over zero. -/
theorem checkSig_disagree :
    let good := leBytes 32 (Consensus.signatureHash signParams [0x51] signedPay 0 1).toNat++[1]
    (Consensus.checkSig signEnv signParams keepAll ⟨good,[2],[0x51],signedPay,0,0,0⟩ []).1 = true ∧
    checkSig signEnv signedPay 0 good [2] [0x51] = false ∧
    checkSig signEnv signedPay 0 (leBytes 32 0++[1]) [2] [0x51] = true := by
  decide +kernel

end DarkSilk
