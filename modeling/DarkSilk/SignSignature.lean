import DarkSilk.TemplateRuns

/-! Signing an input with the keys of a store, and the check of the signed input as blocks and
the memory pool make it. Signing ends with a check by the other interpreter, which does not
look into the script that an output only names by its hash. -/

namespace DarkSilk

open PrefixCode List Option Consensus

namespace Script

section

structure Signing (κ : Type) where
  getPubKey : κ → Valtype
  sign : κ → UInt256 → Option Valtype

/-- A key store: keys, which are valid, and scripts, which fit on the stack, under their ids. -/
structure CKeyStore (P : Params) {κ : Type} (W : Signing κ) where
  getKey : UInt160 → Option κ
  getPubKey : UInt160 → Option Valtype
  getCScript : UInt160 → Option CScript
  getKey_id : ∀ {id key}, getKey id = some key → P.hash160 (W.getPubKey key) = id
  getKey_valid : ∀ {id key}, getKey id = some key → ∀ hash, (W.sign key hash).isSome = true
  getPubKey_eq : ∀ {id key}, getKey id = some key → getPubKey id = some (W.getPubKey key)
  getCScript_id : ∀ {id script}, getCScript id = some script →
    P.hash160 script = id ∧ script.length ≤ MAX_SCRIPT_ELEMENT_SIZE

def getID (P : Params) (vch : Valtype) : UInt160 := P.hash160 (cPubKey vch)

variable {κ : Type} (E : EvalEnv) (S : ScriptEnv) (P : Params) {W : Signing κ} (K : CKeyStore P W)

def sign1 (hash : UInt256) (nHashType : ℕ) (address : UInt160) : Option Valtype :=
  (K.getKey address).bind fun key => (W.sign key hash).map fun vchSig => vchSig++[UInt8.ofNat nHashType]

/-- Sign with the keys in their order, until there are enough signatures. -/
def signLoop (hash : UInt256) (nHashType nRequired : ℕ) : List Valtype → ℕ → CScript → ℕ × CScript
  | [], nSigned, scriptSig => (nSigned,scriptSig)
  | pubkey::keys, nSigned, scriptSig =>
    if nSigned < nRequired then
      match sign1 P K hash nHashType (getID P pubkey) with
      | none => signLoop hash nHashType nRequired keys nSigned scriptSig
      | some vchSig => signLoop hash nHashType nRequired keys (nSigned+1) (scriptSig++pushVector vchSig)
    else (nSigned,scriptSig)

def nRequired (multisigdata : List Valtype) : ℕ :=
  ((multisigdata.head?.bind List.head?).getD 0).toNat
def multiSigKeys (multisigdata : List Valtype) : List Valtype := multisigdata.tail.dropLast

def signN (hash : UInt256) (nHashType : ℕ) (multisigdata : List Valtype) (scriptSig : CScript) :
    Bool × CScript :=
  let r := signLoop P K hash nHashType (nRequired multisigdata) (multiSigKeys multisigdata) 0 scriptSig
  (r.1 = nRequired multisigdata,r.2)

structure Solved where
  ok : Bool
  whichType : Option TxNOutType
  scriptSig : CScript

def keySolver (scriptPubKey : CScript) (hash : UInt256) (nHashType : ℕ) : Solved :=
  match solver scriptPubKey with
  | none => ⟨false,none,[]⟩
  | some (.TX_NULL_DATA,_) => ⟨false,some .TX_NULL_DATA,[]⟩
  | some (.TX_PUBKEY,vSolutions) =>
    match sign1 P K hash nHashType (getID P (vSolutions.headD [])) with
    | none => ⟨false,some .TX_PUBKEY,[]⟩
    | some vchSig => ⟨true,some .TX_PUBKEY,pushVector vchSig⟩
  | some (.TX_PUBKEYHASH,vSolutions) =>
    let keyID := BitVec.ofNat 160 (leValue (vSolutions.headD []))
    match sign1 P K hash nHashType keyID with
    | none => ⟨false,some .TX_PUBKEYHASH,[]⟩
    | some vchSig => ⟨true,some .TX_PUBKEYHASH,pushVector vchSig++pushVector ((K.getPubKey keyID).getD [])⟩
  | some (.TX_SCRIPTHASH,vSolutions) =>
    match K.getCScript (BitVec.ofNat 160 (leValue (vSolutions.headD []))) with
    | none => ⟨false,some .TX_SCRIPTHASH,[]⟩
    | some script => ⟨true,some .TX_SCRIPTHASH,script⟩
  | some (.TX_MULTISIG,vSolutions) =>
    let r := signN P K hash nHashType vSolutions [0]
    ⟨r.1,some .TX_MULTISIG,r.2⟩

def setScriptSig (txTo : CTransaction) (nIn : ℕ) (scriptSig : CScript) : CTransaction :=
  { txTo with vin := txTo.vin.modify nIn fun txin => { txin with scriptSig := scriptSig } }

/-- The checker of SignSignature; it hashes as blocks do. -/
def signatureChecker (txTo : CTransaction) (nIn : ℕ) (vchSigIn vchPubKey : Valtype)
    (scriptCode : CScript) : Bool :=
  match vchSigIn.getLast? with
  | none => false
  | some nHashType => S.isValid vchPubKey &&
      S.verify vchPubKey (Consensus.signatureHash P scriptCode txTo nIn nHashType.toNat) vchSigIn.dropLast

/-- The test at the end of SignSignature, on the transaction with the new script. -/
def testSolution (fromPubKey : CScript) (txTo : CTransaction) (nIn : ℕ) (scriptSig : CScript) :
    Bool :=
  (CScriptNum.verifyScript E P scriptSig fromPubKey Flags.STANDARD (signatureChecker S P txTo nIn)).isOk

/-- SignSignature for an output script: the result, and the script that the input has then. -/
def signScript (fromPubKey : CScript) (txTo : CTransaction) (nIn nHashType : ℕ) : Bool × CScript :=
  let s := keySolver P K fromPubKey (Consensus.signatureHash P fromPubKey txTo nIn nHashType) nHashType
  if !s.ok then (false,s.scriptSig)
  else if s.whichType = some .TX_SCRIPTHASH then
    let subscript := s.scriptSig
    let hash2 := Consensus.signatureHash P subscript (setScriptSig txTo nIn subscript) nIn nHashType
    let s₂ := keySolver P K subscript hash2 nHashType
    let scriptSig := s₂.scriptSig++pushVector subscript
    if !(s₂.ok && s₂.whichType ≠ some .TX_SCRIPTHASH) then (false,scriptSig)
    else (testSolution E S P fromPubKey (setScriptSig txTo nIn scriptSig) nIn scriptSig,scriptSig)
  else (testSolution E S P fromPubKey (setScriptSig txTo nIn s.scriptSig) nIn s.scriptSig,s.scriptSig)

/-- SignSignature for a previous transaction. Its assertions are the missing cases. -/
def signSignature (txFrom txTo : CTransaction) (nIn nHashType : ℕ) : Option (Bool × CScript) := do
  let txin ← txTo.vin[nIn]?
  let txout ← txFrom.vout[txin.prevout.n.toNat]?
  return signScript E S P K txout.scriptPubKey txTo nIn nHashType

/-- The check of a signature that blocks use, with the signatures that are remembered at the
time. -/
def cachedCheckSig (V : Eviction) (cache : List SigData) (txTo : CTransaction) (nIn : ℕ)
    (flags : UInt32) (nHashType : ℕ) (vchSig vchPubKey : Valtype) (scriptCode : CScript) : Bool :=
  (Consensus.checkSig S P V ⟨vchSig,vchPubKey,scriptCode,txTo,nIn,nHashType,flags⟩ cache).1

def verifySignature (V : Eviction) (cache : List SigData) (txFrom txTo : CTransaction) (nIn : ℕ)
    (flags : UInt32) (nHashType : ℕ) : Bool :=
  match txTo.vin[nIn]? with
  | none => false
  | some txin => match txFrom.vout[txin.prevout.n.toNat]? with
    | none => false
    | some txout =>
      if txin.prevout.hash ≠ txFrom.getHash P then false
      else CBigNum.verifyScript E P (cachedCheckSig S P V cache txTo nIn flags nHashType)
        txin.scriptSig txout.scriptPubKey txTo nIn flags

end

section

variable {E : EvalEnv} {S : ScriptEnv} {P : Params} {V : Eviction} {cache : List SigData}
  {txTo : CTransaction} {nIn : ℕ}

theorem signatureHash_setScriptSig (scriptCode scriptSig txTo nIn nHashType) :
    Consensus.signatureHash P scriptCode (setScriptSig txTo nIn scriptSig) nIn nHashType =
      Consensus.signatureHash P scriptCode txTo nIn nHashType := by
  have hmap : ∀ f : CTxIn → CTxIn, ∀ g : ℕ → CTxIn → CTxIn, (∀ txin, g nIn (f txin) = g nIn txin) →
      (txTo.vin.modify nIn f).mapIdx g = txTo.vin.mapIdx g := by
    intro f g hfg
    apply ext_getElem?
    intro i
    rw [getElem?_mapIdx,getElem?_mapIdx,getElem?_modify]
    by_cases hi : nIn = i
    · subst hi
      cases txTo.vin[nIn]? <;> simp [hfg]
    · cases txTo.vin[i]? <;> simp [hi]
  have hvin : signedVin scriptCode (setScriptSig txTo nIn scriptSig) nIn nHashType =
      signedVin scriptCode txTo nIn nHashType := by
    unfold signedVin setScriptSig
    dsimp only
    rw [hmap _ _ fun txin => by simp]
  have hlen : (setScriptSig txTo nIn scriptSig).vin.length = txTo.vin.length := by simp [setScriptSig]
  unfold Consensus.signatureHash Consensus.signedTx
  rw [hvin,hlen]
  rfl

theorem checkSig_eq_signatureChecker (hcache : Consensus.Sound S cache) {vchSig}
    (hsig : vchSig ≠ []) (vchPubKey scriptCode flags) :
    cachedCheckSig S P V cache txTo nIn flags 0 vchSig vchPubKey scriptCode =
      signatureChecker S P txTo nIn vchSig vchPubKey scriptCode := by
  unfold cachedCheckSig
  cases hlast : vchSig.getLast? with
  | none => exact absurd (getLast?_eq_none_iff.mp hlast) hsig
  | some last =>
    rw [checkSig_fst hcache hlast rfl,signatureChecker,hlast]

open CScriptNum

theorem testSolution_iff {fromPubKey scriptSig} :
    testSolution E S P fromPubKey txTo nIn scriptSig ↔ ∃ stackCopy stack,
      evalScript E P [] scriptSig Flags.STANDARD (signatureChecker S P txTo nIn) = .ok stackCopy ∧
      evalScript E P stackCopy fromPubKey Flags.STANDARD
        (signatureChecker S P txTo nIn) = .ok stack ∧ topTrue stack := by
  have hpush : Flags.STANDARD &&& Flags.SIGPUSHONLY = 0 := by decide
  have hhash : Flags.STANDARD &&& Flags.P2SH = 0 := by decide
  simp only [testSolution,verifyScript,hpush,hhash]
  constructor
  · intro h
    cases hfirst : evalScript E P [] scriptSig Flags.STANDARD (signatureChecker S P txTo nIn) with
    | error err => simp [hfirst,bind,Except.bind,Except.isOk,Except.toBool] at h
    | ok stackCopy =>
      cases hsecond : evalScript E P stackCopy fromPubKey Flags.STANDARD (signatureChecker S P txTo nIn) with
      | error err => simp [hfirst,hsecond,bind,Except.bind,Except.isOk,Except.toBool] at h
      | ok stack =>
        refine ⟨stackCopy,stack,rfl,hsecond,?_⟩
        cases htop : topTrue stack with
        | true => rfl
        | false => simp [hfirst,hsecond,requireTrue,htop,bind,Except.bind,Except.isOk,Except.toBool] at h
  · rintro ⟨stackCopy,stack,hfirst,hsecond,htop⟩
    simp [hfirst,hsecond,requireTrue,htop,bind,Except.bind,Except.isOk,Except.toBool]

open CBigNum

/-- A script that passes the test at the end of signing passes the two runs of VerifySignature;
only the run of the script behind a hash is left. -/
theorem verifyScript_of_test (hcache : Consensus.Sound S cache) {fromPubKey scriptSig stackCopy}
    (htest : testSolution E S P fromPubKey txTo nIn scriptSig)
    (hfirst : evalScript E P [] scriptSig Flags.STANDARD (signatureChecker S P txTo nIn) =
      .ok stackCopy) (flags) :
    verifyScript E P (cachedCheckSig S P V cache txTo nIn flags 0) scriptSig fromPubKey txTo nIn
      flags =
      (!isPayToScriptHash fromPubKey || (isPushOnly scriptSig && runTop (fun stack script =>
        evalScript E P (cachedCheckSig S P V cache txTo nIn flags 0) stack script txTo nIn flags)
          stackCopy)) := by
  obtain ⟨stackCopy',stack,hfirst',hsecond,htop⟩ := testSolution_iff.mp htest
  obtain rfl : stackCopy' = stackCopy := Except.ok.inj (hfirst'.symm.trans hfirst)
  have hallows : Allows (rules E (signatureChecker S P txTo nIn) Flags.STANDARD) Flags.STANDARD
      (rules E (cachedCheckSig S P V cache txTo nIn flags 0) txTo nIn flags) flags :=
    allows_rules (fun vchSig vchPubKey scriptCode hsig =>
      checkSig_eq_signatureChecker hcache hsig vchPubKey scriptCode flags) txTo nIn flags
  have heval₁ : evalScript E P (cachedCheckSig S P V cache txTo nIn flags 0) [] scriptSig txTo nIn flags =
      some stackCopy' := by
    rw [CBigNum.evalScript,hallows.evalWith hfirst]
    rfl
  have heval₂ : evalScript E P (cachedCheckSig S P V cache txTo nIn flags 0) stackCopy' fromPubKey
      txTo nIn flags =
      some stack := by
    rw [CBigNum.evalScript,hallows.evalWith hsecond]
    rfl
  simp only [CBigNum.verifyScript,heval₁,heval₂,any_some,htop,Bool.true_and]

end

section

/-- Walk over the keys from the last one to the first, with the signers from the last to the
first: every key on the way is well formed, until all signers are met. -/
def allPlaced : List Valtype → List Valtype → Bool
  | _, [] => true
  | [], _::_ => false
  | vchPubKey::keys, signer::signers =>
    isCompressedOrUncompressedPubKey vchPubKey && allPlaced keys (if vchPubKey = signer then signers else signer::signers)

variable {keys signers : List Valtype}

theorem length_le_of_allPlaced (h : allPlaced keys signers) : signers.length ≤ keys.length := by
  induction keys generalizing signers with
  | nil =>
    cases signers with
    | nil => exact le_rfl
    | cons signer signers => cases h
  | cons vchPubKey keys ih =>
    cases signers with
    | nil => exact Nat.zero_le _
    | cons signer signers =>
      simp only [allPlaced,Bool.and_eq_true] at h
      have hrest := ih h.2
      split_ifs at hrest
      · simpa using hrest
      · exact le_trans hrest (Nat.le_succ _)

variable {R : Rules} {scriptCode : CScript} {f : Valtype → Valtype} {Q : Valtype → Prop}

/-- Signatures of all signers, or of the first ones of them if the last are placed already, find
their keys. A signature may also be good for a key before its own; that only helps. -/
theorem checkSigs_of_allPlaced
    (hgood : ∀ signer, Q signer → ∀ vchPubKey, isCompressedOrUncompressedPubKey vchPubKey →
      ∃ fOk, R.checkSig (f signer) vchPubKey scriptCode = .ok fOk ∧
      (vchPubKey = signer → fOk)) {sigs}
    (hsigners : ∀ signer ∈ signers, Q signer) (h : allPlaced keys signers)
    (hsigs : sigs <:+ signers.map f) : checkSigs R scriptCode keys sigs = .ok true := by
  induction keys generalizing signers sigs with
  | nil =>
    cases signers with
    | nil =>
      rw [map_nil,suffix_nil] at hsigs
      rw [hsigs]
      rfl
    | cons signer signers => cases h
  | cons vchPubKey keys ih =>
    cases sigs with
    | nil => rfl
    | cons vchSig sigs =>
      cases signers with
      | nil => cases suffix_nil.mp hsigs
      | cons signer signers =>
        simp only [allPlaced,Bool.and_eq_true] at h
        obtain ⟨hkey,hrest⟩ := h
        have hnext : ∀ s ∈ (if vchPubKey = signer then signers else signer::signers), Q s := by
          intro s hs
          split_ifs at hs
          · exact hsigners s (mem_cons_of_mem _ hs)
          · exact hsigners s hs
        have hlen := length_le_of_allPlaced hrest
        -- the signature is checked, and what is left still belongs to the signers that are left
        have hcheck : ∃ fOk, R.checkSig vchSig vchPubKey scriptCode = .ok fOk ∧
            (if fOk then sigs else vchSig::sigs) <:+
              (if vchPubKey = signer then signers else signer::signers).map f := by
          rcases suffix_cons_iff.mp hsigs with hall | hlast
          · cases hall
            obtain ⟨fOk,hok,hown⟩ := hgood signer (hsigners signer mem_cons_self) vchPubKey hkey
            refine ⟨fOk,hok,?_⟩
            by_cases heq : vchPubKey = signer
            · rw [if_pos heq,if_pos (hown heq)]
            · rw [if_neg heq]
              split_ifs
              · exact suffix_cons _ _
              · exact suffix_refl _
          · obtain ⟨s,hs,rfl⟩ := mem_map.mp (hlast.subset mem_cons_self)
            obtain ⟨fOk,hok,-⟩ := hgood s (hsigners s (mem_cons_of_mem _ hs)) vchPubKey hkey
            refine ⟨fOk,hok,List.IsSuffix.trans ?_ (List.IsSuffix.trans hlast ?_)⟩
            · split_ifs
              · exact suffix_cons _ _
              · exact suffix_refl _
            · split_ifs
              · exact suffix_refl _
              · exact suffix_cons _ _
        obtain ⟨fOk,hok,hsuffix⟩ := hcheck
        have hcount := hsuffix.length_le
        rw [length_map] at hcount
        rw [checkSigs,hok]
        show (if keys.length < (if fOk then sigs else vchSig::sigs).length then _ else _) = _
        rw [if_neg (by omega)]
        exact ih hnext hrest hsuffix

/-- Where a signature is good for its own key only, it finds no other, and the walk of the
check is the one over the keys. -/
theorem allPlaced_of_checkSigs
    (hown : ∀ signer, Q signer → ∀ vchPubKey fOk, R.checkSig (f signer) vchPubKey scriptCode =
      .ok fOk →
      isCompressedOrUncompressedPubKey vchPubKey ∧ (fOk ↔ vchPubKey = signer))
    (hsigners : ∀ signer ∈ signers, Q signer)
    (h : checkSigs R scriptCode keys (signers.map f) = .ok true) : allPlaced keys signers := by
  induction keys generalizing signers with
  | nil =>
    cases signers with
    | nil => rfl
    | cons signer signers => cases h
  | cons vchPubKey keys ih =>
    cases signers with
    | nil => rfl
    | cons signer signers =>
      rw [map_cons,checkSigs] at h
      obtain ⟨fOk,hok,h⟩ := bind_eq_ok.mp h
      obtain ⟨hkey,hiff⟩ := hown signer (hsigners signer mem_cons_self) vchPubKey fOk hok
      dsimp only at h
      split_ifs at h with hfOk hlen hlen
      · cases h
      · rw [allPlaced,hkey,if_pos (hiff.mp hfOk)]
        exact ih (fun s hs => hsigners s (mem_cons_of_mem _ hs)) h
      · cases h
      · rw [allPlaced,hkey,if_neg (fun heq => hfOk (hiff.mpr heq))]
        exact ih hsigners h

end

section

variable {κ : Type} {P : Params} {W : Signing κ} (K : CKeyStore P W)

def held (vchPubKey : Valtype) : Bool := (K.getKey (getID P vchPubKey)).isSome

/-- The keys that sign for a multi-signature script: the first ones in the store, as many as are
needed. -/
def signers (multisigdata : List Valtype) : List Valtype :=
  ((multiSigKeys multisigdata).filter (held K)).take (nRequired multisigdata)

def signatureOf (hash : UInt256) (nHashType : ℕ) (vchPubKey : Valtype) : Valtype :=
  (sign1 P K hash nHashType (getID P vchPubKey)).getD []

variable {K} {hash : UInt256} {nHashType : ℕ}

theorem sign1_eq_none {vchPubKey} (h : held K vchPubKey = false) :
    sign1 P K hash nHashType (getID P vchPubKey) = none := by
  rw [held,isSome_eq_false_iff,isNone_iff_eq_none] at h
  rw [sign1,h]
  rfl

theorem sign1_eq_some (hash nHashType) {vchPubKey} (h : held K vchPubKey) :
    ∃ key vchSig, K.getKey (getID P vchPubKey) = some key ∧ W.sign key hash = some vchSig ∧
      sign1 P K hash nHashType (getID P vchPubKey) = some (vchSig++[UInt8.ofNat nHashType]) := by
  obtain ⟨key,hkey⟩ := isSome_iff_exists.mp h
  obtain ⟨vchSig,hsign⟩ := isSome_iff_exists.mp (K.getKey_valid hkey hash)
  exact ⟨key,vchSig,hkey,hsign,by rw [sign1,hkey,bind_some,hsign]; rfl⟩

theorem sign1_inv {address vch} (h : sign1 P K hash nHashType address = some vch) :
    ∃ key vchSig, K.getKey address = some key ∧ W.sign key hash = some vchSig ∧
      vch = vchSig++[UInt8.ofNat nHashType] := by
  obtain ⟨key,hkey,h⟩ := bind_eq_some_iff.mp h
  obtain ⟨vchSig,hsign,hvch⟩ := map_eq_some_iff.mp h
  exact ⟨key,vchSig,hkey,hsign,hvch.symm⟩

theorem signLoop_eq (n keys nSigned scriptSig) :
    signLoop P K hash nHashType n keys nSigned scriptSig =
      (nSigned+((keys.filter (held K)).take (n-nSigned)).length,
        scriptSig++(((keys.filter (held K)).take (n-nSigned)).map
          (signatureOf K hash nHashType)).flatMap pushVector) := by
  induction keys generalizing nSigned scriptSig with
  | nil => simp [signLoop]
  | cons vchPubKey keys ih =>
    rw [signLoop]
    by_cases hmore : nSigned < n
    · rw [if_pos hmore]
      cases hheld : held K vchPubKey with
      | false =>
        rw [sign1_eq_none hheld]
        rw [ih,filter_cons_of_neg (by simp [hheld])]
      | true =>
        obtain ⟨key,vchSig,-,-,hsign⟩ := sign1_eq_some hash nHashType hheld
        have hsucc : n-nSigned = n-(nSigned+1)+1 := by omega
        have hof : signatureOf K hash nHashType vchPubKey =
            vchSig++[UInt8.ofNat nHashType] := by rw [signatureOf,hsign]; rfl
        rw [hsign]
        dsimp only
        rw [ih,filter_cons_of_pos hheld,hsucc,take_succ_cons]
        simp only [length_cons,map_cons,flatMap_cons,hof,append_assoc,Prod.mk.injEq,and_true]
        omega
    · have hzero : n-nSigned = 0 := by omega
      rw [if_neg hmore,hzero]
      simp

theorem signN_eq (multisigdata scriptSig) : signN P K hash nHashType multisigdata scriptSig =
      (decide ((signers K multisigdata).length = nRequired multisigdata),
        scriptSig++((signers K multisigdata).map (signatureOf K hash nHashType)).flatMap
          pushVector) := by
  unfold signN signers
  rw [signLoop_eq]
  simp

variable (K hash nHashType) (script : CScript)

inductive SignedBy : List Valtype → Prop
  | pubKey {v vchSig : Valtype} {key : κ} (hsolver : solver script = some (.TX_PUBKEY,[v]))
      (hkey : K.getKey (getID P v) = some key) (hsign : W.sign key hash = some vchSig) :
      SignedBy [vchSig++[UInt8.ofNat nHashType]]
  | pubKeyHash {v vchSig : Valtype} {key : κ} (hsolver : solver script = some (.TX_PUBKEYHASH,[v]))
      (hkey : K.getKey (BitVec.ofNat 160 (leValue v)) = some key) (hsign : W.sign key hash = some vchSig) :
      SignedBy [vchSig++[UInt8.ofNat nHashType],W.getPubKey key]
  | multiSig {sols : List Valtype} (hsolver : solver script = some (.TX_MULTISIG,sols))
      (hcount : (signers K sols).length = nRequired sols) :
      SignedBy ([]::(signers K sols).map (signatureOf K hash nHashType))

variable {K hash nHashType script}

theorem signedBy_of_keySolver (hok : (keySolver P K script hash nHashType).ok)
    (htype : (keySolver P K script hash nHashType).whichType ≠ some .TX_SCRIPTHASH) :
    ∃ args, SignedBy K hash nHashType script args ∧
      (keySolver P K script hash nHashType).scriptSig = args.flatMap pushVector := by
  unfold keySolver at hok htype ⊢
  rcases hsolver : solver script with _ | ⟨type,sols⟩
  · rw [hsolver] at hok
    cases hok
  · rw [hsolver] at hok htype
    cases type with
    | TX_NULL_DATA => cases hok
    | TX_SCRIPTHASH =>
      dsimp only at htype
      split at htype <;> exact absurd rfl htype
    | TX_PUBKEY =>
      obtain ⟨r,c,rfl,-⟩ := solver_pubKey hsolver
      dsimp only [headD_cons] at hok ⊢
      cases hsign : sign1 P K hash nHashType (getID P r.data) with
      | none =>
        rw [hsign] at hok
        cases hok
      | some vch =>
        obtain ⟨key,vchSig,hkey,hsig,rfl⟩ := sign1_inv hsign
        exact ⟨_,.pubKey hsolver hkey hsig,by simp⟩
    | TX_PUBKEYHASH =>
      obtain ⟨d,k,r,e,c,rfl,-⟩ := solver_pubKeyHash hsolver
      dsimp only [headD_cons] at hok ⊢
      cases hsign : sign1 P K hash nHashType (BitVec.ofNat 160 (leValue r.data)) with
      | none =>
        rw [hsign] at hok
        cases hok
      | some vch =>
        obtain ⟨key,vchSig,hkey,hsig,rfl⟩ := sign1_inv hsign
        exact ⟨_,.pubKeyHash hsolver hkey hsig,by simp [K.getPubKey_eq hkey]⟩
    | TX_MULTISIG =>
      dsimp only at hok ⊢
      rw [signN_eq] at hok ⊢
      exact ⟨_,.multiSig hsolver (by simpa using hok),rfl⟩

theorem SignedBy.keySolver {args} (h : SignedBy K hash nHashType script args) :
    ∃ type, type ≠ TxNOutType.TX_SCRIPTHASH ∧
      Script.keySolver P K script hash nHashType = ⟨true,some type,args.flatMap pushVector⟩ := by
  cases h with
  | pubKey hsolver hkey hsign =>
    refine ⟨.TX_PUBKEY,by decide,?_⟩
    simp [Script.keySolver,hsolver,sign1,hkey,hsign]
  | pubKeyHash hsolver hkey hsign =>
    refine ⟨.TX_PUBKEYHASH,by decide,?_⟩
    simp [Script.keySolver,hsolver,sign1,hkey,hsign,K.getPubKey_eq hkey]
  | multiSig hsolver hcount =>
    refine ⟨.TX_MULTISIG,by decide,?_⟩
    rw [Script.keySolver,hsolver]
    dsimp only
    rw [signN_eq,hcount,decide_eq_true rfl]
    rfl

end

section

variable {κ : Type} {E : EvalEnv} {S : ScriptEnv} {P : Params} {W : Signing κ} {K : CKeyStore P W}
  {V : Eviction} {cache : List SigData} {txTo : CTransaction} {nIn nHashType : ℕ} {flags : UInt32}
  {script : CScript}

/-- Public keys are well formed, and signatures made with a key are canonical and verify under
its public key. -/
structure Ecdsa (E : EvalEnv) (S : ScriptEnv) (W : Signing κ) : Prop where
  encoded : ∀ key, isCompressedOrUncompressedPubKey (W.getPubKey key) = true
  valid : ∀ key, S.isValid (W.getPubKey key) = true
  canonical : ∀ {key hash vchSig}, W.sign key hash = some vchSig → ∀ nHashType, isDERSignature (vchSig++[nHashType]) = true
  low : ∀ {key hash vchSig}, W.sign key hash = some vchSig → E.checkLowS vchSig = true
  verifies : ∀ {key hash vchSig}, W.sign key hash = some vchSig → S.verify (W.getPubKey key) hash vchSig = true

/-- A signature verifies under no other public key. -/
def OwnKeyOnly (S : ScriptEnv) (W : Signing κ) : Prop :=
  ∀ {key hash vchSig vchPubKey}, W.sign key hash = some vchSig → S.verify vchPubKey hash vchSig = true →
    vchPubKey = W.getPubKey key

def keysOf (script : CScript) : List Valtype :=
  match solver script with
  | some (.TX_PUBKEY,sols) => sols
  | some (.TX_MULTISIG,sols) => multiSigKeys sols
  | _ => []

/-- No key of the store has the id of another key of the script. -/
def NoCollision (K : CKeyStore P W) (script : CScript) : Prop :=
  ∀ v ∈ keysOf script, ∀ key, K.getKey (getID P v) = some key → W.getPubKey key = v

/-- There is no way for a signature to sign itself: none of the script is deleted from it. -/
def NoSelfSigned (W : Signing κ) (script : CScript) (hash : UInt256) (nHashType : ℕ) : Prop :=
  ∀ {key vchSig}, W.sign key hash = some vchSig →
    Consensus.findAndDelete (pushVector (vchSig++[UInt8.ofNat nHashType])) script = script

/-- The signers of a multi-signature script, if there are enough, are met before a malformed key. -/
def placed (K : CKeyStore P W) (script : CScript) : Bool :=
  match solver script with
  | some (.TX_MULTISIG,sols) =>
    decide ((signers K sols).length < nRequired sols) ||
      allPlaced (multiSigKeys sols).reverse (signers K sols).reverse
  | _ => true

variable {vchSig : Valtype} {key : κ} {hash : UInt256} {sols : List Valtype}

theorem length_le_of_der (h : isDERSignature vchSig) : vchSig.length ≤ 73 := by
  simp only [isDERSignature,Bool.and_eq_true,decide_eq_true_eq] at h
  exact h.1.1.1.1.1.1.2

theorem length_of_encoded {vchPubKey} (h : isCompressedOrUncompressedPubKey vchPubKey) :
    vchPubKey.length ≤ 65 := by
  unfold isCompressedOrUncompressedPubKey at h
  split at h <;> simp at h <;> omega

theorem rules_number (checkSig) (n : ℕ) (hpos : 1 ≤ n) (hle : n ≤ 16) :
    (CBigNum.rules E checkSig txTo nIn flags).getint
      ((CBigNum.rules E checkSig txTo nIn flags).pushNumber (Int64.ofInt n)) = .ok n := by
  have hint : (Int64.ofInt n).toInt = n := Int64.toInt_ofInt_of_le (by omega) (by omega)
  have hlen : ¬ 4 < (getvch n).length := by interval_cases n <;> decide
  show (CBigNum.castToBigNum 4 (getvch (Int64.ofInt n).toInt) >>= fun bn =>
    .ok (CBigNum.getint bn)) = .ok (n : ℤ)
  rw [hint,CBigNum.castToBigNum,if_neg hlen,setvch_getvch,setvch_getvch]
  exact congrArg Except.ok (getint_eq ⟨by omega,by omega⟩)

theorem multiSig_shape (h : solver script = some (.TX_MULTISIG,sols)) :
    ∃ (a b c : ReadOp) (keys : List ReadOp), multiSigKeys sols = keys.map ReadOp.data ∧
      1 ≤ nRequired sols ∧
      nRequired sols ≤ keys.length ∧ keys.length ≤ 16 ∧ Decodes script (a::(keys++[b,c])) ∧
      IsPlain a (OP_1-1+nRequired sols) ∧ (∀ r ∈ keys, IsPush r) ∧ IsPlain b (OP_1-1+keys.length) ∧
      IsPlain c OP_CHECKMULTISIG := by
  obtain ⟨m,a,b,c,keys,hsols,hm,hle,hmax,hscript⟩ := solver_multiSig h
  have hrequired : nRequired sols = m := by
    simp [nRequired,hsols]
    omega
  have hkeys : multiSigKeys sols = keys.map ReadOp.data := by simp [multiSigKeys,hsols]
  subst hrequired
  exact ⟨a,b,c,keys,hkeys,hm,hle,hmax,hscript⟩

theorem keysOf_multiSig (h : solver script = some (.TX_MULTISIG,sols)) :
    keysOf script = multiSigKeys sols := by
  rw [keysOf,h]

theorem signer_cases (hid : NoCollision K script)
    (hsolver : solver script = some (.TX_MULTISIG,sols)) {signer} (h : signer ∈ signers K sols) :
    ∃ key vchSig, W.getPubKey key = signer ∧ W.sign key hash = some vchSig ∧
      signatureOf K hash nHashType signer = vchSig++[UInt8.ofNat nHashType] := by
  obtain ⟨hmem,hheld⟩ := mem_filter.mp (mem_of_mem_take h)
  obtain ⟨key,vchSig,hkey,hsign,hsign1⟩ := sign1_eq_some hash nHashType hheld
  refine ⟨key,vchSig,hid signer ?_ key hkey,hsign,?_⟩
  · rw [keysOf_multiSig hsolver]
    exact hmem
  · rw [signatureOf,hsign1]
    rfl

theorem deleteSigs_eq {sigs}
    (h : ∀ vchSig ∈ sigs, Consensus.findAndDelete (pushVector vchSig) script = script) :
    deleteSigs sigs script = script := by
  induction sigs with
  | nil => rfl
  | cons vchSig sigs ih =>
    show deleteSigs sigs (Consensus.findAndDelete (pushVector vchSig) script) = script
    rw [h vchSig mem_cons_self]
    exact ih fun s hs => h s (mem_cons_of_mem _ hs)

/-- A signed multi-signature script runs to the check of its signatures against the script
itself. -/
theorem evalWith_signed_multiSig (hid : NoCollision K script)
    (hself : NoSelfSigned W script hash nHashType)
    (hsize : script.length ≤ 10000) (hsolver : solver script = some (.TX_MULTISIG,sols))
    (hcount : (signers K sols).length = nRequired sols)
    (checkSig : Valtype → Valtype → CScript → Bool) :
    evalWith E P (CBigNum.rules E checkSig txTo nIn flags) flags
        (([]::(signers K sols).map (signatureOf K hash nHashType)).reverse) script =
      checkSigs (CBigNum.rules E checkSig txTo nIn flags) script (multiSigKeys sols).reverse
          ((signers K sols).reverse.map (signatureOf K hash nHashType)) >>=
        fun fSuccess => .ok [if fSuccess then vchTrue else vchFalse] := by
  obtain ⟨a,b,c,keys,hdata,hm,hle,hmax,hscript,ha,hkeys,hb,hc⟩ := multiSig_shape hsolver
  have hdelete : deleteSigs ((signers K sols).reverse.map (signatureOf K hash nHashType)) script = script := by
    apply deleteSigs_eq
    intro vch hvch
    obtain ⟨signer,hsigner,rfl⟩ := mem_map.mp hvch
    obtain ⟨key,vchSig,-,hsign,hof⟩ := signer_cases hid hsolver (mem_reverse.mp hsigner)
    rw [hof]
    exact hself hsign
  have hlen : ((signers K sols).reverse.map (signatureOf K hash nHashType)).length = nRequired sols := by
    rw [length_map,length_reverse,hcount]
  rw [reverse_cons,← map_reverse,
    evalWith_multiSig hscript ha hkeys hb hc hm hle hmax (fun _ _ => rfl) (rules_number checkSig) hsize hlen,hdelete,hdata]

theorem SignedBy.size (hecdsa : Ecdsa E S W) (hid : NoCollision K script) {args}
    (h : SignedBy K hash nHashType script args) :
    args.length ≤ 17 ∧ ∀ arg ∈ args, arg.length ≤ MAX_SCRIPT_ELEMENT_SIZE := by
  have hsig : ∀ {key vchSig}, W.sign key hash = some vchSig →
      (vchSig++[UInt8.ofNat nHashType]).length ≤ MAX_SCRIPT_ELEMENT_SIZE := fun hsign =>
    le_trans (length_le_of_der (hecdsa.canonical hsign _)) (by decide)
  cases h with
  | pubKey hsolver hkey hsign =>
    refine ⟨by simp,?_⟩
    intro arg harg
    rw [mem_singleton.mp harg]
    exact hsig hsign
  | @pubKeyHash v vchSig key hsolver hkey hsign =>
    refine ⟨by simp,?_⟩
    intro arg harg
    rcases mem_pair.mp harg with rfl | rfl
    · exact hsig hsign
    · exact le_trans (length_of_encoded (hecdsa.encoded key)) (by decide)
  | multiSig hsolver hcount =>
    obtain ⟨a,b,c,keys,-,-,hle,hmax,-⟩ := multiSig_shape hsolver
    refine ⟨by simp; omega,?_⟩
    intro arg harg
    rcases mem_cons.mp harg with rfl | harg
    · exact Nat.zero_le _
    · obtain ⟨signer,hsigner,rfl⟩ := mem_map.mp harg
      obtain ⟨key,vchSig,-,hsign,hof⟩ := signer_cases hid hsolver hsigner
      rw [hof]
      exact hsig hsign

theorem any_topTrue_of_ok {x : Except ScriptError (List Valtype)} (h : x = .ok [vchTrue]) :
    x.toOption.any topTrue := by
  rw [h]
  rfl

theorem any_topTrue_bind_iff {x} :
    (x >>= fun fSuccess => .ok [if fSuccess then vchTrue else vchFalse] : Except ScriptError
      (List Valtype)).toOption.any
      topTrue ↔ x = .ok true := by
  rcases x with err | _ | _
  · exact iff_of_false (by simp [bind,Except.bind,Except.toOption]) (by simp)
  · exact iff_of_false (by decide) (by simp)
  · exact iff_of_true (by decide) rfl

variable {args : List Valtype}

theorem leBytes_id {v} (h : v.length = 20) :
    leBytes 20 (BitVec.ofNat 160 (leValue v)).toNat = v := by
  have hvalue := leValue_lt v
  have hbytes := leBytes_leValue v
  rw [h] at hvalue hbytes
  rw [BitVec.toNat_ofNat,Nat.mod_eq_of_lt (lt_of_lt_of_le hvalue (by norm_num))]
  exact hbytes

section

variable (hecdsa : Ecdsa E S W) (hcache : Consensus.Sound S cache) (hstrict : flags &&& Flags.STRICTENC ≠ 0)

include hecdsa hcache hstrict

theorem rules_checkSig (hsign : W.sign key hash = some vchSig) (last vchPubKey scriptCode) :
    (CBigNum.rules E (cachedCheckSig S P V cache txTo nIn flags 0) txTo nIn flags).checkSig
      (vchSig++[last]) vchPubKey
        scriptCode =
      if isCompressedOrUncompressedPubKey vchPubKey then
        .ok (S.isValid vchPubKey &&
          S.verify vchPubKey (Consensus.signatureHash P scriptCode txTo nIn last.toNat) vchSig)
      else .error .UNKNOWN_ERROR := by
  have hdefined : isDefinedHashtypeSignature E (vchSig++[last]) := by
    simp [isDefinedHashtypeSignature,hecdsa.low hsign]
  have hencoding : CBigNum.checkSignatureEncoding E flags (vchSig++[last]) :=
    checkSignatureEncoding_of_der (hecdsa.canonical hsign last) hdefined
  have hcheck : cachedCheckSig S P V cache txTo nIn flags 0 (vchSig++[last]) vchPubKey scriptCode =
      (S.isValid vchPubKey && S.verify vchPubKey (Consensus.signatureHash P scriptCode txTo nIn last.toNat) vchSig) := by
    rw [checkSig_eq_signatureChecker hcache (by simp)]
    simp [signatureChecker]
  simp only [CBigNum.rules,hencoding,hcheck]
  cases isCompressedOrUncompressedPubKey vchPubKey <;> simp [hstrict]

variable (htype : nHashType < 256) (hhash : Consensus.signatureHash P script txTo nIn nHashType = hash)

include htype hhash

theorem rules_checkSig_typed (hsign : W.sign key hash = some vchSig) (vchPubKey) :
    (CBigNum.rules E (cachedCheckSig S P V cache txTo nIn flags 0) txTo nIn flags).checkSig
        (vchSig++[UInt8.ofNat nHashType]) vchPubKey script =
      if isCompressedOrUncompressedPubKey vchPubKey then .ok (S.isValid vchPubKey &&
        S.verify vchPubKey hash vchSig)
      else .error .UNKNOWN_ERROR := by
  have hlast : (UInt8.ofNat nHashType).toNat = nHashType := by rw [UInt8.toNat_ofNat',Nat.mod_eq_of_lt htype]
  rw [rules_checkSig hecdsa hcache hstrict hsign,hlast,hhash]

theorem rules_checkSig_own (hsign : W.sign key hash = some vchSig) :
    (CBigNum.rules E (cachedCheckSig S P V cache txTo nIn flags 0) txTo nIn flags).checkSig
      (vchSig++[UInt8.ofNat nHashType]) (W.getPubKey key) script = .ok true := by
  rw [rules_checkSig_typed hecdsa hcache hstrict htype hhash hsign,if_pos (hecdsa.encoded key),hecdsa.valid,
    hecdsa.verifies hsign]
  rfl

variable (hid : NoCollision K script)

include hid

theorem signer_check (hsolver : solver script = some (.TX_MULTISIG,sols)) {signer}
    (h : signer ∈ signers K sols) :
    ∃ key vchSig, W.getPubKey key = signer ∧ W.sign key hash = some vchSig ∧
      ∀ vchPubKey, (CBigNum.rules E (cachedCheckSig S P V cache txTo nIn flags 0) txTo nIn
        flags).checkSig
          (signatureOf K hash nHashType signer) vchPubKey script =
        if isCompressedOrUncompressedPubKey vchPubKey then .ok (S.isValid vchPubKey &&
          S.verify vchPubKey hash vchSig)
        else .error .UNKNOWN_ERROR := by
  obtain ⟨key,vchSig,hkey,hsign,hof⟩ := signer_cases hid hsolver h
  refine ⟨key,vchSig,hkey,hsign,?_⟩
  rw [hof]
  exact rules_checkSig_typed hecdsa hcache hstrict htype hhash hsign

variable (hself : NoSelfSigned W script hash nHashType) (hsize : script.length ≤ 10000)
  (h : SignedBy K hash nHashType script args)

include hself hsize h

theorem SignedBy.runs (hplaced : placed K script) :
    (CBigNum.evalScript E P (cachedCheckSig S P V cache txTo nIn flags 0) args.reverse script txTo
      nIn flags).any
      topTrue := by
  unfold CBigNum.evalScript
  cases h with
  | @pubKey v vchSig key hsolver hkey hsign =>
    obtain ⟨r,c,hsols,hscript,hr,hc⟩ := solver_pubKey hsolver
    obtain rfl : v = r.data := singleton_inj.mp hsols
    have hown : W.getPubKey key = r.data := hid _ (by rw [keysOf,hsolver]; exact mem_singleton_self _) key hkey
    apply any_topTrue_of_ok
    apply evalWith_pubKey hscript hr hc (fun _ _ => rfl) hsize
    rw [hself hsign,← hown]
    exact rules_checkSig_own hecdsa hcache hstrict htype hhash hsign
  | @pubKeyHash v vchSig key hsolver hkey hsign =>
    obtain ⟨d,k,r,e,c,hsols,hlen,hscript,hd,hk,hr,he,hc⟩ := solver_pubKeyHash hsolver
    obtain rfl : v = r.data := singleton_inj.mp hsols
    apply any_topTrue_of_ok
    apply evalWith_pubKeyHash hscript hd hk hr he hc (fun _ _ => rfl) hsize
    · rw [K.getKey_id hkey]
      exact leBytes_id hlen
    · rw [hself hsign]
      exact rules_checkSig_own hecdsa hcache hstrict htype hhash hsign
  | @multiSig sols hsolver hcount =>
    rw [evalWith_signed_multiSig hid hself hsize hsolver hcount]
    apply any_topTrue_bind_iff.mpr
    have hwalk : allPlaced (multiSigKeys sols).reverse (signers K sols).reverse := by
      simpa [placed,hsolver,hcount] using hplaced
    refine checkSigs_of_allPlaced ?_ (fun signer hsigner => mem_reverse.mp hsigner) hwalk (suffix_refl _)
    intro signer hsigner vchPubKey hencoded
    obtain ⟨key,vchSig,hkey,hsign,hcheck⟩ := signer_check hecdsa hcache hstrict htype hhash hid hsolver hsigner
    refine ⟨_,(hcheck vchPubKey).trans (if_pos hencoded),?_⟩
    rintro rfl
    rw [← hkey,hecdsa.valid,hecdsa.verifies hsign]
    rfl

/-- Conversely, where signatures are good for their own keys only, a signed script that runs to
true has its signers placed. -/
theorem SignedBy.placed (hown : OwnKeyOnly S W)
    (hruns : (CBigNum.evalScript E P (cachedCheckSig S P V cache txTo nIn flags 0) args.reverse
      script txTo nIn
      flags).any topTrue) : Script.placed K script := by
  unfold CBigNum.evalScript at hruns
  cases h with
  | pubKey hsolver hkey hsign => rw [Script.placed,hsolver]
  | pubKeyHash hsolver hkey hsign => rw [Script.placed,hsolver]
  | @multiSig sols hsolver hcount =>
    rw [evalWith_signed_multiSig hid hself hsize hsolver hcount] at hruns
    have hchecks := any_topTrue_bind_iff.mp hruns
    have hwalk : allPlaced (multiSigKeys sols).reverse (signers K sols).reverse := by
      refine allPlaced_of_checkSigs ?_ (fun signer hsigner => mem_reverse.mp hsigner) hchecks
      intro signer hsigner vchPubKey fOk hok
      obtain ⟨key,vchSig,hkey,hsign,hcheck⟩ := signer_check hecdsa hcache hstrict htype hhash hid hsolver hsigner
      rw [hcheck] at hok
      split_ifs at hok with hencoded
      refine ⟨hencoded,?_⟩
      rw [← Except.ok.inj hok,Bool.and_eq_true]
      constructor
      · rintro ⟨-,hverify⟩
        exact (hown hsign hverify).trans hkey
      · rintro rfl
        rw [← hkey]
        exact ⟨hecdsa.valid key,hecdsa.verifies hsign⟩
    rw [Script.placed,hsolver]
    simp [hwalk]

end

theorem length_pushes_le {data : List Valtype}
    (h : ∀ d ∈ data, d.length ≤ MAX_SCRIPT_ELEMENT_SIZE) :
    (data.flatMap pushVector).length ≤ 525*data.length := by
  induction data with
  | nil => exact le_rfl
  | cons d data ih =>
    have hd := h d mem_cons_self
    have hrest := ih fun d hd => h d (mem_cons_of_mem _ hd)
    have hheader : (pushHeader d.length).length ≤ 5 := by
      unfold pushHeader
      split_ifs <;> simp
    rw [flatMap_cons,length_append,pushVector,length_append,length_cons]
    simp only [MAX_SCRIPT_ELEMENT_SIZE] at hd
    omega

theorem evalScript_args {data : List Valtype} (hcount : data.length ≤ 18)
    (h : ∀ d ∈ data, d.length ≤ MAX_SCRIPT_ELEMENT_SIZE) (checker) :
    CScriptNum.evalScript E P [] (data.flatMap pushVector) Flags.STANDARD checker =
      .ok data.reverse := by
  have hlen := length_pushes_le h
  exact evalWith_pushes h (fun _ _ => rfl) (by omega) (by omega)

theorem testSolution_scriptHash {fromPubKey : CScript} (h : isPayToScriptHash fromPubKey)
    (hid : leBytes 20 (P.hash160 script).toNat = (fromPubKey.drop 2).take 20)
    (hcount : args.length ≤ 17) (hsize : ∀ d ∈ args++[script], d.length ≤ MAX_SCRIPT_ELEMENT_SIZE) :
    testSolution E S P fromPubKey txTo nIn ((args++[script]).flatMap pushVector) := by
  have hfirst := evalScript_args (E := E) (P := P) (by simp; omega) hsize (signatureChecker S P txTo nIn)
  rw [reverse_append] at hfirst
  refine testSolution_iff.mpr ⟨script::args.reverse,vchTrue::args.reverse,hfirst,?_,rfl⟩
  unfold CScriptNum.evalScript
  rw [evalWith_scriptHash h (fun _ _ => rfl) (by simp; omega),if_pos hid]

variable {txFrom : CTransaction} {fromPubKey scriptSig redeem : CScript}

def redeemScript (K : CKeyStore P W) (fromPubKey : CScript) : Option CScript :=
  if isPayToScriptHash fromPubKey then K.getCScript (BitVec.ofNat 160 (leValue ((fromPubKey.drop 2).take 20))) else none

theorem redeemScript_spec (h : redeemScript K fromPubKey = some redeem) :
    isPayToScriptHash fromPubKey ∧
      leBytes 20 (P.hash160 redeem).toNat = (fromPubKey.drop 2).take 20 ∧
      redeem.length ≤ MAX_SCRIPT_ELEMENT_SIZE := by
  unfold redeemScript at h
  split_ifs at h with hhash
  obtain ⟨hid,hsize⟩ := K.getCScript_id h
  exact ⟨hhash,by rw [hid]; exact leBytes_id (eq_of_isPayToScriptHash hhash).2,hsize⟩

theorem keySolver_scriptHash (hhash : isPayToScriptHash fromPubKey) (hash) :
    keySolver P K fromPubKey hash nHashType = match redeemScript K fromPubKey with
      | none => ⟨false,some .TX_SCRIPTHASH,[]⟩
      | some script => ⟨true,some .TX_SCRIPTHASH,script⟩ := by
  have hsolver : solver fromPubKey = some (.TX_SCRIPTHASH,[(fromPubKey.drop 2).take 20]) := if_pos hhash
  rw [keySolver,hsolver,redeemScript,if_pos hhash]
  rfl

theorem whichType_keySolver (hhash : isPayToScriptHash fromPubKey = false) (hash) :
    (keySolver P K fromPubKey hash nHashType).whichType ≠ some .TX_SCRIPTHASH := by
  have htype : (keySolver P K fromPubKey hash nHashType).whichType = (solver fromPubKey).map Prod.fst := by
    unfold keySolver
    rcases solver fromPubKey with _ | ⟨type,sols⟩
    · rfl
    · cases type <;> dsimp only <;> (try split) <;> rfl
  rw [htype]
  intro h
  obtain ⟨⟨type,sols⟩,hsolver,rfl⟩ := map_eq_some_iff.mp h
  rw [solver,if_neg (by simp [hhash])] at hsolver
  obtain ⟨tplate,hmem,-⟩ := scanTemplates_mem hsolver
  simp [mTemplates] at hmem

theorem signScript_bare (hhash : isPayToScriptHash fromPubKey = false)
    (h : signScript E S P K fromPubKey txTo nIn nHashType = (true,scriptSig)) :
    testSolution E S P fromPubKey (setScriptSig txTo nIn scriptSig) nIn scriptSig := by
  unfold signScript at h
  dsimp only at h
  rw [if_neg (whichType_keySolver hhash _)] at h
  split_ifs at h
  · cases h
  · obtain ⟨htest,rfl⟩ := Prod.mk.inj h
    exact htest

theorem signScript_scriptHash (hredeem : redeemScript K fromPubKey = some redeem) :
    signScript E S P K fromPubKey txTo nIn nHashType =
      let s := keySolver P K redeem (Consensus.signatureHash P redeem txTo nIn nHashType) nHashType
      let scriptSig := s.scriptSig++pushVector redeem
      (s.ok && s.whichType ≠ some .TX_SCRIPTHASH &&
        testSolution E S P fromPubKey (setScriptSig txTo nIn scriptSig) nIn scriptSig,scriptSig) := by
  obtain ⟨hhash,-⟩ := redeemScript_spec hredeem
  unfold signScript
  simp only [keySolver_scriptHash hhash,hredeem,signatureHash_setScriptSig]
  cases (keySolver P K redeem (Consensus.signatureHash P redeem txTo nIn nHashType) nHashType).ok <;>
    by_cases htype : (keySolver P K redeem (Consensus.signatureHash P redeem txTo nIn nHashType)
      nHashType).whichType =
      some .TX_SCRIPTHASH <;> simp [htype]

theorem signScript_unknown (hhash : isPayToScriptHash fromPubKey)
    (hredeem : redeemScript K fromPubKey = none) :
    (signScript E S P K fromPubKey txTo nIn nHashType).1 = false := by
  unfold signScript
  simp only [keySolver_scriptHash hhash,hredeem]
  rfl

/-- The signers of a script that an output names are placed among its keys. -/
def keysPlaced (K : CKeyStore P W) (fromPubKey : CScript) : Bool :=
  (redeemScript K fromPubKey).all (placed K)

def validationFlags : List UInt32 := [Flags.STANDARD,Flags.MANDATORY,Flags.block]

theorem validationFlags_strict (h : flags ∈ validationFlags) : flags &&& Flags.STRICTENC ≠ 0 := by
  simp only [validationFlags,mem_cons,not_mem_nil,or_false] at h
  rcases h with rfl | rfl | rfl <;> decide

/-- What SignSignature signs, VerifySignature accepts, whatever good signatures are remembered. -/
def Accepted (E : EvalEnv) (S : ScriptEnv) (V : Eviction) (K : CKeyStore P W)
    (txFrom txTo : CTransaction) (nIn nHashType : ℕ) : Prop :=
  ∀ scriptSig, signSignature E S P K txFrom txTo nIn nHashType = some (true,scriptSig) →
    ∀ flags ∈ validationFlags, ∀ cache, Consensus.Sound S cache →
      verifySignature E S P V cache txFrom (setScriptSig txTo nIn scriptSig) nIn flags 0 = true

variable {txin : CTxIn} {txout : CTxOut}

theorem signSignature_eq (hin : txTo.vin[nIn]? = some txin)
    (hout : txFrom.vout[txin.prevout.n.toNat]? = some txout) :
    signSignature E S P K txFrom txTo nIn nHashType =
      some (signScript E S P K txout.scriptPubKey txTo nIn nHashType) := by
  simp [signSignature,hin,hout]

theorem verifySignature_eq (hin : txTo.vin[nIn]? = some txin)
    (hout : txFrom.vout[txin.prevout.n.toNat]? = some txout)
    (hprev : txin.prevout.hash = txFrom.getHash P) :
    verifySignature E S P V cache txFrom (setScriptSig txTo nIn scriptSig) nIn flags 0 =
      CBigNum.verifyScript E P (cachedCheckSig S P V cache (setScriptSig txTo nIn scriptSig) nIn
        flags 0) scriptSig
        txout.scriptPubKey (setScriptSig txTo nIn scriptSig) nIn flags := by
  have hin' : (setScriptSig txTo nIn scriptSig).vin[nIn]? = some { txin with scriptSig := scriptSig } := by
    simp [setScriptSig,hin]
  unfold verifySignature
  rw [hin']
  simp only [hout,hprev]
  simp

section

variable (hecdsa : Ecdsa E S W) (hredeem : redeemScript K fromPubKey = some redeem) (hid : NoCollision K redeem)
  (hsigned : SignedBy K hash nHashType redeem args)

include hecdsa hredeem hid hsigned

theorem SignedBy.fits :
    args.length ≤ 17 ∧ ∀ d ∈ args++[redeem], d.length ≤ MAX_SCRIPT_ELEMENT_SIZE := by
  obtain ⟨-,-,hlen⟩ := redeemScript_spec hredeem
  obtain ⟨hcount,hsize⟩ := hsigned.size hecdsa hid
  refine ⟨hcount,?_⟩
  intro d hd
  rcases mem_append.mp hd with hd | hd
  · exact hsize d hd
  · rw [mem_singleton.mp hd]
    exact hlen

theorem SignedBy.test (txTo nIn) :
    testSolution E S P fromPubKey txTo nIn ((args++[redeem]).flatMap pushVector) := by
  obtain ⟨hhash,hbytes,-⟩ := redeemScript_spec hredeem
  obtain ⟨hcount,hall⟩ := hsigned.fits hecdsa hredeem hid
  exact testSolution_scriptHash hhash hbytes hcount hall

theorem SignedBy.verifyScript (hcache : Consensus.Sound S cache) (txTo nIn flags) :
    CBigNum.verifyScript E P (cachedCheckSig S P V cache txTo nIn flags 0)
      ((args++[redeem]).flatMap pushVector) fromPubKey
        txTo nIn flags =
      (CBigNum.evalScript E P (cachedCheckSig S P V cache txTo nIn flags 0) args.reverse redeem txTo
        nIn flags).any
        topTrue := by
  obtain ⟨hhash,-⟩ := redeemScript_spec hredeem
  obtain ⟨hcount,hall⟩ := hsigned.fits hecdsa hredeem hid
  have hfirst := evalScript_args (E := E) (P := P) (by simp; omega) hall (signatureChecker S P txTo nIn)
  rw [reverse_append] at hfirst
  rw [verifyScript_of_test hcache (hsigned.test hecdsa hredeem hid txTo nIn) hfirst,hhash,isPushOnly_pushes hall]
  rfl

end

theorem signScript_scriptHash_iff (hecdsa : Ecdsa E S W)
    (hredeem : redeemScript K fromPubKey = some redeem) (hid : NoCollision K redeem) :
    signScript E S P K fromPubKey txTo nIn nHashType = (true,scriptSig) ↔ ∃ args,
      SignedBy K (Consensus.signatureHash P redeem txTo nIn nHashType) nHashType redeem args ∧
        scriptSig = (args++[redeem]).flatMap pushVector := by
  rw [signScript_scriptHash hredeem]
  constructor
  · intro h
    obtain ⟨hok,rfl⟩ := Prod.mk.inj h
    simp only [Bool.and_eq_true,decide_eq_true_eq] at hok
    obtain ⟨args,hsigned,hscriptSig⟩ := signedBy_of_keySolver hok.1.1 hok.1.2
    exact ⟨args,hsigned,by rw [hscriptSig]; simp⟩
  · rintro ⟨args,hsigned,rfl⟩
    obtain ⟨type,htype,hsolver⟩ := hsigned.keySolver
    have htest := hsigned.test hecdsa hredeem hid
        (setScriptSig txTo nIn ((args++[redeem]).flatMap pushVector)) nIn
    rw [hsolver]
    simp only [flatMap_append,flatMap_singleton] at htest ⊢
    simp [htype,htest]

section

variable (hecdsa : Ecdsa E S W) (hin : txTo.vin[nIn]? = some txin) (hprev : txin.prevout.hash = txFrom.getHash P)
  (hout : txFrom.vout[txin.prevout.n.toNat]? = some txout) (htype : nHashType < 256)
  (hideal : ∀ redeem, redeemScript K txout.scriptPubKey = some redeem →
    NoCollision K redeem ∧ NoSelfSigned W redeem (Consensus.signatureHash P redeem txTo nIn nHashType) nHashType)

include hecdsa hin hprev hout htype hideal

theorem accepted_of_keysPlaced (V : Eviction) (hplaced : keysPlaced K txout.scriptPubKey) :
    Accepted E S V K txFrom txTo nIn nHashType := by
  intro scriptSig hsign flags hflags cache hcache
  rw [signSignature_eq hin hout] at hsign
  replace hsign := some.inj hsign
  rw [verifySignature_eq hin hout hprev]
  cases hhash : isPayToScriptHash txout.scriptPubKey with
  | false =>
    have htest := signScript_bare hhash hsign
    obtain ⟨stackCopy,-,hfirst,-⟩ := testSolution_iff.mp htest
    rw [verifyScript_of_test hcache htest hfirst,hhash]
    rfl
  | true =>
    cases hredeem : redeemScript K txout.scriptPubKey with
    | none =>
      have hfalse : (signScript E S P K txout.scriptPubKey txTo nIn nHashType).1 = false :=
        signScript_unknown hhash hredeem
      rw [hsign] at hfalse
      cases hfalse
    | some redeem =>
      obtain ⟨hid,hself⟩ := hideal redeem hredeem
      obtain ⟨args,hsigned,rfl⟩ := (signScript_scriptHash_iff hecdsa hredeem hid).mp hsign
      have hsize := (redeemScript_spec hredeem).2.2
      rw [hsigned.verifyScript hecdsa hredeem hid hcache]
      -- the script of the input is not part of what is signed
      apply hsigned.runs hecdsa hcache (validationFlags_strict hflags) htype
        (signatureHash_setScriptSig _ _ _ _ _) hid
        hself (le_trans hsize (by decide))
      simpa [keysPlaced,hredeem] using hplaced

theorem keysPlaced_of_accepted (hown : OwnKeyOnly S W)
    (haccepted : Accepted E S V K txFrom txTo nIn nHashType) :
    keysPlaced K txout.scriptPubKey := by
  cases hredeem : redeemScript K txout.scriptPubKey with
  | none => simp [keysPlaced,hredeem]
  | some redeem =>
    have hsize := (redeemScript_spec hredeem).2.2
    obtain ⟨hid,hself⟩ := hideal redeem hredeem
    rw [keysPlaced,hredeem,all_some]
    by_cases hsigned : ∃ args, SignedBy K (Consensus.signatureHash P redeem txTo nIn nHashType)
      nHashType redeem args
    · obtain ⟨args,hsigned⟩ := hsigned
      have hsign := (signScript_scriptHash_iff (E := E) (S := S) hecdsa hredeem hid).mpr ⟨args,hsigned,rfl⟩
      have hcache : Consensus.Sound S [] := fun k hk => absurd hk not_mem_nil
      have hverify := haccepted _ ((signSignature_eq hin hout).trans (congrArg some hsign)) Flags.MANDATORY
        (by simp [validationFlags]) [] hcache
      rw [verifySignature_eq hin hout hprev,hsigned.verifyScript hecdsa hredeem hid hcache] at hverify
      exact hsigned.placed hecdsa hcache (by decide) htype (signatureHash_setScriptSig _ _ _ _ _) hid hself
        (le_trans hsize (by decide)) hown hverify
    · -- a multi-signature script that is not signed lacks a signer
      unfold placed
      split
      · rename_i sols hsolver
        have hcount : (signers K sols).length ≠ nRequired sols :=
          fun hcount => hsigned ⟨_,.multiSig hsolver hcount⟩
        have hle : (signers K sols).length ≤ nRequired sols := length_take_le _ _
        rw [decide_eq_true (by omega)]
        rfl
      · rfl

/-- What SignSignature signs is accepted if and only if the signers of a script that the output
names are met before a malformed key; the condition is enough without the assumption that
signatures are good for their own keys only. -/
theorem accepted_iff_keysPlaced (V : Eviction) :
    (keysPlaced K txout.scriptPubKey = true → Accepted E S V K txFrom txTo nIn nHashType) ∧
      (OwnKeyOnly S W →
        (Accepted E S V K txFrom txTo nIn nHashType ↔ keysPlaced K txout.scriptPubKey = true)) := by
  have henough := accepted_of_keysPlaced hecdsa hin hprev hout htype hideal V
  refine ⟨henough,?_⟩
  intro hown
  exact ⟨keysPlaced_of_accepted hecdsa hin hprev hout htype hideal hown,henough⟩

end

namespace Sample

def pubKey : Valtype := 2::List.replicate 32 1

/-- Thirty-three bytes with the first byte of no public key. -/
def malformedKey : Valtype := List.replicate 33 5

def derSig : Valtype := [0x30,6,2,1,1,2,1,1]

def oneKey : Signing Unit := ⟨fun _ => pubKey,fun _ _ => some derSig⟩

def oneKeyEnv : ScriptEnv :=
  ⟨fun _ _ _ _ => false,fun vchPubKey => cPubKey vchPubKey ≠ [],
    fun vchPubKey _ vchSig => vchPubKey = pubKey && vchSig = derSig⟩

def keyParams : Params :=
  { DarkSilk.Sample.signParams with hash160 := fun l => BitVec.ofNat 160 l.length }

def oneOfTwo (key₁ key₂ : Valtype) : CScript :=
  0x51::(pushVector key₁++pushVector key₂++[0x52,0xae])

def keyStore (script : CScript) (h : script.length = 71) : CKeyStore keyParams oneKey where
  getKey id := if id = 33 then some () else none
  getPubKey id := if id = 33 then some pubKey else none
  getCScript id := if id = 71 then some script else none
  getKey_id h := by
    split_ifs at h with hid
    rw [hid]
    rfl
  getKey_valid _ _ := rfl
  getPubKey_eq h := by
    split_ifs at h with hid
    rw [if_pos hid]
    rfl
  getCScript_id hscript := by
    split_ifs at hscript with hid
    cases hscript
    rw [hid,h]
    refine ⟨?_,by decide⟩
    show BitVec.ofNat 160 script.length = 71
    rw [h]
    decide

def scriptHash : CScript := 0xa9::0x14::leBytes 20 71++[0x87]

def scriptHashTx : CTransaction := ⟨1,100,[⟨⟨3,0⟩,[],0xFFFFFFFF⟩],[⟨5,scriptHash⟩],0⟩

def spendIn : CTxIn := ⟨⟨scriptHashTx.getHash keyParams,0⟩,[],0xFFFFFFFF⟩

def spendTx : CTransaction := ⟨1,100,[spendIn],[⟨5,[0x51]⟩],0⟩

/-- A store that can sign although one of the two keys is malformed. -/
def malformedFirst : CKeyStore keyParams oneKey := keyStore (oneOfTwo malformedKey pubKey) rfl
def malformedLast : CKeyStore keyParams oneKey := keyStore (oneOfTwo pubKey malformedKey) rfl

theorem ecdsa_oneKey : Ecdsa evalEnv oneKeyEnv oneKey where
  encoded _ := show isCompressedOrUncompressedPubKey pubKey by decide
  valid _ := show decide (cPubKey pubKey ≠ []) by decide
  canonical h nHashType := by
    cases h
    have hsign : (1 : UInt8) &&& 128 = 0 := by decide
    simp [isDERSignature,isDERNumber,derSig,hsign]
  low _ := rfl
  verifies h := by
    cases h
    simp [oneKeyEnv,oneKey]

theorem ownKeyOnly_oneKey : OwnKeyOnly oneKeyEnv oneKey := by
  intro key hash vchSig vchPubKey _ hverify
  simp only [oneKeyEnv,Bool.and_eq_true,decide_eq_true_eq] at hverify
  exact hverify.1

theorem noCollision_malformedFirst : NoCollision malformedFirst (oneOfTwo malformedKey pubKey) := by
  intro v hv key hkey
  have hkeys : keysOf (oneOfTwo malformedKey pubKey) = [malformedKey,pubKey] := by decide +kernel
  have hnone : malformedFirst.getKey (getID keyParams malformedKey) = none := by decide +kernel
  rw [hkeys] at hv
  rcases mem_pair.mp hv with rfl | rfl
  · rw [hnone] at hkey
    cases hkey
  · rfl

theorem noSelfSigned_malformedFirst (hash) :
    NoSelfSigned oneKey (oneOfTwo malformedKey pubKey) hash 1 := by
  intro key vchSig hsign
  cases hsign
  decide +kernel

end Sample

open DarkSilk.Script.Sample

/-- A malformed key before the one of the store does no harm. -/
theorem accepted_malformedFirst : keysPlaced malformedFirst scriptHash = true ∧
      Accepted evalEnv oneKeyEnv DarkSilk.Sample.keepAll malformedFirst scriptHashTx spendTx 0
        1 := by
  have hplaced : keysPlaced malformedFirst scriptHash = true := by decide +kernel
  have hin : spendTx.vin[0]? = some spendIn := rfl
  have hout : scriptHashTx.vout[spendIn.prevout.n.toNat]? = some ⟨5,scriptHash⟩ := rfl
  have hredeem : redeemScript malformedFirst scriptHash =
      some (oneOfTwo malformedKey pubKey) := by decide +kernel
  have hiff := (accepted_iff_keysPlaced ecdsa_oneKey hin rfl hout (show 1 < 256 by decide) (by
    intro redeem h
    obtain rfl := some.inj (hredeem.symm.trans h)
    exact ⟨noCollision_malformedFirst,noSelfSigned_malformedFirst _⟩) DarkSilk.Sample.keepAll).2
      ownKeyOnly_oneKey
  exact ⟨hplaced,hiff.mpr hplaced⟩

/-- With the malformed key last the same input is signed, and refused by the rules of blocks. -/
theorem refused_malformedLast :
    let scriptSig := 0::(pushVector (derSig++[1])++pushVector (oneOfTwo pubKey malformedKey))
    signSignature evalEnv oneKeyEnv keyParams malformedLast scriptHashTx spendTx 0 1 = some (true,scriptSig) ∧
      verifySignature evalEnv oneKeyEnv keyParams DarkSilk.Sample.keepAll [] scriptHashTx
        (setScriptSig spendTx 0 scriptSig) 0 Flags.MANDATORY 0 = false := by
  decide +kernel

end

end Script

end DarkSilk
