import DarkSilk.SignSignature

/-! Destinations and the scripts that pay to them. -/
namespace DarkSilk
namespace Script

open PrefixCode List

structure CStealthAddress where
  scan_pubkey : Valtype
  spend_pubkey : Valtype
  deriving DecidableEq

inductive CTxDestination
  | noDestination
  | keyID (id : UInt160)
  | scriptID (id : UInt160)
  | stealth (address : CStealthAddress)
  deriving DecidableEq

/-- The visitor's result and the script of a destination; a stealth address has none. -/
def scriptVisitor : CTxDestination → Bool × CScript
  | .noDestination => (false,[])
  | .keyID id => (true,getScriptForDestination id)
  | .scriptID id => (true,[UInt8.ofNat OP_HASH160]++pushVector (leBytes 20 id.toNat)++[0x87])
  | .stealth _ => (false,[])

def CTxDestination.getScript (dest : CTxDestination) : CScript := (scriptVisitor dest).2

/-- The opcode of a small number. Other numbers fail an assertion. -/
def encodeOP_N (n : ℤ) : Option UInt8 :=
  if 0 ≤ n && n ≤ 16 then some (if n = 0 then 0 else UInt8.ofNat (OP_1-1+n.toNat)) else none

def getScriptForMultisig (nRequired : ℤ) (keys : List Valtype) : Option CScript := do
  let m ← encodeOP_N nRequired
  let n ← encodeOP_N keys.length
  return m::(keys.flatMap pushVector++[n,UInt8.ofNat OP_CHECKMULTISIG])

variable (P : Params)

def extractDestination (scriptPubKey : CScript) : Option CTxDestination :=
  match solver scriptPubKey with
  | some (.TX_PUBKEY,vSolutions) => some (.keyID (getID P (vSolutions.headD [])))
  | some (.TX_PUBKEYHASH,vSolutions) => some (.keyID (BitVec.ofNat 160 (leValue (vSolutions.headD []))))
  | some (.TX_SCRIPTHASH,vSolutions) => some (.scriptID (BitVec.ofNat 160 (leValue (vSolutions.headD []))))
  | _ => none

def extractDestinations (scriptPubKey : CScript) : Option (TxNOutType × List CTxDestination × ℕ) :=
  match solver scriptPubKey with
  | none => none
  | some (.TX_NULL_DATA,_) => none
  | some (.TX_MULTISIG,vSolutions) =>
    some (.TX_MULTISIG,(multiSigKeys vSolutions).map fun key => .keyID (getID P key),nRequired vSolutions)
  | some (typeRet,_) => (extractDestination P scriptPubKey).map fun address => (typeRet,[address],1)

variable {P}

theorem getOp2_plain {b} (h : OP_PUSHDATA4 < b.toNat) (rest) :
    getOp2 (b::rest) = ⟨true,b.toNat,[],rest⟩ := by
  rw [getOp2,if_neg (not_le.mpr h)]

theorem pushVector_id (id : UInt160) :
    ∃ data, leBytes 20 id.toNat = data ∧ data.length = 20 ∧ pushVector data = 20::data := by
  have hlen : (leBytes 20 id.toNat).length = 20 := length_leBytes 20 _
  refine ⟨_,rfl,hlen,?_⟩
  rw [pushVector,hlen]
  rfl

theorem solver_keyID (id : UInt160) :
    solver (getScriptForDestination id) = some (.TX_PUBKEYHASH,[leBytes 20 id.toNat]) := by
  obtain ⟨data,hdata,hlen,hpush⟩ := pushVector_id id
  rw [getScriptForDestination,hdata,hpush]
  simp [solver,isPayToScriptHash,hlen,mTemplates,scanTemplates,matchTemplate,matchOp,getOp2,
    pushWidth,OP_DUP,OP_HASH160,
    OP_EQUALVERIFY,OP_CHECKSIG,OP_PUSHDATA1,OP_PUSHDATA4]

theorem solver_scriptID (id : UInt160) :
    solver (CTxDestination.scriptID id).getScript =
      some (.TX_SCRIPTHASH,[leBytes 20 id.toNat]) := by
  obtain ⟨data,hdata,hlen,hpush⟩ := pushVector_id id
  rw [CTxDestination.getScript,scriptVisitor,hdata,hpush]
  simp [solver,isPayToScriptHash,hlen,OP_HASH160]

theorem getOp2_key {key} (h : key.length = 33 ∨ key.length = 65) (rest) :
    getOp2 (pushVector key++rest) = ⟨true,key.length,key,rest⟩ := by
  have hlt : key.length < OP_PUSHDATA1 := by
    simp only [OP_PUSHDATA1]
    omega
  rw [pushVector,pushHeader,if_pos hlt]
  exact getOp2_push hlt

theorem readPubKeys_pushes {keys sols fuel} (hkeys : ∀ k ∈ keys, k.length = 33 ∨ k.length = 65)
    (hfuel : keys.length < fuel) {b} (hb : OP_PUSHDATA4 < b.toNat) (rest) :
    (getOp2 (keys.flatMap pushVector++b::rest)).ok = true ∧
    readPubKeys fuel (getOp2 (keys.flatMap pushVector++b::rest)) sols =
      (⟨true,b.toNat,[],rest⟩,sols++keys) := by
  obtain ⟨fuel,rfl⟩ : ∃ k, fuel = k+1 := ⟨fuel-1,by omega⟩
  induction keys generalizing fuel sols with
  | nil => simp [readPubKeys,getOp2_plain hb]
  | cons key keys ih =>
    have hkey := hkeys key mem_cons_self
    obtain ⟨fuel,rfl⟩ : ∃ k, fuel = k+1 := ⟨fuel-1,by simp at hfuel; omega⟩
    obtain ⟨hok,hread⟩ := @ih (sols++[key]) (fun k hk => hkeys k (mem_cons_of_mem key hk)) fuel
      (by simpa using hfuel)
    have hlen : 33 ≤ key.length ∧ key.length ≤ 120 := by omega
    rw [flatMap_cons,append_assoc,getOp2_key hkey,readPubKeys]
    simp [hlen,hok,hread]

theorem matchOp_encodeOP_N {k : ℕ} (hk : 1 ≤ k) (hmax : k ≤ 16) :
    ∃ b : UInt8, encodeOP_N k = some b ∧ (OP_PUSHDATA4 < b.toNat ∧ b.toNat < OP_DUP) ∧
      ∀ rest, matchOp ⟨true,b.toNat,[],rest⟩ .OP_SMALLINTEGER = some [[UInt8.ofNat k]] := by
  interval_cases k <;> exact ⟨_,rfl,by decide,fun _ => rfl⟩

theorem solver_multisig {m} {keys : List Valtype} (hm : 1 ≤ m) (hle : m ≤ keys.length)
    (hmax : keys.length ≤ 16) (hkeys : ∀ k ∈ keys, k.length = 33 ∨ k.length = 65) :
    ∃ script, getScriptForMultisig m keys = some script ∧
      solver script = some (.TX_MULTISIG,[UInt8.ofNat m]::(keys++[[UInt8.ofNat keys.length]])) := by
  obtain ⟨a,ha,⟨hplainA,hltA⟩,hmatchA⟩ := matchOp_encodeOP_N hm (hle.trans hmax)
  obtain ⟨b,hb,⟨hplainB,-⟩,hmatchB⟩ := matchOp_encodeOP_N (hm.trans hle) hmax
  have hend := getOp2_plain (b := UInt8.ofNat OP_CHECKMULTISIG) (by decide) []
  have hfuel : keys.length ≤ (keys.map fun key => (pushVector key).length).sum := by
    refine (length_map _).symm.trans_le (length_le_sum_of_one_le _ fun n hn => ?_)
    obtain ⟨key,-,rfl⟩ := mem_map.mp hn
    rw [pushVector,pushHeader_eq]
    simp
  have hlen : keys.length < (keys.flatMap pushVector++[b,UInt8.ofNat OP_CHECKMULTISIG]).length := by
    rw [length_append,length_flatMap]
    exact hfuel.trans_lt (Nat.lt_add_of_pos_right (by simp))
  obtain ⟨hok,hread⟩ :=
    @readPubKeys_pushes _ [[UInt8.ofNat m]] _ hkeys hlen _ hplainB [UInt8.ofNat OP_CHECKMULTISIG]
  have hsols : multiSigOk ([UInt8.ofNat m]::(keys++[[UInt8.ofNat keys.length]])) = true := by
    have hval : ∀ k : ℕ, k ≤ 16 → (UInt8.ofNat k).toNat = k := by decide
    rw [multiSigOk_iff]
    simp only [UInt8.le_iff_toNat_le,hval _ hmax,hval m (hle.trans hmax)]
    exact ⟨hm,hm.trans hle,hle,trivial⟩
  have hhash : a ≠ 0xa9 := by
    rintro rfl
    exact absurd hltA (by decide)
  refine ⟨a::(keys.flatMap pushVector++[b,UInt8.ofNat OP_CHECKMULTISIG]),
    by rw [getScriptForMultisig,ha,hb]; rfl,?_⟩
  generalize keys.flatMap pushVector++[b,UInt8.ofNat OP_CHECKMULTISIG] = pc at hok hread
  have hmatch : matchTemplate [.OP_SMALLINTEGER,.OP_PUBKEYS,.OP_SMALLINTEGER,.op OP_CHECKMULTISIG] (a::pc) [] =
      some ([UInt8.ofNat m]::(keys++[[UInt8.ofNat keys.length]])) := by
    simp only [matchTemplate,getOp2_plain hplainA,hmatchA,hok,nil_append,Bool.not_true,
      Bool.false_eq_true,if_false,
      Option.bind_some,hread,hmatchB,hend]
    simp [matchOp,OP_CHECKMULTISIG]
  simp [solver,isPayToScriptHash,hhash,mTemplates,scanTemplates,hmatch,hsols]
  simp [matchTemplate,getOp2_plain hplainA,matchOp,hltA.ne]

theorem leValue_id (id) : BitVec.ofNat 160 (leValue (leBytes 20 id.toNat)) = id := by
  rw [leValue_leBytes (by simpa using id.isLt),BitVec.ofNat_toNat,BitVec.setWidth_eq]

theorem extractDestination_getScript (dest) :
    extractDestination P dest.getScript = if (scriptVisitor dest).1 then some dest else none := by
  cases dest with
  | noDestination | stealth address => rfl
  | keyID id =>
    rw [extractDestination,CTxDestination.getScript,scriptVisitor,solver_keyID]
    simp [leValue_id]
  | scriptID id =>
    rw [extractDestination,solver_scriptID]
    simp [leValue_id,scriptVisitor]

/-- Key ids and script ids come back from their scripts, and multi-signature scripts give their
type, number and keys. The destinations that share a script are those that have none. -/
theorem destinations_of_scripts (P : Params) :
    (∀ dest, (scriptVisitor dest).1 = true → extractDestination P dest.getScript = some dest) ∧
    (∀ (m : ℕ) (keys : List Valtype), 1 ≤ m → m ≤ keys.length → keys.length ≤ 16 →
      (∀ k ∈ keys, k.length = 33 ∨ k.length = 65) →
      ∃ script, getScriptForMultisig m keys = some script ∧
        extractDestinations P script = some (.TX_MULTISIG,keys.map fun k => .keyID (getID P k),m)) ∧
    ∀ dest dest' : CTxDestination, dest.getScript = dest'.getScript ↔
      dest = dest' ∨ ((scriptVisitor dest).1 = false ∧ (scriptVisitor dest').1 = false) := by
  refine ⟨?_,?_,?_⟩
  · intro dest h
    rw [extractDestination_getScript,if_pos h]
  · intro m keys hm hle hmax hkeys
    obtain ⟨script,hscript,hsolver⟩ := solver_multisig hm hle hmax hkeys
    refine ⟨script,hscript,?_⟩
    rw [extractDestinations,hsolver]
    simp [multiSigKeys,nRequired,Nat.mod_eq_of_lt (by omega : m < 256)]
  · intro dest dest'
    constructor
    · intro heq
      have h := congrArg (extractDestination P) heq
      rw [extractDestination_getScript,extractDestination_getScript] at h
      split_ifs at h with h1 h2 h2
      · exact .inl (Option.some.inj h)
      · exact .inr ⟨by simpa using h1,by simpa using h2⟩
    · rintro (rfl | ⟨h,h'⟩)
      · rfl
      · cases dest <;> cases h <;> cases dest' <;> cases h' <;> rfl

theorem destinations_of_scripts_oneKey :
    extractDestination Sample.params (CTxDestination.scriptID 7).getScript = some (.scriptID 7) ∧
    ∃ script, getScriptForMultisig (1 : ℕ) [Sample.pubKey] = some script ∧
      extractDestinations Sample.params script =
        some (.TX_MULTISIG,[.keyID (getID Sample.params Sample.pubKey)],1) := by
  obtain ⟨hdest,hmulti,-⟩ := destinations_of_scripts Sample.params
  exact ⟨hdest (.scriptID 7) rfl,hmulti 1 [Sample.pubKey] le_rfl le_rfl (by decide) (by decide)⟩

/-- Two stealth addresses have one script, the empty one. -/
theorem stealth_script : CTxDestination.stealth ⟨[2],[2]⟩ ≠ .stealth ⟨[2],[3]⟩ ∧
      (CTxDestination.stealth ⟨[2],[2]⟩).getScript = (CTxDestination.stealth ⟨[2],[3]⟩).getScript :=
  ⟨by decide,rfl⟩

end Script
end DarkSilk
