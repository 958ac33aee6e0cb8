import DarkSilk.Script

/-! Standard output scripts: the templates, the scan over them, and the scripts that
pay to a key. -/
namespace DarkSilk
namespace Script

open PrefixCode

inductive TxNOutType
  | TX_PUBKEY | TX_PUBKEYHASH | TX_SCRIPTHASH | TX_MULTISIG | TX_NULL_DATA
  deriving DecidableEq, Repr

inductive TemplateOp
  | OP_PUBKEYS | OP_PUBKEY | OP_PUBKEYHASH | OP_SMALLINTEGER | OP_SMALLDATA
  | op (opcode : ℕ)
  deriving DecidableEq, Repr

def OP_RETURN : ℕ := 0x6a
def OP_DUP : ℕ := 0x76
def OP_EQUALVERIFY : ℕ := 0x88
def OP_HASH160 : ℕ := 0xa9
def MAX_OP_RETURN_RELAY : ℕ := 40

def mTemplates : List (TxNOutType × List TemplateOp) :=
  [(.TX_PUBKEY,[.OP_PUBKEY,.op OP_CHECKSIG]),
    (.TX_PUBKEYHASH,[.op OP_DUP,.op OP_HASH160,.OP_PUBKEYHASH,.op OP_EQUALVERIFY,.op OP_CHECKSIG]),
    (.TX_MULTISIG,[.OP_SMALLINTEGER,.OP_PUBKEYS,.OP_SMALLINTEGER,.op OP_CHECKMULTISIG]),
    (.TX_NULL_DATA,[.op OP_RETURN,.OP_SMALLDATA]),
    (.TX_NULL_DATA,[.op OP_RETURN])]

/-- The run of public keys that starts with the operation just read. The operation
after the run is the last one read, whether the read succeeds or not. -/
def readPubKeys : ℕ → ReadOp → List (List UInt8) → ReadOp × List (List UInt8)
  | 0, r, vSolutions => (r,vSolutions)
  | fuel+1, r, vSolutions =>
    if 33 ≤ r.data.length && r.data.length ≤ 120 then
      let r' := getOp2 r.rest
      if r'.ok then readPubKeys fuel r' (vSolutions++[r.data]) else (r',vSolutions++[r.data])
    else (r,vSolutions)

/-- What one operation of the script adds to the solutions if it fits the template. -/
def matchOp (r : ReadOp) : TemplateOp → Option (List (List UInt8))
  | .OP_PUBKEY => if r.data.length < 33 || 120 < r.data.length then none else some [r.data]
  | .OP_PUBKEYHASH => if r.data.length ≠ 20 then none else some [r.data]
  | .OP_SMALLINTEGER =>
    if r.opcode = 0 then some [[0]]
    else if OP_1 ≤ r.opcode && r.opcode ≤ OP_16 then some [[UInt8.ofNat (r.opcode-(OP_1-1))]]
    else none
  | .OP_SMALLDATA => if MAX_OP_RETURN_RELAY < r.data.length then none else some []
  | .OP_PUBKEYS => if r.opcode ≠ 0xfb || r.data ≠ [] then none else some []
  | .op opcode => if r.opcode ≠ opcode || r.data ≠ [] then none else some []

def matchTemplate : List TemplateOp → CScript → List (List UInt8) → Option (List (List UInt8))
  | [], script, vSolutions => if script = [] then some vSolutions else none
  | [.OP_PUBKEYS], _, _ => none
  | .OP_PUBKEYS::t::tplate, script, vSolutions =>
    let r := getOp2 script
    if !r.ok then none
    else
      let x := readPubKeys script.length r vSolutions
      (matchOp x.1 t).bind fun s => matchTemplate tplate x.1.rest (x.2++s)
  | t::tplate, script, vSolutions =>
    let r := getOp2 script
    if !r.ok then none
    else (matchOp r t).bind fun s => matchTemplate tplate r.rest (vSolutions++s)

/-- The extra conditions on a multi-signature script of m keys out of n. -/
def multiSigOk (vSolutions : List (List UInt8)) : Bool :=
  match vSolutions.head?.bind List.head?, vSolutions.getLast?.bind List.head? with
  | some m, some n => 1 ≤ m && 1 ≤ n && m ≤ n && vSolutions.length = n.toNat+2
  | _, _ => false

def scanTemplates (script : CScript) :
    List (TxNOutType × List TemplateOp) → Option (TxNOutType × List (List UInt8))
  | [] => none
  | (type,tplate)::l =>
    match matchTemplate tplate script [] with
    | none => scanTemplates script l
    | some vSolutions =>
      if type = .TX_MULTISIG && !multiSigOk vSolutions then none else some (type,vSolutions)

def solver (scriptPubKey : CScript) : Option (TxNOutType × List (List UInt8)) :=
  if isPayToScriptHash scriptPubKey then some (.TX_SCRIPTHASH,[(scriptPubKey.drop 2).take 20])
  else scanTemplates scriptPubKey mTemplates

def payToPubKey (vchPubKey : List UInt8) : CScript :=
  UInt8.ofNat vchPubKey.length::(vchPubKey++[UInt8.ofNat OP_CHECKSIG])

def getScriptForDestination (keyID : UInt160) : CScript :=
  [UInt8.ofNat OP_DUP,UInt8.ofNat OP_HASH160]++pushVector (leBytes 20 keyID.toNat)++
    [UInt8.ofNat OP_EQUALVERIFY,UInt8.ofNat OP_CHECKSIG]

theorem getOp2_push {data rest} (h : data.length < OP_PUSHDATA1) :
    getOp2 (UInt8.ofNat data.length::(data++rest)) = ⟨true,data.length,data,rest⟩ := by
  have hn : (UInt8.ofNat data.length).toNat = data.length := by
    simp only [OP_PUSHDATA1] at h
    rw [UInt8.toNat_ofNat',Nat.mod_eq_of_lt (by omega)]
  have h1 : data.length ≤ OP_PUSHDATA4 := by
    simp only [OP_PUSHDATA1,OP_PUSHDATA4] at h ⊢
    omega
  simp [getOp2,hn,h1,h,pushWidth]

theorem solver_payToPubKey {vchPubKey} (h : vchPubKey.length = 33 ∨ vchPubKey.length = 65) :
    solver (payToPubKey vchPubKey) = some (.TX_PUBKEY,[vchPubKey]) := by
  have hlt : vchPubKey.length < OP_PUSHDATA1 := by
    simp only [OP_PUSHDATA1]
    omega
  have hlen : (payToPubKey vchPubKey).length ≠ 23 := by
    simp only [payToPubKey,List.length_cons,List.length_append,List.length_nil]
    omega
  have hkey : ¬ (vchPubKey.length < 33 ∨ 120 < vchPubKey.length) := by omega
  have hsig : getOp2 [UInt8.ofNat OP_CHECKSIG] = ⟨true,OP_CHECKSIG,[],[]⟩ := by decide
  have hmatch : matchTemplate [.OP_PUBKEY,.op OP_CHECKSIG] (payToPubKey vchPubKey) [] = some [vchPubKey] := by
    simp [matchTemplate,payToPubKey,getOp2_push hlt,matchOp,hkey,hsig]
  simp [solver,isPayToScriptHash,hlen,mTemplates,scanTemplates,hmatch]

end Script
end DarkSilk
