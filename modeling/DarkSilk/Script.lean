import DarkSilk.Primitives

/-! Scripts as byte strings: reading operations, counting signature operations,
pushing numbers and collecting the address ids of an output script. -/
namespace DarkSilk
namespace Script

open PrefixCode List

structure ReadOp where
  ok : Bool
  opcode : ℕ
  data : List UInt8
  rest : CScript
  deriving DecidableEq, Repr

def OP_PUSHDATA1 : ℕ := 0x4c
def OP_PUSHDATA2 : ℕ := 0x4d
def OP_PUSHDATA4 : ℕ := 0x4e
def OP_1 : ℕ := 0x51
def OP_16 : ℕ := 0x60
def OP_CHECKSIG : ℕ := 0xac
def OP_CHECKSIGVERIFY : ℕ := 0xad
def OP_CHECKMULTISIG : ℕ := 0xae
def OP_CHECKMULTISIGVERIFY : ℕ := 0xaf
def OP_INVALIDOPCODE : ℕ := 0xff

def pushWidth (opcode : ℕ) : ℕ :=
  if opcode < OP_PUSHDATA1 then 0 else if opcode = OP_PUSHDATA1 then 1
  else if opcode = OP_PUSHDATA2 then 2 else 4

/-- Read one operation. A failed read has still moved past what it looked at. -/
def getOp2 : CScript → ReadOp
  | [] => ⟨false,OP_INVALIDOPCODE,[],[]⟩
  | b::pc =>
    let opcode := b.toNat
    if opcode ≤ OP_PUSHDATA4 then
      if pc.length < pushWidth opcode then ⟨false,OP_INVALIDOPCODE,[],pc⟩
      else
        let nSize := if opcode < OP_PUSHDATA1 then opcode else leValue (pc.take (pushWidth opcode))
        let pc := pc.drop (pushWidth opcode)
        if pc.length < nSize then ⟨false,OP_INVALIDOPCODE,[],pc⟩
        else ⟨true,opcode,pc.take nSize,pc.drop nSize⟩
    else ⟨true,opcode,[],pc⟩

/-- Every read makes progress, so the length of the script bounds every scan over it. -/
theorem length_rest_getOp2 (b pc) : (getOp2 (b::pc)).rest.length ≤ pc.length := by
  simp only [getOp2]
  split_ifs <;> simp

def sigOps (fAccurate : Bool) : ℕ → ℕ → CScript → ℕ
  | 0, _, _ => 0
  | _, _, [] => 0
  | fuel+1, lastOpcode, pc =>
    let r := getOp2 pc
    if !r.ok then 0
    else
      let n :=
        if r.opcode = OP_CHECKSIG || r.opcode = OP_CHECKSIGVERIFY then 1
        else if r.opcode = OP_CHECKMULTISIG || r.opcode = OP_CHECKMULTISIGVERIFY then
          if fAccurate && OP_1 ≤ lastOpcode && lastOpcode ≤ OP_16 then lastOpcode-(OP_1-1) else 20
        else 0
      n+sigOps fAccurate fuel r.opcode r.rest

def getSigOpCount (fAccurate : Bool) (script : CScript) : ℕ :=
  sigOps fAccurate script.length OP_INVALIDOPCODE script

def isPayToScriptHash (script : CScript) : Bool :=
  script.length = 23 && script[0]? = some 0xa9 && script[1]? = some 0x14 && script[22]? = some 0x87

def lastPush : ℕ → List UInt8 → CScript → Option (List UInt8)
  | 0, data, _ => some data
  | _, data, [] => some data
  | fuel+1, _, pc =>
    let r := getOp2 pc
    if !r.ok || OP_16 < r.opcode then none else lastPush fuel r.data r.rest

/-- Signature operations of a script hash output, counted in the script that the input supplies. -/
def getSigOpCountP2SH (scriptPubKey scriptSig : CScript) : ℕ :=
  if !isPayToScriptHash scriptPubKey then getSigOpCount true scriptPubKey
  else match lastPush scriptSig.length [] scriptSig with
    | none => 0
    | some data => getSigOpCount true data

def getLegacySigOpCount (tx : CTransaction) : ℕ :=
  (tx.vin.map fun txin => getSigOpCount false txin.scriptSig).sum+
    (tx.vout.map fun txout => getSigOpCount false txout.scriptPubKey).sum

variable (P : Params)

/-- Address ids of all data elements of eight bytes or more. -/
def addrIds : ℕ → CScript → List UInt160
  | 0, _ => []
  | _, [] => []
  | fuel+1, pc =>
    let r := getOp2 pc
    if r.opcode ≤ OP_PUSHDATA4 && 8 ≤ r.data.length then
      (if r.data.length ≤ 20 then BitVec.ofNat 160 (leValue r.data) else P.hash160 r.data)::
        addrIds fuel r.rest
    else addrIds fuel r.rest

def buildAddrIndex (script : CScript) : List UInt160 :=
  match addrIds P script.length script with
  | [] => [P.hash160 script]
  | ids => ids

/-- Sign-and-magnitude bytes of a number, lowest first; a number whose top bit would
read as the sign gets one more byte. -/
def getvch (n : ℤ) : List UInt8 :=
  let bytes := natBytes n.natAbs n.natAbs
  match bytes.getLast? with
  | none => []
  | some top =>
    if 0x80 ≤ top then bytes++[if n < 0 then 0x80 else 0]
    else if n < 0 then bytes.dropLast++[top+0x80] else bytes

def pushHeader (n : ℕ) : List UInt8 :=
  if n < OP_PUSHDATA1 then [UInt8.ofNat n]
  else if n ≤ 0xff then 0x4c::leBytes 1 n
  else if n ≤ 0xffff then 0x4d::leBytes 2 n
  else 0x4e::leBytes 4 n

def pushVector (b : List UInt8) : CScript := pushHeader b.length++b

def pushInt64 (n : ℤ) : CScript :=
  if n = -1 || (1 ≤ n && n ≤ 16) then [UInt8.ofNat (n+(OP_1-1)).toNat] else pushVector (getvch n)

def startsWithHeight (scriptSig : CScript) (nHeight : ℕ) : Bool :=
  (pushInt64 nHeight).isPrefixOf scriptSig

def pushMark (n : ℕ) : ℕ :=
  if n < OP_PUSHDATA1 then n else if n ≤ 0xff then OP_PUSHDATA1
  else if n ≤ 0xffff then OP_PUSHDATA2 else OP_PUSHDATA4

theorem pushHeader_eq (n) :
    pushHeader n = UInt8.ofNat (pushMark n)::leBytes (pushWidth (pushMark n)) n := by
  unfold pushHeader pushMark
  split_ifs with h <;> simp [pushWidth,OP_PUSHDATA1,OP_PUSHDATA2,OP_PUSHDATA4,leBytes] at h ⊢
  simp [h,leBytes]

theorem pushMark_le (n) : pushMark n ≤ OP_PUSHDATA4 := by
  unfold pushMark
  split_ifs with h <;> simp only [OP_PUSHDATA1,OP_PUSHDATA2,OP_PUSHDATA4] at h ⊢ <;> omega

theorem prefixFreeOn_pushHeader : PrefixFreeOn (fun n => n < 2^32) pushHeader := by
  refine prefixFreeOn_marked OP_PUSHDATA1 pushHeader_eq
    (fun n => lt_of_le_of_lt (pushMark_le n) (by decide)) fun n hn => ?_
  unfold pushMark
  split_ifs with h <;> simp [pushWidth,OP_PUSHDATA1,OP_PUSHDATA2,OP_PUSHDATA4] at h ⊢ <;> omega

theorem prefixFreeOn_pushVector :
    PrefixFreeOn (fun b : List UInt8 => b.length < 2^32) pushVector := by
  have h := prefixFreeOn_pushHeader.counted (prefixFreeOn_singleton (σ := UInt8))
  simp only [flatMap_singleton'] at h
  exact h.mono fun _ hb => ⟨hb,fun _ _ => trivial⟩

theorem leValue_getvch (n : ℕ) : leValue (getvch n) = n := by
  have hv := leValue_natBytes (le_refl n)
  have hneg : ¬ (n : ℤ) < 0 := by omega
  simp only [getvch,Int.natAbs_natCast,hneg,if_false]
  cases h : (natBytes n n).getLast? with
  | none =>
    rw [getLast?_eq_none_iff.mp h] at hv
    exact hv
  | some top =>
    simp only
    split_ifs
    · rw [leValue_append_zero,hv]
    · exact hv

theorem pushInt64_cases (n : ℕ) :
    (1 ≤ n ∧ n ≤ 16 ∧ pushInt64 n = [UInt8.ofNat (n+0x50)]) ∨
      pushInt64 n = pushVector (getvch n) := by
  unfold pushInt64
  by_cases h : 1 ≤ n ∧ n ≤ 16
  · left
    refine ⟨h.1,h.2,?_⟩
    have h1 : (((n : ℤ)+((OP_1 : ℕ)-1)).toNat) = n+0x50 := by
      simp only [OP_1]
      omega
    have h2 : 1 ≤ (n : ℤ) ∧ (n : ℤ) ≤ 16 := by omega
    simp [h1,h2.1,h2.2]
  · right
    have h2 : ¬ (1 ≤ (n : ℤ) ∧ (n : ℤ) ≤ 16) := by omega
    rw [if_neg]
    simp only [Bool.or_eq_true,Bool.and_eq_true,decide_eq_true_eq]
    tauto

theorem opcode_not_pushVector {n} (h1 : 1 ≤ n) (h2 : n ≤ 16) (b) {l}
    (hn : [UInt8.ofNat (n+0x50)] <+: l) (hb : pushVector b <+: l) : False := by
  obtain ⟨r,rfl⟩ := hn
  obtain ⟨s,hs⟩ := hb
  rw [pushVector,pushHeader_eq,cons_append,cons_append,cons_append,cons.injEq] at hs
  have h3 := ofNat_eq_ofNat hs.1
  have h4 := pushMark_le b.length
  simp only [OP_PUSHDATA4] at h4
  omega

/-- No script starts with two different heights. The bound on the script, which the
coinbase rule gives, keeps the length of the pushed number within its field. -/
theorem startsWithHeight_inj {scriptSig} (hlen : scriptSig.length < 2^32) {m n}
    (hm : startsWithHeight scriptSig m) (hn : startsWithHeight scriptSig n) : m = n := by
  rw [startsWithHeight, isPrefixOf_iff_prefix] at hm hn
  have hvch : ∀ k : ℕ, pushVector (getvch k) <+: scriptSig → (getvch k).length < 2^32 := by
    intro k hk
    have := hk.length_le
    rw [pushVector,length_append] at this
    omega
  rcases pushInt64_cases m with ⟨hm₁,hm₂,hm₃⟩ | hm₃ <;>
    rcases pushInt64_cases n with ⟨hn₁,hn₂,hn₃⟩ | hn₃ <;> rw [hm₃] at hm <;> rw [hn₃] at hn
  · have h := prefixFreeOn_singleton.eq_of_isPrefix trivial trivial hm hn
    have := ofNat_eq_ofNat h
    omega
  · exact (opcode_not_pushVector hm₁ hm₂ _ hm hn).elim
  · exact (opcode_not_pushVector hn₁ hn₂ _ hn hm).elim
  · have h := prefixFreeOn_pushVector.eq_of_isPrefix (hvch m hm) (hvch n hn) hm hn
    rw [← leValue_getvch m,h,leValue_getvch]

end Script
end DarkSilk
