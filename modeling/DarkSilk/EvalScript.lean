import DarkSilk.ScriptNum
import DarkSilk.SignatureHash

/-! The two interpreters of scripts. They are one stack machine with two sets of rules: each
has its own numbers, its own checks of signatures and lock times, and its own flags. -/

namespace DarkSilk

open PrefixCode

namespace Flags

def DERSIG : UInt32 := 4
def LOW_S : UInt32 := 8
def MINIMALDATA : UInt32 := 64

end Flags

namespace Script

abbrev Valtype := List UInt8

inductive ScriptError
  | UNKNOWN_ERROR | EVAL_FALSE | OP_RETURN
  | SCRIPT_SIZE | PUSH_SIZE | OP_COUNT | STACK_SIZE | SIG_COUNT | PUBKEY_COUNT
  | VERIFY | EQUALVERIFY | CHECKMULTISIGVERIFY | CHECKSIGVERIFY | NUMEQUALVERIFY
  | BAD_OPCODE | DISABLED_OPCODE | INVALID_STACK_OPERATION | INVALID_ALTSTACK_OPERATION | UNBALANCED_CONDITIONAL
  | SIG_HASHTYPE | SIG_DER | MINIMALDATA | SIG_PUSHONLY | SIG_NULLDUMMY | PUBKEYTYPE
  | DISCOURAGE_UPGRADABLE_NOPS
  deriving DecidableEq, Repr

inductive StackOp
  | drop2 | dup2 | dup3 | over2 | rot2 | swap2 | drop | dup | nip | over | rot | swap | tuck
  deriving DecidableEq, Repr

inductive UnaryOp
  | add1 | sub1 | negate | abs | not | notEqual0
  deriving DecidableEq, Repr

inductive BinaryOp
  | add | sub | boolAnd | boolOr | numEqual | numEqualVerify | numNotEqual
  | lessThan | greaterThan | lessThanOrEqual | greaterThanOrEqual | min | max
  deriving DecidableEq, Repr

inductive HashOp
  | ripemd160 | sha1 | sha256 | hash160 | hash256
  deriving DecidableEq, Repr

/-- What the interpreters tell apart. The operations with a flag come in a second form: the
negated one, the one that moves instead of copying, or the one that fails where the first
leaves false. -/
inductive Op
  | number (n : Int64)
  | nop | upgradableNop | checkLockTimeVerify
  | ifOp (fNot : Bool) | elseOp | endIf | verify | returnOp
  | toAltStack | fromAltStack | ifDup | depth | pick (fRoll : Bool) | stack (op : StackOp)
  | size | equal (fVerify : Bool)
  | unary (op : UnaryOp) | binary (op : BinaryOp) | within
  | hash (op : HashOp) | codeSeparator
  | checkSig (fVerify : Bool) | checkMultiSig (fVerify : Bool)
  | bad
  deriving DecidableEq, Repr

def OP_1NEGATE : ℕ := 0x4f
def OP_IF : ℕ := 0x63
def OP_ENDIF : ℕ := 0x68

/-- CAT, SUBSTR, LEFT, RIGHT, INVERT, AND, OR, XOR, 2MUL, 2DIV, MUL, DIV, MOD, LSHIFT and
RSHIFT. -/
def disabledOpcodes : List ℕ :=
  [0x7e,0x7f,0x80,0x81,0x83,0x84,0x85,0x86,0x8d,0x8e,0x95,0x96,0x97,0x98,0x99]

/-- The operations by their opcodes, but for the pushes. -/
def opTable : List (ℕ × Op) :=
  [(0x61,.nop),(0x63,.ifOp false),(0x64,.ifOp true),(0x67,.elseOp),(0x68,.endIf),(0x69,.verify),(0x6a,.returnOp),
    (0x6b,.toAltStack),(0x6c,.fromAltStack),(0x6d,.stack .drop2),(0x6e,.stack .dup2),(0x6f,.stack .dup3),
    (0x70,.stack .over2),(0x71,.stack .rot2),(0x72,.stack .swap2),(0x73,.ifDup),(0x74,.depth),(0x75,.stack .drop),
    (0x76,.stack .dup),(0x77,.stack .nip),(0x78,.stack .over),(0x79,.pick false),(0x7a,.pick true),(0x7b,.stack .rot),
    (0x7c,.stack .swap),(0x7d,.stack .tuck),(0x82,.size),(0x87,.equal false),(0x88,.equal true),
    (0x8b,.unary .add1),(0x8c,.unary .sub1),(0x8f,.unary .negate),(0x90,.unary .abs),(0x91,.unary .not),
    (0x92,.unary .notEqual0),(0x93,.binary .add),(0x94,.binary .sub),(0x9a,.binary .boolAnd),(0x9b,.binary .boolOr),
    (0x9c,.binary .numEqual),(0x9d,.binary .numEqualVerify),(0x9e,.binary .numNotEqual),(0x9f,.binary .lessThan),
    (0xa0,.binary .greaterThan),(0xa1,.binary .lessThanOrEqual),(0xa2,.binary .greaterThanOrEqual),
    (0xa3,.binary .min),(0xa4,.binary .max),(0xa5,.within),(0xa6,.hash .ripemd160),(0xa7,.hash .sha1),
    (0xa8,.hash .sha256),(0xa9,.hash .hash160),(0xaa,.hash .hash256),(0xab,.codeSeparator),
    (0xac,.checkSig false),(0xad,.checkSig true),(0xae,.checkMultiSig false),(0xaf,.checkMultiSig true),
    (0xb0,.upgradableNop),(0xb1,.upgradableNop),(0xb2,.upgradableNop),(0xb3,.upgradableNop),(0xb4,.upgradableNop),
    (0xb5,.upgradableNop),(0xb6,.checkLockTimeVerify),(0xb7,.upgradableNop),(0xb8,.upgradableNop),(0xb9,.upgradableNop)]

def decodeOp (opcode : ℕ) : Op :=
  if opcode = OP_1NEGATE || (OP_1 ≤ opcode && opcode ≤ OP_16) then .number (Int64.ofInt (opcode-(OP_1-1)))
  else (opTable.lookup opcode).getD .bad

def StackOp.apply {α : Type} : StackOp → List α → Option (List α)
  | .drop2, _::_::s => some s
  | .dup2, x₂::x₁::s => some (x₂::x₁::x₂::x₁::s)
  | .dup3, x₃::x₂::x₁::s => some (x₃::x₂::x₁::x₃::x₂::x₁::s)
  | .over2, x₄::x₃::x₂::x₁::s => some (x₂::x₁::x₄::x₃::x₂::x₁::s)
  | .rot2, x₆::x₅::x₄::x₃::x₂::x₁::s => some (x₂::x₁::x₆::x₅::x₄::x₃::s)
  | .swap2, x₄::x₃::x₂::x₁::s => some (x₂::x₁::x₄::x₃::s)
  | .drop, _::s => some s
  | .dup, x::s => some (x::x::s)
  | .nip, x₂::_::s => some (x₂::s)
  | .over, x₂::x₁::s => some (x₁::x₂::x₁::s)
  | .rot, x₃::x₂::x₁::s => some (x₁::x₃::x₂::s)
  | .swap, x₂::x₁::s => some (x₁::x₂::s)
  | .tuck, x₂::x₁::s => some (x₂::x₁::x₂::s)
  | _, _ => none

variable {ν : Type} [OfNat ν 0] [OfNat ν 1] [Add ν] [Sub ν] [Neg ν] [LT ν] [LE ν] [DecidableLT ν] [DecidableLE ν]
  [DecidableEq ν]

def numOfBool (b : Bool) : ν := if b then 1 else 0

def UnaryOp.eval (bn : ν) : UnaryOp → ν
  | .add1 => bn+1
  | .sub1 => bn-1
  | .negate => -bn
  | .abs => if bn < 0 then -bn else bn
  | .not => numOfBool (bn = 0)
  | .notEqual0 => numOfBool (bn ≠ 0)

def BinaryOp.eval (bn1 bn2 : ν) : BinaryOp → ν
  | .add => bn1+bn2
  | .sub => bn1-bn2
  | .boolAnd => numOfBool (bn1 ≠ 0 && bn2 ≠ 0)
  | .boolOr => numOfBool (bn1 ≠ 0 || bn2 ≠ 0)
  | .numEqual => numOfBool (bn1 = bn2)
  | .numEqualVerify => numOfBool (bn1 = bn2)
  | .numNotEqual => numOfBool (bn1 ≠ bn2)
  | .lessThan => numOfBool (bn1 < bn2)
  | .greaterThan => numOfBool (bn2 < bn1)
  | .lessThanOrEqual => numOfBool (bn1 ≤ bn2)
  | .greaterThanOrEqual => numOfBool (bn2 ≤ bn1)
  | .min => if bn1 < bn2 then bn1 else bn2
  | .max => if bn2 < bn1 then bn1 else bn2

def isWithin (bn1 bn2 bn3 : ν) : Bool := bn2 ≤ bn1 && bn1 < bn3

def MAX_SCRIPT_ELEMENT_SIZE : ℕ := 520

def vchFalse : Valtype := []
def vchTrue : Valtype := [1]

/-- Some byte is not zero; a sign alone does not count. -/
def castToBool : Valtype → Bool
  | [] => false
  | [b] => b ≠ 0 && b ≠ 0x80
  | b::vch => b ≠ 0 || castToBool vch

def vectorSize {α : Type} (v : List α) : Int64 := Int64.ofNat (Nat.min v.length (2^63-1))

/-- The digests that only scripts use, and the check that a signature has the lower one of its two
second halves. -/
structure EvalEnv where
  ripemd160 : List UInt8 → UInt160
  sha1 : List UInt8 → UInt160
  sha256 : List UInt8 → UInt256
  checkLowS : List UInt8 → Bool

def HashOp.digest (E : EvalEnv) (P : Params) (vch : Valtype) : HashOp → Valtype
  | .ripemd160 => leBytes 20 (E.ripemd160 vch).toNat
  | .sha1 => leBytes 20 (E.sha1 vch).toNat
  | .sha256 => leBytes 32 (E.sha256 vch).toNat
  | .hash160 => leBytes 20 (P.hash160 vch).toNat
  | .hash256 => leBytes 32 (P.hash vch).toNat

/-- What each interpreter does in its own way: numbers, the form of pushes, lock times and
signatures. -/
structure Rules where
  pushNumber : Int64 → Valtype
  getint : Valtype → Except ScriptError ℤ
  unary : UnaryOp → Valtype → Except ScriptError Valtype
  binary : BinaryOp → Valtype → Valtype → Except ScriptError Valtype
  within : Valtype → Valtype → Valtype → Except ScriptError Bool
  checkMinimalPush : Valtype → ℕ → Bool
  checkLockTime : List Valtype → Except ScriptError Unit
  checkSig : Valtype → Valtype → CScript → Except ScriptError Bool

structure Machine where
  stack : List Valtype
  altstack : List Valtype
  vfExec : List Bool
  nOpCount : ℕ
  pbegincodehash : CScript
  deriving DecidableEq, Repr

variable (E : EvalEnv) (P : Params) (R : Rules) (flags : UInt32)

def answer (fVerify fValue : Bool) (err : ScriptError) (stack : List Valtype) :
    Except ScriptError (List Valtype) :=
  if fVerify then (if fValue then .ok stack else .error err) else .ok ((if fValue then vchTrue else vchFalse)::stack)

/-- The keys and the signatures, each from the top of the stack. A key is tried once; there must
be as many keys left as signatures. -/
def checkSigs (scriptCode : CScript) : List Valtype → List Valtype → Except ScriptError Bool
  | _, [] => .ok true
  | [], _::_ => .ok false
  | vchPubKey::keys, vchSig::sigs => do
    let fOk ← R.checkSig vchSig vchPubKey scriptCode
    let sigs := if fOk then sigs else vchSig::sigs
    if keys.length < sigs.length then .ok false else checkSigs scriptCode keys sigs

/-- CHECKMULTISIG: the answer, the stack without the arguments and the dummy below them, and the
number of operations with the keys counted. -/
def execMultiSig (m : Machine) : Except ScriptError (Bool × List Valtype × ℕ) :=
  match m.stack with
  | [] => .error .INVALID_STACK_OPERATION
  | top::stack => do
    let nKeysCount ← R.getint top
    if nKeysCount < 0 || 20 < nKeysCount then .error .PUBKEY_COUNT
    else
      let nOpCount := m.nOpCount+nKeysCount.toNat
      if 201 < nOpCount then .error .OP_COUNT
      else match stack.drop nKeysCount.toNat with
        | [] => .error .INVALID_STACK_OPERATION
        | top'::rest => do
          let nSigsCount ← R.getint top'
          if nSigsCount < 0 || nKeysCount < nSigsCount then .error .SIG_COUNT
          else match rest.drop nSigsCount.toNat with
            | [] => .error .INVALID_STACK_OPERATION
            | dummy::rest' => do
              let sigs := rest.take nSigsCount.toNat
              let scriptCode := sigs.foldl (fun code vchSig => Consensus.findAndDelete (pushVector vchSig) code) m.pbegincodehash
              let fSuccess ← checkSigs R scriptCode (stack.take nKeysCount.toNat) sigs
              if flags &&& Flags.NULLDUMMY ≠ 0 && dummy ≠ [] then .error .SIG_NULLDUMMY
              else .ok (fSuccess,rest',nOpCount)

def execOp (fExec : Bool) (pc : CScript) (m : Machine) : Op → Except ScriptError Machine
  | .number n => .ok { m with stack := R.pushNumber n::m.stack }
  | .nop => .ok m
  | .upgradableNop => if flags &&& Flags.DISCOURAGE_UPGRADABLE_NOPS ≠ 0 then .error .DISCOURAGE_UPGRADABLE_NOPS else .ok m
  | .checkLockTimeVerify => do
    R.checkLockTime m.stack
    .ok m
  | .ifOp fNot =>
    if !fExec then .ok { m with vfExec := false::m.vfExec }
    else match m.stack with
      | [] => .error .UNBALANCED_CONDITIONAL
      | vch::stack => .ok { m with stack := stack, vfExec := (castToBool vch ^^ fNot)::m.vfExec }
  | .elseOp => match m.vfExec with
    | [] => .error .UNBALANCED_CONDITIONAL
    | f::vfExec => .ok { m with vfExec := (!f)::vfExec }
  | .endIf => match m.vfExec with
    | [] => .error .UNBALANCED_CONDITIONAL
    | _::vfExec => .ok { m with vfExec := vfExec }
  | .verify => match m.stack with
    | [] => .error .INVALID_STACK_OPERATION
    | vch::stack => if castToBool vch then .ok { m with stack := stack } else .error .VERIFY
  | .returnOp => .error .OP_RETURN
  | .toAltStack => match m.stack with
    | [] => .error .INVALID_STACK_OPERATION
    | vch::stack => .ok { m with stack := stack, altstack := vch::m.altstack }
  | .fromAltStack => match m.altstack with
    | [] => .error .INVALID_ALTSTACK_OPERATION
    | vch::altstack => .ok { m with stack := vch::m.stack, altstack := altstack }
  | .ifDup => match m.stack with
    | [] => .error .INVALID_STACK_OPERATION
    | vch::stack => .ok { m with stack := if castToBool vch then vch::vch::stack else vch::stack }
  | .depth => .ok { m with stack := R.pushNumber (vectorSize m.stack)::m.stack }
  | .pick fRoll => match m.stack with
    | top::vch::stack => do
      let n ← R.getint top
      match if n < 0 then none else (vch::stack)[n.toNat]? with
      | none => .error .INVALID_STACK_OPERATION
      | some picked =>
        .ok { m with stack := picked::if fRoll then (vch::stack).eraseIdx n.toNat else vch::stack }
    | _ => .error .INVALID_STACK_OPERATION
  | .stack op => match op.apply m.stack with
    | none => .error .INVALID_STACK_OPERATION
    | some stack => .ok { m with stack := stack }
  | .size => match m.stack with
    | [] => .error .INVALID_STACK_OPERATION
    | vch::stack => .ok { m with stack := R.pushNumber (vectorSize vch)::vch::stack }
  | .equal fVerify => match m.stack with
    | vch2::vch1::stack => do
      let stack ← answer fVerify (vch1 = vch2) .EQUALVERIFY stack
      .ok { m with stack := stack }
    | _ => .error .INVALID_STACK_OPERATION
  | .unary op => match m.stack with
    | [] => .error .INVALID_STACK_OPERATION
    | vch::stack => do
      let result ← R.unary op vch
      .ok { m with stack := result::stack }
  | .binary op => match m.stack with
    | vch2::vch1::stack => do
      let result ← R.binary op vch1 vch2
      if op = .numEqualVerify then
        if castToBool result then .ok { m with stack := stack } else .error .NUMEQUALVERIFY
      else .ok { m with stack := result::stack }
    | _ => .error .INVALID_STACK_OPERATION
  | .within => match m.stack with
    | vch3::vch2::vch1::stack => do
      let fValue ← R.within vch1 vch2 vch3
      .ok { m with stack := (if fValue then vchTrue else vchFalse)::stack }
    | _ => .error .INVALID_STACK_OPERATION
  | .hash op => match m.stack with
    | [] => .error .INVALID_STACK_OPERATION
    | vch::stack => .ok { m with stack := op.digest E P vch::stack }
  | .codeSeparator => .ok { m with pbegincodehash := pc }
  | .checkSig fVerify => match m.stack with
    | vchPubKey::vchSig::stack => do
      let scriptCode := Consensus.findAndDelete (pushVector vchSig) m.pbegincodehash
      let fSuccess ← R.checkSig vchSig vchPubKey scriptCode
      let stack ← answer fVerify fSuccess .CHECKSIGVERIFY stack
      .ok { m with stack := stack }
    | _ => .error .INVALID_STACK_OPERATION
  | .checkMultiSig fVerify => do
    let (fSuccess,rest,nOpCount) ← execMultiSig R flags m
    let stack ← answer fVerify fSuccess .CHECKMULTISIGVERIFY rest
    .ok { m with stack := stack, nOpCount := nOpCount }
  | .bad => .error .BAD_OPCODE

/-- Execute what has been read, if the conditionals around it let it. Some opcodes are looked at
in any case. -/
def exec (r : ReadOp) (m : Machine) : Except ScriptError Machine :=
  let fExec := m.vfExec.all id
  if fExec && r.opcode ≤ OP_PUSHDATA4 then
    if !R.checkMinimalPush r.data r.opcode then .error .MINIMALDATA else .ok { m with stack := r.data::m.stack }
  else if fExec || (OP_IF ≤ r.opcode && r.opcode ≤ OP_ENDIF) then execOp E P R flags fExec r.rest m (decodeOp r.opcode)
  else .ok m

def step (r : ReadOp) (m : Machine) : Except ScriptError Machine :=
  if !r.ok then .error .BAD_OPCODE
  else if MAX_SCRIPT_ELEMENT_SIZE < r.data.length then .error .PUSH_SIZE
  else
    let nOpCount := if OP_16 < r.opcode then m.nOpCount+1 else m.nOpCount
    if OP_16 < r.opcode && 201 < nOpCount then .error .OP_COUNT
    else if r.opcode ∈ disabledOpcodes then .error .DISABLED_OPCODE
    else do
      let m ← exec E P R flags r { m with nOpCount := nOpCount }
      if 1000 < m.stack.length+m.altstack.length then .error .STACK_SIZE else .ok m

def evalLoop : ℕ → CScript → Machine → Except ScriptError (List Valtype)
  | _, [], m => if m.vfExec = [] then .ok m.stack else .error .UNBALANCED_CONDITIONAL
  | 0, _, _ => .error .UNKNOWN_ERROR
  | fuel+1, pc, m => do
    let m ← step E P R flags (getOp2 pc) m
    evalLoop fuel (getOp2 pc).rest m

/-- Every turn takes at least one byte, so the length of the script is fuel enough. -/
def evalWith (stack : List Valtype) (script : CScript) : Except ScriptError (List Valtype) :=
  if 10000 < script.length then .error .SCRIPT_SIZE
  else evalLoop E P R flags script.length script ⟨stack,[],[],0,script⟩

def isCompressedOrUncompressedPubKey (vchPubKey : Valtype) : Bool :=
  match vchPubKey.head? with
  | some 0x04 => vchPubKey.length = 65
  | some 0x02 => vchPubKey.length = 33
  | some 0x03 => vchPubKey.length = 33
  | _ => false

/-- A number of a signature: it has bytes, is not negative and not padded. -/
def isDERNumber (vchSig : Valtype) (start nLen : ℕ) : Bool :=
  let byte := fun i => vchSig[i]?.getD 0
  byte (start-2) = 0x02 && nLen ≠ 0 && byte start &&& 0x80 = 0 &&
    !(1 < nLen && byte start = 0 && byte (start+1) &&& 0x80 = 0)

/-- 30, the length, 02, the length of R, R, 02, the length of S, S, and the hash type. -/
def isDERSignature (vchSig : Valtype) : Bool :=
  let byte := fun i => (vchSig[i]?.getD 0).toNat
  let nLenR := byte 3
  let nLenS := byte (5+nLenR)
  9 ≤ vchSig.length && vchSig.length ≤ 73 && byte 0 = 0x30 && byte 1 = vchSig.length-3 &&
    5+nLenR < vchSig.length && nLenR+nLenS+7 = vchSig.length &&
    isDERNumber vchSig 4 nLenR && isDERNumber vchSig (6+nLenR) nLenS

def isDefinedHashtypeSignature (E : EvalEnv) (vchSig : Valtype) : Bool :=
  vchSig ≠ [] && E.checkLowS vchSig.dropLast

namespace CBigNum

def castToBigNum (nMaxNumSize : ℕ) (vch : Valtype) : Except ScriptError ℤ :=
  if nMaxNumSize < vch.length then .error .UNKNOWN_ERROR else .ok (setvch (getvch (setvch vch)))

def isLowDERSignature (E : EvalEnv) (vchSig : Valtype) : Bool :=
  isDERSignature vchSig && E.checkLowS vchSig.dropLast

def checkSignatureEncoding (E : EvalEnv) (flags : UInt32) (vchSig : Valtype) : Bool :=
  if flags &&& Flags.ALLOW_EMPTY_SIG ≠ 0 && vchSig = [] then true
  else isLowDERSignature E vchSig && (flags &&& Flags.FIX_HASHTYPE ≠ 0 || isDefinedHashtypeSignature E vchSig)

def LOCKTIME_THRESHOLD : ℤ := 500000000

/-- The transaction is locked at least as long, by the same kind of lock, and the input is not
final. -/
def checkLockTime (txTo : CTransaction) (nIn : ℕ) (nLockTime : ℤ) : Bool :=
  let txLockTime : ℤ := txTo.nLockTime.toNat
  (decide (txLockTime < LOCKTIME_THRESHOLD) == decide (nLockTime < LOCKTIME_THRESHOLD)) && nLockTime ≤ txLockTime &&
    (txTo.vin[nIn]?).any fun txin => txin.nSequence ≠ 0xffffffff

/-- The rules of the first interpreter, with the check of signatures that it calls. It says
only that a script fails, so its errors stand for false. -/
def rules (E : EvalEnv) (checkSig : Valtype → Valtype → CScript → Bool) (txTo : CTransaction)
    (nIn : ℕ) (flags : UInt32) : Rules where
  pushNumber n := getvch n.toInt
  getint vch := do
    let bn ← castToBigNum 4 vch
    .ok (getint bn)
  unary op vch := do
    let bn ← castToBigNum 4 vch
    .ok (getvch (op.eval bn))
  binary op vch1 vch2 := do
    let bn1 ← castToBigNum 4 vch1
    let bn2 ← castToBigNum 4 vch2
    .ok (getvch (op.eval bn1 bn2))
  within vch1 vch2 vch3 := do
    let bn1 ← castToBigNum 4 vch1
    let bn2 ← castToBigNum 4 vch2
    let bn3 ← castToBigNum 4 vch3
    .ok (isWithin bn1 bn2 bn3)
  checkMinimalPush _ _ := true
  checkLockTime stack :=
    if flags &&& Flags.CHECKLOCKTIMEVERIFY = 0 then
      if flags &&& Flags.DISCOURAGE_UPGRADABLE_NOPS ≠ 0 then .error .DISCOURAGE_UPGRADABLE_NOPS else .ok ()
    else match stack with
      | [] => .error .INVALID_STACK_OPERATION
      | vch::_ => do
        let nLockTime ← castToBigNum 5 vch
        if nLockTime < 0 || !checkLockTime txTo nIn nLockTime then .error .UNKNOWN_ERROR else .ok ()
  checkSig vchSig vchPubKey scriptCode :=
    let fEncoded := checkSignatureEncoding E flags vchSig && isCompressedOrUncompressedPubKey vchPubKey
    if flags &&& Flags.STRICTENC ≠ 0 && !fEncoded then .error .UNKNOWN_ERROR
    else .ok (fEncoded && checkSig vchSig vchPubKey scriptCode)

def evalScript (E : EvalEnv) (P : Params) (checkSig : Valtype → Valtype → CScript → Bool)
    (stack : List Valtype)
    (script : CScript) (txTo : CTransaction) (nIn : ℕ) (flags : UInt32) : Option (List Valtype) :=
  (evalWith E P (rules E checkSig txTo nIn flags) flags stack script).toOption

end CBigNum

namespace CScriptNum

def ofVch (fRequireMinimal : Bool) (vch : Valtype) : Except ScriptError Int64 :=
  if nMaxNumSize < vch.length then .error .UNKNOWN_ERROR
  else if fRequireMinimal && !isMinimal vch then .error .UNKNOWN_ERROR
  else .ok (setVch vch)

def checkSignatureEncoding (E : EvalEnv) (flags : UInt32) (vchSig : Valtype) :
    Except ScriptError Unit :=
  if flags &&& (Flags.DERSIG ||| Flags.LOW_S ||| Flags.STRICTENC) ≠ 0 && !isDERSignature vchSig then .error .SIG_DER
  else if flags &&& Flags.LOW_S ≠ 0 && !E.checkLowS vchSig.dropLast then .error .UNKNOWN_ERROR
  else if flags &&& Flags.STRICTENC ≠ 0 && !isDefinedHashtypeSignature E vchSig then .error .SIG_HASHTYPE
  else .ok ()

def checkPubKeyEncoding (flags : UInt32) (vchPubKey : Valtype) : Except ScriptError Unit :=
  if flags &&& Flags.STRICTENC ≠ 0 && !isCompressedOrUncompressedPubKey vchPubKey then .error .PUBKEYTYPE else .ok ()

/-- The push with the fewest bytes. -/
def checkMinimalPush (data : Valtype) (opcode : ℕ) : Bool :=
  match data with
  | [] => opcode = 0
  | [b] => if 1 ≤ b && b ≤ 16 then opcode = OP_1+(b.toNat-1) else if b = 0x81 then opcode = OP_1NEGATE else opcode = 1
  | _ =>
    if data.length ≤ 75 then opcode = data.length
    else if data.length ≤ 255 then opcode = OP_PUSHDATA1
    else if data.length ≤ 65535 then opcode = OP_PUSHDATA2
    else true

/-- The rules of the second interpreter, with the check of signatures of its checker. Lock
times are no operation of it. -/
def rules (E : EvalEnv) (checker : Valtype → Valtype → CScript → Bool) (flags : UInt32) : Rules :=
  let fRequireMinimal := flags &&& Flags.MINIMALDATA ≠ 0
  { pushNumber := serialize
    getint := fun vch => do
      let bn ← ofVch fRequireMinimal vch
      .ok (getint bn)
    unary := fun op vch => do
      let bn ← ofVch fRequireMinimal vch
      .ok (serialize (op.eval bn))
    binary := fun op vch1 vch2 => do
      let bn1 ← ofVch fRequireMinimal vch1
      let bn2 ← ofVch fRequireMinimal vch2
      .ok (serialize (op.eval bn1 bn2))
    within := fun vch1 vch2 vch3 => do
      let bn1 ← ofVch fRequireMinimal vch1
      let bn2 ← ofVch fRequireMinimal vch2
      let bn3 ← ofVch fRequireMinimal vch3
      .ok (isWithin bn1 bn2 bn3)
    checkMinimalPush := fun data opcode => !fRequireMinimal || checkMinimalPush data opcode
    checkLockTime := fun _ =>
      if flags &&& Flags.DISCOURAGE_UPGRADABLE_NOPS ≠ 0 then .error .DISCOURAGE_UPGRADABLE_NOPS else .ok ()
    checkSig := fun vchSig vchPubKey scriptCode => do
      checkSignatureEncoding E flags vchSig
      checkPubKeyEncoding flags vchPubKey
      .ok (checker vchSig vchPubKey scriptCode) }

def evalScript (E : EvalEnv) (P : Params) (stack : List Valtype) (script : CScript) (flags : UInt32)
    (checker : Valtype → Valtype → CScript → Bool) : Except ScriptError (List Valtype) :=
  evalWith E P (rules E checker flags) flags stack script

end CScriptNum

theorem toInt_numOfBool (b) : (numOfBool b : Int64).toInt = numOfBool b := by
  cases b <;> rfl

theorem toInt_unary {bn : Int64} (h : Small bn.toInt) (op : UnaryOp) :
    (op.eval bn).toInt = op.eval bn.toInt := by
  rcases h with ⟨hlow,hhigh⟩
  have hzero : bn = 0 ↔ bn.toInt = 0 := Int64.toInt_inj.symm
  have hneg : bn < 0 ↔ bn.toInt < 0 := Int64.lt_iff_toInt_lt
  have hflip : (-bn).toInt = -bn.toInt := by rw [Int64.toInt_neg,bmod_of_small (by omega) (by omega)]
  cases op with
  | add1 =>
    show (bn+1).toInt = bn.toInt+1
    rw [Int64.toInt_add]
    exact bmod_of_small (show _ ≤ bn.toInt+1 by omega) (show bn.toInt+1 < _ by omega)
  | sub1 =>
    show (bn-1).toInt = bn.toInt-1
    rw [Int64.toInt_sub]
    exact bmod_of_small (show _ ≤ bn.toInt-1 by omega) (show bn.toInt-1 < _ by omega)
  | negate => exact hflip
  | abs =>
    simp only [UnaryOp.eval,hneg]
    split_ifs
    · exact hflip
    · rfl
  | not => simp only [UnaryOp.eval,toInt_numOfBool,hzero]
  | notEqual0 => simp only [UnaryOp.eval,toInt_numOfBool,ne_eq,hzero]

theorem toInt_binary {bn1 bn2 : Int64} (h1 : Small bn1.toInt) (h2 : Small bn2.toInt)
    (op : BinaryOp) :
    (op.eval bn1 bn2).toInt = op.eval bn1.toInt bn2.toInt := by
  rcases h1 with ⟨hlow₁,hhigh₁⟩
  rcases h2 with ⟨hlow₂,hhigh₂⟩
  have hzero : ∀ bn : Int64, bn = 0 ↔ bn.toInt = 0 := fun _ => Int64.toInt_inj.symm
  have heq : bn1 = bn2 ↔ bn1.toInt = bn2.toInt := Int64.toInt_inj.symm
  cases op with
  | add =>
    show (bn1+bn2).toInt = bn1.toInt+bn2.toInt
    rw [Int64.toInt_add,bmod_of_small (by omega) (by omega)]
  | sub =>
    show (bn1-bn2).toInt = bn1.toInt-bn2.toInt
    rw [Int64.toInt_sub,bmod_of_small (by omega) (by omega)]
  | boolAnd | boolOr => simp only [BinaryOp.eval,toInt_numOfBool,ne_eq,hzero]
  | numEqual | numEqualVerify | numNotEqual => simp only [BinaryOp.eval,toInt_numOfBool,ne_eq,heq]
  | lessThan | greaterThan | lessThanOrEqual | greaterThanOrEqual =>
    simp only [BinaryOp.eval,toInt_numOfBool,Int64.lt_iff_toInt_lt,Int64.le_iff_toInt_le]
  | min | max =>
    simp only [BinaryOp.eval,Int64.lt_iff_toInt_lt]
    split_ifs <;> rfl

theorem isWithin_toInt (bn1 bn2 bn3 : Int64) :
    isWithin bn1 bn2 bn3 = isWithin bn1.toInt bn2.toInt bn3.toInt := by
  simp only [isWithin,Int64.lt_iff_toInt_lt,Int64.le_iff_toInt_le]

open CScriptNum

theorem cast_cases (vch) :
    (CBigNum.castToBigNum 4 vch = .error .UNKNOWN_ERROR ∧ ofVch false vch = .error .UNKNOWN_ERROR) ∨
      ∃ bn : Int64, Small bn.toInt ∧ CBigNum.castToBigNum 4 vch = .ok bn.toInt ∧
      ofVch false vch = .ok bn := by
  unfold CBigNum.castToBigNum ofVch
  by_cases hlen : 4 < vch.length
  · exact .inl ⟨if_pos hlen,if_pos hlen⟩
  · have hread := toInt_setVch (le_of_not_gt hlen)
    refine .inr ⟨setVch vch,?_,?_,?_⟩
    · rw [hread]
      exact small_setvch (le_of_not_gt hlen)
    · rw [if_neg hlen,setvch_getvch,hread]
    · exact if_neg hlen

variable {E} {P} {R} {flags}

/-- Where pushes and numbers may be longer than they need to be, the rules for numbers are the
same. -/
theorem rules_numbers (hminimal : flags &&& Flags.MINIMALDATA = 0) (checkSig checker txTo) (nIn : ℕ)
    (flags' : UInt32) :
    CBigNum.rules E checkSig txTo nIn flags' = { rules E checker flags with
        checkMinimalPush := (CBigNum.rules E checkSig txTo nIn flags').checkMinimalPush
        checkLockTime := (CBigNum.rules E checkSig txTo nIn flags').checkLockTime
        checkSig := (CBigNum.rules E checkSig txTo nIn flags').checkSig } := by
  have hmin : decide (flags &&& Flags.MINIMALDATA ≠ 0) = false := by simp [hminimal]
  unfold CBigNum.rules rules
  simp only [hmin,Rules.mk.injEq,and_true]
  refine ⟨?_,?_,?_,?_,?_⟩
  · funext n
    exact (serialize_eq_getvch n).symm
  · funext vch
    rcases cast_cases vch with ⟨h1,h2⟩ | ⟨bn,hbn,h1,h2⟩
    · rw [h1,h2]
      rfl
    · rw [h1,h2]
      show Except.ok (CBigNum.getint bn.toInt) = .ok (getint bn)
      rw [getint_eq hbn,getint_toInt hbn]
  · funext op vch
    rcases cast_cases vch with ⟨h1,h2⟩ | ⟨bn,hbn,h1,h2⟩
    · rw [h1,h2]
      rfl
    · rw [h1,h2]
      show Except.ok (getvch (op.eval bn.toInt)) = .ok (serialize (op.eval bn))
      rw [serialize_eq_getvch,toInt_unary hbn]
  · funext op vch1 vch2
    rcases cast_cases vch1 with ⟨h1,h2⟩ | ⟨bn1,hbn1,h1,h2⟩
    · rw [h1,h2]
      rfl
    · rw [h1,h2]
      rcases cast_cases vch2 with ⟨h3,h4⟩ | ⟨bn2,hbn2,h3,h4⟩
      · rw [h3,h4]
        rfl
      · rw [h3,h4]
        show Except.ok (getvch (op.eval bn1.toInt bn2.toInt)) = .ok (serialize (op.eval bn1 bn2))
        rw [serialize_eq_getvch,toInt_binary hbn1 hbn2]
  · funext vch1 vch2 vch3
    rcases cast_cases vch1 with ⟨h1,h2⟩ | ⟨bn1,hbn1,h1,h2⟩
    · rw [h1,h2]
      rfl
    · rcases cast_cases vch2 with ⟨h3,h4⟩ | ⟨bn2,hbn2,h3,h4⟩
      · rw [h1,h2,h3,h4]
        rfl
      · rcases cast_cases vch3 with ⟨h5,h6⟩ | ⟨bn3,hbn3,h5,h6⟩
        · rw [h1,h2,h3,h4,h5,h6]
          rfl
        · rw [h1,h2,h3,h4,h5,h6]
          show Except.ok (isWithin bn1.toInt bn2.toInt bn3.toInt) = .ok (isWithin bn1 bn2 bn3)
          rw [isWithin_toInt]

theorem rules_eq (hminimal : flags &&& Flags.MINIMALDATA = 0)
    (hlock : flags &&& Flags.CHECKLOCKTIMEVERIFY = 0) (checkSig checker txTo nIn) :
    CBigNum.rules E checkSig txTo nIn flags =
      { rules E checker flags with checkSig := (CBigNum.rules E checkSig txTo nIn flags).checkSig
        } := by
  have hpush : (CBigNum.rules E checkSig txTo nIn flags).checkMinimalPush =
      (rules E checker flags).checkMinimalPush := by
    funext data opcode
    simp [CBigNum.rules,rules,hminimal]
  have htime : (CBigNum.rules E checkSig txTo nIn flags).checkLockTime =
      (rules E checker flags).checkLockTime := by
    funext stack
    exact if_pos hlock
  conv_lhs => rw [rules_numbers hminimal checkSig checker txTo nIn flags,hpush,htime]

def Op.checksSig : Op → Bool
  | .checkSig _ => true
  | .checkMultiSig _ => true
  | _ => false

theorem execOp_congr {op} (hop : op.checksSig = false) (check fExec pc m) :
    execOp E P { R with checkSig := check } flags fExec pc m op =
      execOp E P R flags fExec pc m op := by
  cases op with
  | checkSig fVerify => cases hop
  | checkMultiSig fVerify => cases hop
  | _ => rfl

def signatureOpcodes : List ℕ :=
  [OP_CHECKSIG,OP_CHECKSIGVERIFY,OP_CHECKMULTISIG,OP_CHECKMULTISIGVERIFY]

theorem checksSig_decodeOp {opcode} (h : opcode ∉ signatureOpcodes) :
    (decodeOp opcode).checksSig = false := by
  have htable : ∀ p ∈ opTable, p.2.checksSig → p.1 ∈ signatureOpcodes := by decide
  unfold decodeOp
  split_ifs
  · rfl
  · cases hlookup : opTable.lookup opcode with
    | none => rfl
    | some op =>
      obtain ⟨l₁,l₂,hl,-⟩ := List.lookup_eq_some_iff.mp hlookup
      have hmem : (opcode,op) ∈ opTable := hl ▸ List.mem_append_right l₁ List.mem_cons_self
      cases hop : op.checksSig with
      | false => exact hop
      | true => exact absurd (htable _ hmem hop) h

theorem step_congr {r} (h : r.opcode ∉ signatureOpcodes) (check m) :
    step E P { R with checkSig := check } flags r m = step E P R flags r m := by
  unfold step exec
  simp only [execOp_congr (checksSig_decodeOp h)]

def opcodes : ℕ → CScript → List ℕ
  | 0, _ => []
  | _, [] => []
  | fuel+1, pc =>
    let r := getOp2 pc
    if r.ok then r.opcode::opcodes fuel r.rest else []

def SignatureFree (script : CScript) : Prop :=
  ∀ opcode ∈ opcodes script.length script, opcode ∉ signatureOpcodes

instance (script : CScript) : Decidable (SignatureFree script) :=
  inferInstanceAs (Decidable (∀ opcode ∈ opcodes script.length script, opcode ∉ signatureOpcodes))

theorem evalLoop_congr (check fuel pc) (h : ∀ opcode ∈ opcodes fuel pc, opcode ∉ signatureOpcodes)
    (m) :
    evalLoop E P { R with checkSig := check } flags fuel pc m = evalLoop E P R flags fuel pc m := by
  induction fuel generalizing pc m with
  | zero => cases pc <;> rfl
  | succ fuel ih =>
    cases pc with
    | nil => rfl
    | cons b pc =>
      simp only [evalLoop]
      cases hok : (getOp2 (b::pc)).ok with
      | false =>
        -- a failed read ends both
        simp [step,hok]
        rfl
      | true =>
        have hops : opcodes (fuel+1) (b::pc) = (getOp2 (b::pc)).opcode::opcodes fuel (getOp2 (b::pc)).rest := by
          simp [opcodes,hok]
        rw [hops] at h
        rw [step_congr (h _ List.mem_cons_self)]
        congr 1
        funext m
        exact ih _ (fun opcode hopcode => h opcode (List.mem_cons_of_mem _ hopcode)) m

/-- The two interpreters agree on every script that checks no signature, from every stack and
under every flags without the two: both fail, or both leave the same stack. A lock time
without its flag is no operation in both, so it need not be left out. -/
theorem evalScript_agree (hminimal : flags &&& Flags.MINIMALDATA = 0)
    (hlock : flags &&& Flags.CHECKLOCKTIMEVERIFY = 0)
    (checkSig checker : Valtype → Valtype → CScript → Bool) (txTo : CTransaction) (nIn : ℕ)
    (stack : List Valtype) (script : CScript) (hscript : SignatureFree script) :
    CBigNum.evalScript E P checkSig stack script txTo nIn flags =
      (evalScript E P stack script flags checker).toOption := by
  unfold CBigNum.evalScript evalScript evalWith
  split_ifs
  · rfl
  · rw [rules_eq hminimal hlock checkSig checker txTo nIn,evalLoop_congr _ _ _ hscript]

def Sample.evalEnv : EvalEnv := ⟨fun _ => 0,fun _ => 0,fun _ => 0,fun _ => true⟩

/-- Two pushes of numbers of one and two bytes, their sum, and the size of it. -/
def Sample.sumScript : CScript := [0x01,0x85,0x02,0x7b,0x01,0x93,0x82]

open DarkSilk.Script.Sample

theorem evalScript_agree_sum : SignatureFree sumScript ∧
      CBigNum.evalScript evalEnv DarkSilk.Sample.signParams (fun _ _ _ => false) [] sumScript
        DarkSilk.Sample.signedPay 0 Flags.STRICTENC = some [[2],[0x76,0x01]] ∧
      CBigNum.evalScript evalEnv DarkSilk.Sample.signParams (fun _ _ _ => false) [] sumScript
        DarkSilk.Sample.signedPay 0 Flags.STRICTENC =
          (evalScript evalEnv DarkSilk.Sample.signParams [] sumScript Flags.STRICTENC
            (fun _ _ _ => true)).toOption :=
  ⟨by decide,by decide +kernel,evalScript_agree (by decide) (by decide) _ _ _ _ _ _ (by decide)⟩

end Script

end DarkSilk
