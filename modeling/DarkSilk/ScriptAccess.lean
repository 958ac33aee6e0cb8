import DarkSilk.VerifyScript

/-! The interpreter of blocks with every access to its stacks written out. An element is
reached by its distance from the top, an access behind the end is an outcome of its own, and
the calls of CheckSig are counted. The results are those of the interpreter on lists; no
access is out of range, whatever the script is. -/
namespace DarkSilk

open PrefixCode List Bool

namespace Script
namespace Access

inductive Stop
  | error (err : ScriptError) | outOfRange | outOfFuel
  deriving DecidableEq, Repr

/-- A computation on the stacks, with the number of calls of CheckSig. -/
def Eval (α : Type) : Type := Machine → ℕ × Except Stop (α × Machine)

instance : Monad Eval where
  pure a := fun m => (0,.ok (a,m))
  bind x f := fun m => match x m with
    | (n,.error stop) => (n,.error stop)
    | (n,.ok (a,m')) => ((f a m').1+n,(f a m').2)

structure Context where
  E : EvalEnv
  P : Params
  checkSig : Valtype → Valtype → CScript → Bool
  txTo : CTransaction
  nIn : ℕ
  flags : UInt32

def Context.rules (C : Context) : Rules := CBigNum.rules C.E C.checkSig C.txTo C.nIn C.flags

def fail {α : Type} (err : ScriptError) : Eval α := fun _ => (0,.error (.error err))

def failIf (c : Bool) (err : ScriptError) : Eval Unit := if c then fail err else pure ()

def lift {α : Type} (x : Except ScriptError α) : Eval α := fun m => (0,match x with
  | .error err => .error (.error err)
  | .ok a => .ok (a,m))

def getMachine : Eval Machine := fun m => (0,.ok (m,m))

def setStack (f : List Valtype → Option (List Valtype)) : Eval Unit :=
  fun m => (0,match f m.stack with
  | none => .error .outOfRange
  | some stack => .ok ((),{ m with stack := stack }))

def stackSize : Eval ℕ := do return (← getMachine).stack.length

/-- The element with this number from the top, which has number one. -/
def stacktop (i : ℕ) : Eval Valtype := fun m => (0,match i with
  | 0 => .error .outOfRange
  | i+1 => match m.stack[i]? with
    | none => .error .outOfRange
    | some vch => .ok (vch,m))

def popstack : Eval Unit := setStack fun
  | [] => none
  | _::stack => some stack

def pushBack (vch : Valtype) : Eval Unit := setStack fun stack => some (vch::stack)

/-- So many elements from the one with this number on upwards are erased. -/
def eraseTop (i n : ℕ) : Eval Unit := setStack fun stack =>
  if n ≤ i ∧ i ≤ stack.length then some (stack.take (i-n)++stack.drop i) else none

/-- An element is inserted below so many others. -/
def insertTop (i : ℕ) (vch : Valtype) : Eval Unit := setStack fun stack =>
  if i ≤ stack.length then some (stack.take i++vch::stack.drop i) else none

def swapTop (i j : ℕ) : Eval Unit := do
  let vch ← stacktop i
  let vch' ← stacktop j
  setStack fun stack => some ((stack.set (i-1) vch').set (j-1) vch)

def pushAlt (vch : Valtype) : Eval Unit :=
  fun m => (0,.ok ((),{ m with altstack := vch::m.altstack }))

def altstacktop : Eval Valtype := fun m => (0,match m.altstack with
  | [] => .error .outOfRange
  | vch::_ => .ok (vch,m))

def popAlt : Eval Unit := fun m => (0,match m.altstack with
  | [] => .error .outOfRange
  | _::altstack => .ok ((),{ m with altstack := altstack }))

def pushExec (f : Bool) : Eval Unit := fun m => (0,.ok ((),{ m with vfExec := f::m.vfExec }))

def negateExec : Eval Unit := fun m => (0,match m.vfExec with
  | [] => .error .outOfRange
  | f::vfExec => .ok ((),{ m with vfExec := (!f)::vfExec }))

def popExec : Eval Unit := fun m => (0,match m.vfExec with
  | [] => .error .outOfRange
  | _::vfExec => .ok ((),{ m with vfExec := vfExec }))

/-- There are that many elements, or the script fails. -/
def need (n : ℕ) : Eval Unit := do failIf ((← stackSize) < n) .INVALID_STACK_OPERATION

/-- The answer is left on the stack, and taken off again if the script goes on only with a
true one. -/
def pushAnswer (fVerify fValue : Bool) (err : ScriptError) : Eval Unit := do
  pushBack (if fValue then vchTrue else vchFalse)
  if fVerify then
    if fValue then popstack else fail err

variable (C : Context)

def execStackOp : StackOp → Eval Unit
  | .drop2 => do
    need 2
    popstack
    popstack
  | .dup2 => do
    need 2
    let vch1 ← stacktop 2
    let vch2 ← stacktop 1
    pushBack vch1
    pushBack vch2
  | .dup3 => do
    need 3
    let vch1 ← stacktop 3
    let vch2 ← stacktop 2
    let vch3 ← stacktop 1
    pushBack vch1
    pushBack vch2
    pushBack vch3
  | .over2 => do
    need 4
    let vch1 ← stacktop 4
    let vch2 ← stacktop 3
    pushBack vch1
    pushBack vch2
  | .rot2 => do
    need 6
    let vch1 ← stacktop 6
    let vch2 ← stacktop 5
    eraseTop 6 2
    pushBack vch1
    pushBack vch2
  | .swap2 => do
    need 4
    swapTop 4 2
    swapTop 3 1
  | .drop => do
    need 1
    popstack
  | .dup => do
    need 1
    let vch ← stacktop 1
    pushBack vch
  | .nip => do
    need 2
    eraseTop 2 1
  | .over => do
    need 2
    let vch ← stacktop 2
    pushBack vch
  | .rot => do
    need 3
    swapTop 3 2
    swapTop 2 1
  | .swap => do
    need 2
    swapTop 2 1
  | .tuck => do
    need 2
    let vch ← stacktop 1
    insertTop 2 vch

/-- The check of a signature. CheckSig is called only for a signature and a key of the right
form. -/
def callCheckSig (vchSig vchPubKey : Valtype) (scriptCode : CScript) : Eval Bool := fun m =>
  let fEncoded := CBigNum.checkSignatureEncoding C.E C.flags vchSig && isCompressedOrUncompressedPubKey vchPubKey
  if C.flags &&& Flags.STRICTENC ≠ 0 && !fEncoded then (0,.error (.error .UNKNOWN_ERROR))
  else if fEncoded then (1,.ok (C.checkSig vchSig vchPubKey scriptCode,m))
  else (0,.ok (false,m))

/-- The signatures are dropped from the script code, from this one on. -/
def dropSigs : ℕ → ℕ → CScript → Eval CScript
  | 0, _, scriptCode => pure scriptCode
  | k+1, isig, scriptCode => do
    let vchSig ← stacktop isig
    dropSigs k (isig+1) (Consensus.findAndDelete (pushVector vchSig) scriptCode)

/-- Every turn uses up a key. -/
def checkKeys (scriptCode : CScript) : ℕ → ℕ → ℕ → ℕ → Eval Bool
  | _, 0, _, _ => pure true
  | 0, _+1, _, _ => fun _ => (0,.error .outOfFuel)
  | nKeysCount+1, nSigsCount+1, ikey, isig => do
    let vchSig ← stacktop isig
    let vchPubKey ← stacktop ikey
    let fOk ← callCheckSig C vchSig vchPubKey scriptCode
    let nSigsCount' := if fOk then nSigsCount else nSigsCount+1
    if nKeysCount < nSigsCount' then pure false
    else checkKeys scriptCode nKeysCount nSigsCount' (ikey+1) (if fOk then isig+1 else isig)

def popMany : ℕ → Eval Unit
  | 0 => pure ()
  | n+1 => do
    popstack
    popMany n

def addOps (n : ℕ) : Eval Unit := fun m => (0,.ok ((),{ m with nOpCount := m.nOpCount+n }))

def getint (vch : Valtype) : Eval ℤ := lift (C.rules.getint vch)

def execCheckMultiSig (fVerify : Bool) : Eval Unit := do
  need 1
  let nKeysCount ← getint C (← stacktop 1)
  failIf (nKeysCount < 0 || 20 < nKeysCount) .PUBKEY_COUNT
  addOps nKeysCount.toNat
  failIf (201 < (← getMachine).nOpCount) .OP_COUNT
  let i := 2+nKeysCount.toNat
  need i
  let nSigsCount ← getint C (← stacktop i)
  failIf (nSigsCount < 0 || nKeysCount < nSigsCount) .SIG_COUNT
  let isig := i+1
  let i := isig+nSigsCount.toNat
  need i
  let scriptCode ← dropSigs nSigsCount.toNat isig (← getMachine).pbegincodehash
  let fSuccess ← checkKeys C scriptCode nKeysCount.toNat nSigsCount.toNat 2 isig
  popMany (i-1)
  need 1
  if C.flags &&& Flags.NULLDUMMY ≠ 0 then failIf ((← stacktop 1) ≠ []) .SIG_NULLDUMMY
  popstack
  pushAnswer fVerify fSuccess .CHECKMULTISIGVERIFY

def execLockTime : Eval Unit :=
  if C.flags &&& Flags.CHECKLOCKTIMEVERIFY = 0 then
    failIf (C.flags &&& Flags.DISCOURAGE_UPGRADABLE_NOPS ≠ 0) .DISCOURAGE_UPGRADABLE_NOPS
  else do
    need 1
    let nLockTime ← lift (CBigNum.castToBigNum 5 (← stacktop 1))
    failIf (nLockTime < 0 || !CBigNum.checkLockTime C.txTo C.nIn nLockTime) .UNKNOWN_ERROR

def execOp (fExec : Bool) (pc : CScript) : Op → Eval Unit
  | .number n => pushBack (C.rules.pushNumber n)
  | .nop => pure ()
  | .upgradableNop => failIf (C.flags &&& Flags.DISCOURAGE_UPGRADABLE_NOPS ≠ 0) .DISCOURAGE_UPGRADABLE_NOPS
  | .checkLockTimeVerify => execLockTime C
  | .ifOp fNot =>
    if fExec then do
      failIf ((← stackSize) < 1) .UNBALANCED_CONDITIONAL
      let vch ← stacktop 1
      popstack
      pushExec (castToBool vch ^^ fNot)
    else pushExec false
  | .elseOp => do
    failIf ((← getMachine).vfExec = []) .UNBALANCED_CONDITIONAL
    negateExec
  | .endIf => do
    failIf ((← getMachine).vfExec = []) .UNBALANCED_CONDITIONAL
    popExec
  | .verify => do
    need 1
    let vch ← stacktop 1
    if castToBool vch then popstack else fail .VERIFY
  | .returnOp => fail .OP_RETURN
  | .toAltStack => do
    need 1
    let vch ← stacktop 1
    pushAlt vch
    popstack
  | .fromAltStack => do
    failIf ((← getMachine).altstack.length < 1) .INVALID_ALTSTACK_OPERATION
    let vch ← altstacktop
    pushBack vch
    popAlt
  | .ifDup => do
    need 1
    let vch ← stacktop 1
    if castToBool vch then pushBack vch
  | .depth => do
    let m ← getMachine
    pushBack (C.rules.pushNumber (vectorSize m.stack))
  | .pick fRoll => do
    need 2
    let n ← getint C (← stacktop 1)
    popstack
    failIf (n < 0 || (← stackSize) ≤ n) .INVALID_STACK_OPERATION
    let vch ← stacktop (n.toNat+1)
    if fRoll then eraseTop (n.toNat+1) 1
    pushBack vch
  | .stack op => execStackOp op
  | .size => do
    need 1
    let vch ← stacktop 1
    pushBack (C.rules.pushNumber (vectorSize vch))
  | .equal fVerify => do
    need 2
    let vch1 ← stacktop 2
    let vch2 ← stacktop 1
    popstack
    popstack
    pushAnswer fVerify (vch1 = vch2) .EQUALVERIFY
  | .unary op => do
    need 1
    let bn ← lift (C.rules.unary op (← stacktop 1))
    popstack
    pushBack bn
  | .binary op => do
    need 2
    let bn ← lift (C.rules.binary op (← stacktop 2) (← stacktop 1))
    popstack
    popstack
    pushBack bn
    if op = .numEqualVerify then
      if castToBool (← stacktop 1) then popstack else fail .NUMEQUALVERIFY
  | .within => do
    need 3
    let fValue ← lift (C.rules.within (← stacktop 3) (← stacktop 2) (← stacktop 1))
    popstack
    popstack
    popstack
    pushBack (if fValue then vchTrue else vchFalse)
  | .hash op => do
    need 1
    let vch ← stacktop 1
    popstack
    pushBack (op.digest C.E C.P vch)
  | .codeSeparator => fun m => (0,.ok ((),{ m with pbegincodehash := pc }))
  | .checkSig fVerify => do
    need 2
    let vchSig ← stacktop 2
    let vchPubKey ← stacktop 1
    let scriptCode := Consensus.findAndDelete (pushVector vchSig) (← getMachine).pbegincodehash
    let fSuccess ← callCheckSig C vchSig vchPubKey scriptCode
    popstack
    popstack
    pushAnswer fVerify fSuccess .CHECKSIGVERIFY
  | .checkMultiSig fVerify => execCheckMultiSig C fVerify
  | .bad => fail .BAD_OPCODE

def exec (r : ReadOp) : Eval Unit := do
  let fExec := (← getMachine).vfExec.all id
  if fExec && r.opcode ≤ OP_PUSHDATA4 then pushBack r.data
  else if fExec || (OP_IF ≤ r.opcode && r.opcode ≤ OP_ENDIF) then
    execOp C fExec r.rest (decodeOp r.opcode)

def step (r : ReadOp) : Eval Unit := do
  failIf (!r.ok) .BAD_OPCODE
  failIf (MAX_SCRIPT_ELEMENT_SIZE < r.data.length) .PUSH_SIZE
  if OP_16 < r.opcode then
    addOps 1
    failIf (201 < (← getMachine).nOpCount) .OP_COUNT
  failIf (r.opcode ∈ disabledOpcodes) .DISABLED_OPCODE
  exec C r
  let m ← getMachine
  failIf (1000 < m.stack.length+m.altstack.length) .STACK_SIZE

def evalLoop : ℕ → CScript → Eval Unit
  | _, [] => do failIf ((← getMachine).vfExec ≠ []) .UNBALANCED_CONDITIONAL
  | 0, _::_ => fun _ => (0,.error .outOfFuel)
  | fuel+1, pc => do
    step C (getOp2 pc)
    evalLoop fuel (getOp2 pc).rest

/-- The calls of CheckSig and the stack that the script leaves. -/
def evalScript (stack : List Valtype) (script : CScript) : ℕ × Except Stop (List Valtype) :=
  if 10000 < script.length then (0,.error (.error .SCRIPT_SIZE))
  else
    let r := evalLoop C script.length script ⟨stack,[],[],0,script⟩
    (r.1,r.2.map fun a => a.2.stack)

/-- The answer, or an access out of range or a loop that does not end, and the calls of
CheckSig in the script of the input, that of the output and the one behind its hash. -/
structure Verdict where
  result : Except Stop Bool
  sigCalls : ℕ
  pubKeyCalls : ℕ
  redeemCalls : ℕ

/-- A script that fails makes the answer false. -/
def Stop.verdict : Stop → Except Stop Bool
  | .error _ => .ok false
  | stop => .error stop

def back : List Valtype → Except Stop Valtype
  | [] => .error .outOfRange
  | vch::_ => .ok vch

/-- The last element is looked at only if there is one. -/
def backTrue (stack : List Valtype) : Except Stop Bool :=
  if stack = [] then .ok false else (back stack).map castToBool

def verifyScript (scriptSig scriptPubKey : CScript) : Verdict :=
  match evalScript C [] scriptSig with
  | (n₁,.error stop) => ⟨stop.verdict,n₁,0,0⟩
  | (n₁,.ok stackCopy) =>
    match evalScript C stackCopy scriptPubKey with
    | (n₂,.error stop) => ⟨stop.verdict,n₁,n₂,0⟩
    | (n₂,.ok stack) =>
      match backTrue stack with
      | .error stop => ⟨.error stop,n₁,n₂,0⟩
      | .ok false => ⟨.ok false,n₁,n₂,0⟩
      | .ok true =>
        if !isPayToScriptHash scriptPubKey then ⟨.ok true,n₁,n₂,0⟩
        else if !isPushOnly scriptSig then ⟨.ok false,n₁,n₂,0⟩
        else match back stackCopy with
          | .error stop => ⟨.error stop,n₁,n₂,0⟩
          | .ok pubKeySerialized =>
            match evalScript C stackCopy.tail pubKeySerialized with
            | (n₃,.error stop) => ⟨stop.verdict,n₁,n₂,n₃⟩
            | (n₃,.ok stack) => ⟨backTrue stack,n₁,n₂,n₃⟩

variable {α β : Type}

theorem bind_eq (x) (f : α → Eval β) (m) : (x >>= f) m = match x m with
    | (n,.error stop) => (n,.error stop)
    | (n,.ok (a,m')) => ((f a m').1+n,(f a m').2) := rfl

theorem bind_of_ok {x m m' a} (h : x m = (0,.ok (a,m'))) (f : α → Eval β) :
    (x >>= f) m = f a m' := by
  rw [bind_eq,h]
  rfl

theorem failIf_bind (c : Bool) (err : ScriptError) (f : Unit → Eval β) (m : Machine) :
    (failIf c err >>= f) m = if c then (0,.error (.error err)) else f () m := by
  cases c <;> rfl

theorem failIf_eq (c err m) :
    failIf c err m = if c then (0,.error (.error err)) else (0,.ok ((),m)) := by
  cases c <;> rfl

theorem lift_bind (x) (f : α → Eval β) (m) : (lift x >>= f) m = match x with
      | .error err => (0,.error (.error err))
      | .ok a => f a m := by
  cases x <;> rfl

/-- The result of the interpreter on lists, as one with accesses. -/
def outcome : Except ScriptError Machine → Except Stop (Unit × Machine)
  | .error err => .error (.error err)
  | .ok m => .ok ((),m)

def stackOutcome (m : Machine) : Option (List Valtype) → Except ScriptError Machine
  | none => .error .INVALID_STACK_OPERATION
  | some stack => .ok { m with stack := stack }

theorem failIf_calls {c p f r m N} [Decidable p] (hc : c = true ↔ p) {err : ScriptError}
    (h : ¬p → ∃ n ≤ N, f () m = (n,outcome r)) :
    ∃ n ≤ N, (failIf c err >>= f : Eval Unit) m = (n,outcome (if p then .error err else r)) := by
  rw [failIf_bind]
  by_cases hp : p
  · rw [if_pos (hc.mpr hp),if_pos hp]
    exact ⟨0,Nat.zero_le N,rfl⟩
  · rw [if_neg (mt hc.mp hp),if_neg hp]
    exact h hp

theorem execStackOp_eq (op m) :
    execStackOp op m = (0,outcome (stackOutcome m (op.apply m.stack))) := by
  obtain ⟨stack,alt,vf,n,pb⟩ := m
  cases op with
  | drop | dup => rcases stack with _ | ⟨x,s⟩ <;> rfl
  | dup3 | rot => rcases stack with _ | ⟨x₃,_ | ⟨x₂,_ | ⟨x₁,s⟩⟩⟩ <;> rfl
  | over2 | swap2 => rcases stack with _ | ⟨x₄,_ | ⟨x₃,_ | ⟨x₂,_ | ⟨x₁,s⟩⟩⟩⟩ <;> rfl
  | rot2 => rcases stack with _ | ⟨x₆,_ | ⟨x₅,_ | ⟨x₄,_ | ⟨x₃,_ | ⟨x₂,_ | ⟨x₁,s⟩⟩⟩⟩⟩⟩ <;> rfl
  | _ => rcases stack with _ | ⟨x₂,_ | ⟨x₁,s⟩⟩ <;> rfl

open CBigNum

theorem execLockTime_eq (m) : execLockTime C m = (0,outcome (do
    C.rules.checkLockTime m.stack
    .ok m)) := by
  obtain ⟨stack,alt,vf,n,pb⟩ := m
  dsimp only [execLockTime,Context.rules,rules]
  by_cases hflag : C.flags &&& Flags.CHECKLOCKTIMEVERIFY = 0
  · rw [if_pos hflag,if_pos hflag,failIf_eq]
    by_cases hnops : C.flags &&& Flags.DISCOURAGE_UPGRADABLE_NOPS = 0
    · simp only [hnops,ne_eq,not_true_eq_false,decide_false,false_eq_true,if_false]
      rfl
    · simp only [hnops,ne_eq,not_false_eq_true,decide_true,if_true]
      rfl
  · rw [if_neg hflag,if_neg hflag]
    rcases stack with _ | ⟨vch,s⟩
    · rfl
    · change (lift (castToBigNum 5 vch) >>= _) _ = _
      rw [lift_bind]
      dsimp only
      cases castToBigNum 5 vch with
      | error err => rfl
      | ok nLockTime =>
        simp only [failIf_eq]
        change _ = (0,outcome ((if (decide (nLockTime < 0) || !checkLockTime C.txTo C.nIn nLockTime)
          then Except.error ScriptError.UNKNOWN_ERROR else Except.ok ()) >>= _))
        split_ifs <;> rfl

theorem pushAnswer_eq (fVerify fValue err m) : pushAnswer fVerify fValue err m = (0,outcome (do
      let stack ← answer fVerify fValue err m.stack
      .ok { m with stack := stack })) := by
  cases fVerify <;> cases fValue <;> rfl

/-- The element that the popped number names is in range when it is reached. -/
theorem pick_eq (fRoll : Bool) (n : ℤ) (m : Machine) :
    (failIf (n < 0 || (m.stack.length : ℤ) ≤ n) .INVALID_STACK_OPERATION >>= fun _ => do
      let vch ← stacktop (n.toNat+1)
      if fRoll then eraseTop (n.toNat+1) 1
      pushBack vch : Eval Unit) m =
    (0,outcome (match if n < 0 then none else m.stack[n.toNat]? with
      | none => .error .INVALID_STACK_OPERATION
      | some picked => .ok { m with stack := picked::if fRoll then m.stack.eraseIdx n.toNat else m.stack })) := by
  rw [failIf_bind]
  by_cases hneg : n < 0
  · simp only [hneg,decide_true,Bool.true_or,if_true]
    rfl
  by_cases hlen : (m.stack.length : ℤ) ≤ n
  · rw [if_pos (by simp [hlen]),if_neg hneg,getElem?_eq_none (by omega)]
    rfl
  · have hlt : n.toNat < m.stack.length := by omega
    have htop : stacktop (n.toNat+1) m = (0,.ok (m.stack[n.toNat],m)) := by
      simp only [stacktop,getElem?_eq_getElem hlt]
    have herase : eraseTop (n.toNat+1) 1 m = (0,.ok ((),{ m with stack := m.stack.eraseIdx n.toNat })) := by
      simp only [eraseTop,setStack]
      rw [if_pos ⟨by omega,by omega⟩,Nat.add_sub_cancel,← eraseIdx_eq_take_drop_succ]
    rw [if_neg (by simp [hneg,hlen]),if_neg hneg,getElem?_eq_getElem hlt,bind_eq,htop]
    cases fRoll with
    | false => rfl
    | true =>
      simp only [if_true,bind_eq,herase]
      rfl

theorem execOp_eq {op} (hop : op.checksSig = false) (fExec pc m) : execOp C fExec pc op m =
      (0,outcome (Script.execOp C.E C.P C.rules C.flags fExec pc m op)) := by
  obtain ⟨stack,alt,vf,n,pb⟩ := m
  cases op with
  | checkSig | checkMultiSig => cases hop
  | number | nop | returnOp | depth | codeSeparator | bad => rfl
  | upgradableNop =>
    simp only [execOp,Script.execOp,failIf_eq,decide_eq_true_eq]
    split_ifs <;> rfl
  | checkLockTimeVerify => exact execLockTime_eq C _
  | ifOp fNot =>
    cases fExec with
    | false => rfl
    | true => rcases stack with _ | ⟨vch,s⟩ <;> rfl
  | elseOp | endIf => rcases vf with _ | ⟨f,vf⟩ <;> rfl
  | toAltStack | size | hash => rcases stack with _ | ⟨vch,s⟩ <;> rfl
  | fromAltStack => rcases alt with _ | ⟨vch,alt⟩ <;> rfl
  | stack op =>
    have hstack := execStackOp_eq op ⟨stack,alt,vf,n,pb⟩
    simp only [execOp,Script.execOp,hstack]
    cases op.apply stack <;> rfl
  | verify =>
    rcases stack with _ | ⟨vch,s⟩
    · rfl
    · change (if castToBool vch then popstack else fail .VERIFY : Eval Unit) _ = _
      simp only [Script.execOp]
      cases castToBool vch <;> rfl
  | ifDup =>
    rcases stack with _ | ⟨vch,s⟩
    · rfl
    · change (if castToBool vch then pushBack vch else pure () : Eval Unit) _ = _
      simp only [Script.execOp]
      cases castToBool vch <;> rfl
  | pick fRoll =>
    rcases stack with _ | ⟨top,_ | ⟨vch,s⟩⟩
    · rfl
    · rfl
    · change (lift (C.rules.getint top) >>= _) _ = _
      rw [lift_bind]
      simp only [Script.execOp]
      cases C.rules.getint top with
      | error err => rfl
      | ok k => exact pick_eq fRoll k ⟨vch::s,alt,vf,n,pb⟩
  | equal fVerify =>
    rcases stack with _ | ⟨vch2,_ | ⟨vch1,s⟩⟩
    · rfl
    · rfl
    · exact pushAnswer_eq fVerify (vch1 = vch2) .EQUALVERIFY ⟨s,alt,vf,n,pb⟩
  | unary op =>
    rcases stack with _ | ⟨vch,s⟩
    · rfl
    · change (lift (C.rules.unary op vch) >>= _) _ = _
      rw [lift_bind]
      simp only [Script.execOp]
      cases C.rules.unary op vch <;> rfl
  | binary op =>
    rcases stack with _ | ⟨vch2,_ | ⟨vch1,s⟩⟩
    · rfl
    · rfl
    · change (lift (C.rules.binary op vch1 vch2) >>= _) _ = _
      rw [lift_bind]
      simp only [Script.execOp]
      cases C.rules.binary op vch1 vch2 with
      | error err => rfl
      | ok bn =>
        by_cases hop : op = .numEqualVerify
        · subst hop
          change (if castToBool bn then popstack else fail .NUMEQUALVERIFY : Eval Unit) _ = (0,outcome
            (if castToBool bn then _ else _))
          cases castToBool bn <;> rfl
        · change (if op = .numEqualVerify then _ else pure () : Eval Unit) _ =
            (0,outcome (if op = .numEqualVerify then _ else _))
          rw [if_neg hop,if_neg hop]
          rfl
  | within =>
    rcases stack with _ | ⟨vch3,_ | ⟨vch2,_ | ⟨vch1,s⟩⟩⟩
    · rfl
    · rfl
    · rfl
    · change (lift (C.rules.within vch1 vch2 vch3) >>= _) _ = _
      rw [lift_bind]
      simp only [Script.execOp]
      cases C.rules.within vch1 vch2 vch3 <;> rfl

def value {α : Type} (m : Machine) : Except ScriptError α → Except Stop (α × Machine)
  | .error err => .error (.error err)
  | .ok a => .ok (a,m)

theorem callCheckSig_eq (vchSig vchPubKey scriptCode m) :
    ∃ n ≤ 1, callCheckSig C vchSig vchPubKey scriptCode m =
      (n,value m (C.rules.checkSig vchSig vchPubKey scriptCode)) := by
  dsimp only [callCheckSig,Context.rules,rules]
  cases checkSignatureEncoding C.E C.flags vchSig && isCompressedOrUncompressedPubKey vchPubKey with
  | true =>
    rw [Bool.not_true,Bool.and_false,if_neg Bool.false_ne_true,if_neg Bool.false_ne_true,if_pos rfl]
    exact ⟨1,le_rfl,rfl⟩
  | false =>
    rw [Bool.not_false,Bool.and_true,if_neg Bool.false_ne_true]
    cases decide (C.flags &&& Flags.STRICTENC ≠ 0) with
    | true => exact ⟨0,Nat.zero_le 1,rfl⟩
    | false => exact ⟨0,Nat.zero_le 1,rfl⟩

/-- What follows a computation that leaves the stacks alone. -/
def continued {α β : Type} (n : ℕ) (m : Machine) (f : α → Eval β) :
    Except ScriptError α → ℕ × Except Stop (β × Machine)
  | .error err => (n,.error (.error err))
  | .ok a => ((f a m).1+n,(f a m).2)

variable {m : Machine} {n i isig : ℕ} {vch a : Valtype} {l as sigs : List Valtype}

theorem bind_of_value {x r} (h : x m = (n,value m r)) (f : α → Eval β) :
    (x >>= f) m = continued n m f r := by
  rw [bind_eq,h]
  cases r <;> rfl

theorem execCheckSig_eq (fVerify fExec pc m) : ∃ n ≤ 1, execOp C fExec pc (.checkSig fVerify) m =
      (n,outcome (Script.execOp C.E C.P C.rules C.flags fExec pc m (.checkSig fVerify))) := by
  obtain ⟨stack,alt,vf,ops,pb⟩ := m
  rcases stack with _ | ⟨vchPubKey,_ | ⟨vchSig,s⟩⟩
  · exact ⟨0,Nat.zero_le 1,rfl⟩
  · exact ⟨0,Nat.zero_le 1,rfl⟩
  · have hcall := callCheckSig_eq C vchSig vchPubKey
      (Consensus.findAndDelete (pushVector vchSig) pb) ⟨vchPubKey::vchSig::s,alt,vf,ops,pb⟩
    obtain ⟨n,hn,hcall⟩ := hcall
    refine ⟨n,hn,?_⟩
    change (callCheckSig C vchSig vchPubKey _ >>= _) _ = _
    rw [bind_of_value hcall]
    simp only [Script.execOp]
    cases C.rules.checkSig vchSig vchPubKey (Consensus.findAndDelete (pushVector vchSig) pb) with
    | error err => rfl
    | ok fSuccess =>
      have hanswer := pushAnswer_eq fVerify fSuccess .CHECKSIGVERIFY ⟨s,alt,vf,ops,pb⟩
      change ((pushAnswer fVerify fSuccess .CHECKSIGVERIFY ⟨s,alt,vf,ops,pb⟩).1+n,
        (pushAnswer fVerify fSuccess .CHECKSIGVERIFY ⟨s,alt,vf,ops,pb⟩).2) = _
      rw [hanswer,Nat.zero_add]
      rfl

theorem stacktop_eq (h : m.stack[i]? = some vch) : stacktop (i+1) m = (0,.ok (vch,m)) := by
  simp only [stacktop,h]

theorem stacktop_bind (h : m.stack[i]? = some vch) (f : Valtype → Eval β) :
    (stacktop (i+1) >>= f) m = f vch m :=
  bind_of_ok (stacktop_eq h) f

theorem prefix_drop_cons (h : (a::as) <+: l.drop i) : l[i]? = some a ∧ as <+: l.drop (i+1) := by
  obtain ⟨rest,hrest⟩ := h
  have hhead : (l.drop i).head? = some a := by rw [← hrest]; rfl
  have htail : (l.drop i).tail = as++rest := by rw [← hrest]; rfl
  rw [head?_drop] at hhead
  rw [tail_drop] at htail
  exact ⟨hhead,⟨rest,htail.symm⟩⟩

theorem dropSigs_eq (h : sigs <+: m.stack.drop isig) (scriptCode : CScript) :
    dropSigs sigs.length (isig+1) scriptCode m =
      (0,.ok (sigs.foldl (fun code vchSig => Consensus.findAndDelete (pushVector vchSig) code)
        scriptCode,m)) := by
  induction sigs generalizing isig scriptCode with
  | nil => rfl
  | cons vchSig sigs ih =>
    obtain ⟨hhead,htail⟩ := prefix_drop_cons h
    rw [length_cons,dropSigs,stacktop_bind hhead,ih htail]
    rfl

theorem checkKeys_eq (scriptCode : CScript) {keys} (hle : sigs.length ≤ keys.length) {ikey}
    (hkeys : keys <+: m.stack.drop ikey) (hsigs : sigs <+: m.stack.drop isig) :
    ∃ n ≤ keys.length, checkKeys C scriptCode keys.length sigs.length (ikey+1) (isig+1) m =
      (n,value m (checkSigs C.rules scriptCode keys sigs)) := by
  induction keys generalizing sigs ikey isig with
  | nil =>
    obtain rfl := length_eq_zero_iff.mp (Nat.le_zero.mp hle)
    exact ⟨0,le_rfl,rfl⟩
  | cons vchPubKey keys ih =>
    cases sigs with
    | nil => exact ⟨0,Nat.zero_le _,rfl⟩
    | cons vchSig sigs =>
      obtain ⟨hkey,hkeys'⟩ := prefix_drop_cons hkeys
      obtain ⟨hsig,hrest⟩ := prefix_drop_cons hsigs
      obtain ⟨n,hn,hcall⟩ := callCheckSig_eq C vchSig vchPubKey scriptCode m
      rw [length_cons,length_cons] at hle
      rw [length_cons,length_cons,checkKeys,stacktop_bind hsig,stacktop_bind hkey,bind_of_value hcall,checkSigs]
      cases C.rules.checkSig vchSig vchPubKey scriptCode with
      | error err => exact ⟨n,by omega,rfl⟩
      | ok fOk =>
        -- the signatures still to be found, and where they lie
        obtain ⟨sigs',hsigs'⟩ : ∃ sigs', sigs' = if fOk then sigs else vchSig::sigs := ⟨_,rfl⟩
        have hlength : sigs'.length = if fOk then sigs.length else sigs.length+1 := by
          cases fOk <;> rw [hsigs'] <;> rfl
        have hwhere : sigs' <+: m.stack.drop (if fOk then isig+1 else isig) := by
          cases fOk with
          | true => exact hsigs' ▸ hrest
          | false => exact hsigs' ▸ hsigs
        have hisig : (if fOk then isig+1+1 else isig+1) = (if fOk then isig+1 else isig)+1 := by
          cases fOk <;> rfl
        dsimp only [continued]
        change ∃ k ≤ keys.length+1, _ =
          (k,value m (if keys.length < (if fOk then sigs else vchSig::sigs).length then .ok false
          else checkSigs C.rules scriptCode keys (if fOk then sigs else vchSig::sigs)))
        rw [← hsigs',← hlength,hisig]
        by_cases hcount : keys.length < sigs'.length
        · rw [if_pos hcount,if_pos hcount]
          exact ⟨0+n,by omega,rfl⟩
        · obtain ⟨k,hk,heq⟩ := ih (Nat.le_of_not_lt hcount) hkeys' hwhere
          rw [if_neg hcount,if_neg hcount,heq]
          exact ⟨k+n,by omega,rfl⟩

theorem popMany_eq (h : n ≤ m.stack.length) :
    popMany n m = (0,.ok ((),{ m with stack := m.stack.drop n })) := by
  induction n generalizing m with
  | zero => rfl
  | succ n ih =>
    obtain ⟨stack,alt,vf,ops,pb⟩ := m
    cases stack with
    | nil => cases h
    | cons vch stack =>
      change popMany n ⟨stack,alt,vf,ops,pb⟩ = _
      rw [ih (Nat.le_of_succ_le_succ h)]
      rfl

/-- The keys that CHECKMULTISIG is told to try. -/
def keysCount (m : Machine) : ℕ :=
  match m.stack with
  | [] => 0
  | top::_ => match C.rules.getint top with
    | .error _ => 0
    | .ok nKeysCount => if nKeysCount < 0 || 20 < nKeysCount then 0 else nKeysCount.toNat

theorem drop_cons (h : l.drop n = a::as) :
    l.length = n+(as.length+1) ∧ l[n]? = some a ∧ l.drop (n+1) = as := by
  have hlength : (l.drop n).length = as.length+1 := by rw [h]; rfl
  rw [length_drop] at hlength
  have hprefix : (a::as) <+: l.drop n := h ▸ prefix_refl _
  obtain ⟨hhead,-⟩ := prefix_drop_cons hprefix
  refine ⟨by omega,hhead,?_⟩
  rw [← tail_drop,h]
  rfl

theorem need_bind (n : ℕ) (f : Unit → Eval β) (m : Machine) :
    (need n >>= f) m = if m.stack.length <
      n then (0,.error (.error .INVALID_STACK_OPERATION)) else f () m := by
  change (failIf (decide (m.stack.length < n)) .INVALID_STACK_OPERATION >>= f) m = _
  rw [failIf_bind]
  simp only [decide_eq_true_eq]

theorem addOps_bind (n : ℕ) (f : Unit → Eval β) (m : Machine) :
    (addOps n >>= f) m = f () { m with nOpCount := m.nOpCount+n } := rfl

theorem getMachine_bind (f : Machine → Eval β) (m : Machine) : (getMachine >>= f) m = f m m := rfl

/-- The arguments are taken off, the dummy is looked at, and the answer comes in its place. -/
theorem multiSigEnd_eq (fVerify fSuccess : Bool) {dummy rest} (h : m.stack.drop n = dummy::rest) :
    (do
      popMany n
      need 1
      if C.flags &&& Flags.NULLDUMMY ≠ 0 then failIf ((← stacktop 1) ≠ []) .SIG_NULLDUMMY
      popstack
      pushAnswer fVerify fSuccess .CHECKMULTISIGVERIFY : Eval Unit) m =
      (0,outcome (if decide (C.flags &&& Flags.NULLDUMMY ≠ 0) &&
        decide (dummy ≠ []) then .error .SIG_NULLDUMMY
        else do
          let stack ← answer fVerify fSuccess .CHECKMULTISIGVERIFY rest
          .ok { m with stack := stack })) := by
  obtain ⟨hlength,-,-⟩ := drop_cons h
  have hanswer := pushAnswer_eq fVerify fSuccess .CHECKMULTISIGVERIFY { m with stack := rest }
  rw [bind_of_ok (popMany_eq (by omega)),h,need_bind,if_neg (by simp)]
  by_cases hflag : C.flags &&& Flags.NULLDUMMY ≠ 0
  · rw [if_pos hflag,stacktop_bind (show (dummy::rest)[0]? = some dummy from rfl),failIf_bind]
    rw [decide_eq_true hflag,Bool.true_and]
    cases decide (dummy ≠ []) with
    | true => rfl
    | false => exact hanswer
  · rw [if_neg hflag,decide_eq_false hflag,Bool.false_and]
    exact hanswer

theorem execCheckMultiSig_eq (fVerify fExec : Bool) (pc : CScript) (m : Machine) :
    ∃ n ≤ keysCount C m, execCheckMultiSig C fVerify m =
      (n,outcome (Script.execOp C.E C.P C.rules C.flags fExec pc m (.checkMultiSig fVerify))) := by
  obtain ⟨stack,alt,vf,ops,pb⟩ := m
  rcases stack with _ | ⟨top,stack⟩
  · exact ⟨0,Nat.zero_le _,rfl⟩
  dsimp only [execCheckMultiSig,Script.execOp,execMultiSig]
  rw [need_bind,if_neg (by simp),stacktop_bind (show (top::stack)[0]? = some top from rfl)]
  dsimp only [getint,keysCount]
  rw [lift_bind]
  cases C.rules.getint top with
  | error err => exact ⟨0,Nat.zero_le _,rfl⟩
  | ok nKeysCount =>
    have hok : ∀ {α β : Type} (a : α) (f : α → Except ScriptError β), (Except.ok a >>= f) = f a := fun _ _ => rfl
    dsimp only
    rw [hok,failIf_bind]
    cases hkeys : decide (nKeysCount < 0) || decide (20 < nKeysCount) with
    | true => exact ⟨0,Nat.zero_le _,rfl⟩
    | false =>
      rw [addOps_bind,getMachine_bind,failIf_bind]
      by_cases hops : 201 < ops+nKeysCount.toNat
      · simp only [hops,decide_true,reduceIte]
        exact ⟨0,Nat.zero_le _,rfl⟩
      simp only [hops,decide_false,false_eq_true,reduceIte]
      rw [need_bind]
      cases hdrop : stack.drop nKeysCount.toNat with
      | nil =>
        have hlength := drop_eq_nil_iff.mp hdrop
        rw [if_pos (show (top::stack).length < _ by rw [length_cons]; omega)]
        exact ⟨0,Nat.zero_le _,rfl⟩
      | cons top' rest =>
        obtain ⟨hlength,htop,hrest⟩ := drop_cons hdrop
        rw [if_neg (show ¬(top::stack).length < _ by rw [length_cons]; omega),
          show 2+nKeysCount.toNat = nKeysCount.toNat+1+1 by omega,
          stacktop_bind (show (top::stack)[nKeysCount.toNat+1]? = some top' from htop),lift_bind]
        dsimp only
        cases C.rules.getint top' with
        | error err => exact ⟨0,Nat.zero_le _,rfl⟩
        | ok nSigsCount =>
          dsimp only
          rw [hok,failIf_bind]
          cases hsigs : decide (nSigsCount < 0) || decide (nKeysCount < nSigsCount) with
          | true => exact ⟨0,Nat.zero_le _,rfl⟩
          | false =>
            rw [need_bind]
            cases hdrop' : rest.drop nSigsCount.toNat with
            | nil =>
              have hlength' := drop_eq_nil_iff.mp hdrop'
              rw [if_pos (show (top::stack).length < _ by rw [length_cons]; omega)]
              exact ⟨0,Nat.zero_le _,rfl⟩
            | cons dummy rest' =>
              obtain ⟨hlength',-,-⟩ := drop_cons hdrop'
              rw [if_neg (show ¬(top::stack).length < _ by rw [length_cons]; omega),getMachine_bind]
              have hkeysLength : (stack.take nKeysCount.toNat).length = nKeysCount.toNat :=
                length_take_of_le (by omega)
              have hsigsLength : (rest.take nSigsCount.toNat).length = nSigsCount.toNat :=
                length_take_of_le (by omega)
              have hsigsAt : rest.take nSigsCount.toNat <+: (top::stack).drop (nKeysCount.toNat+1+1) :=
                ( take_prefix _ _).trans (hrest ▸ prefix_refl _)
              have hend : (top::stack).drop (nKeysCount.toNat+1+1+1+nSigsCount.toNat-1) = dummy::rest' := by
                rw [show nKeysCount.toNat+1+1+1+nSigsCount.toNat-1 =
                  (nKeysCount.toNat+1+nSigsCount.toNat)+1 by omega,
                  drop_succ_cons,← drop_drop,hrest,hdrop']
              have hcode := dropSigs_eq (m := ⟨top::stack,alt,vf,ops+nKeysCount.toNat,pb⟩) hsigsAt pb
              have hkeysAt : stack.take nKeysCount.toNat <+: (top::stack).drop 1 := take_prefix _ _
              obtain ⟨n,hn,hcheck⟩ := checkKeys_eq C
                ((rest.take nSigsCount.toNat).foldl (fun code vchSig => Consensus.findAndDelete (pushVector vchSig) code) pb)
                (m := ⟨top::stack,alt,vf,ops+nKeysCount.toNat,pb⟩)
                (by simp only [or_eq_false_iff,decide_eq_false_iff_not] at hkeys hsigs; omega) hkeysAt hsigsAt
              rw [hsigsLength] at hcode hcheck
              rw [hkeysLength] at hn hcheck
              refine ⟨n,hn,?_⟩
              rw [bind_of_ok hcode,bind_of_value hcheck]
              cases checkSigs C.rules
                ((rest.take nSigsCount.toNat).foldl (fun code vchSig => Consensus.findAndDelete (pushVector vchSig) code) pb)
                (stack.take nKeysCount.toNat) (rest.take nSigsCount.toNat) with
              | error err => rfl
              | ok fSuccess =>
                dsimp only [continued]
                rw [multiSigEnd_eq C fVerify fSuccess hend,Nat.zero_add]
                cases decide (C.flags &&& Flags.NULLDUMMY ≠ 0) && decide (dummy ≠ []) <;> rfl

def opCalls (m : Machine) : Op → ℕ
  | .checkSig _ => 1
  | .checkMultiSig _ => keysCount C m
  | _ => 0

theorem execOp_calls (fExec pc op m) : ∃ n ≤ opCalls C m op, execOp C fExec pc op m =
      (n,outcome (Script.execOp C.E C.P C.rules C.flags fExec pc m op)) := by
  cases hop : op.checksSig with
  | false => exact ⟨0,Nat.zero_le _,execOp_eq C hop fExec pc m⟩
  | true =>
    cases op with
    | checkSig fVerify => exact execCheckSig_eq C fVerify fExec pc m
    | checkMultiSig fVerify => exact execCheckMultiSig_eq C fVerify fExec pc m
    | _ => cases hop

theorem opCalls_conditional {opcode} (h : OP_IF ≤ opcode ∧ opcode ≤ OP_ENDIF) (m) :
    opCalls C m (decodeOp opcode) = 0 := by
  obtain ⟨hlow,hhigh⟩ := h
  unfold OP_ENDIF at hhigh
  interval_cases opcode <;> rfl

/-- The calls that one turn may make: none where nothing is executed. -/
def stepCalls (r : ReadOp) (m : Machine) : ℕ :=
  if m.vfExec.all id then opCalls C m (decodeOp r.opcode) else 0

theorem exec_eq (r : ReadOp) (m : Machine) : ∃ n ≤ stepCalls C r m, exec C r m =
      (n,outcome (Script.exec C.E C.P C.rules C.flags r m)) := by
  dsimp only [exec,Script.exec,stepCalls]
  rw [getMachine_bind]
  cases m.vfExec.all id with
  | true =>
    by_cases hpush : r.opcode ≤ OP_PUSHDATA4
    · rw [decide_eq_true hpush]
      exact ⟨0,Nat.zero_le _,rfl⟩
    · rw [decide_eq_false hpush]
      exact execOp_calls C true r.rest (decodeOp r.opcode) m
  | false =>
    cases hif : decide (OP_IF ≤ r.opcode) && decide (r.opcode ≤ OP_ENDIF) with
    | true =>
      obtain ⟨n,hn,heq⟩ := execOp_calls C false r.rest (decodeOp r.opcode) m
      rw [opCalls_conditional C (by simpa using hif) m] at hn
      exact ⟨n,hn,heq⟩
    | false => exact ⟨0,le_rfl,rfl⟩

theorem execLimited_eq (r m) : ∃ n ≤ stepCalls C r m, (do
      failIf (r.opcode ∈ disabledOpcodes) .DISABLED_OPCODE
      exec C r
      let m ← getMachine
      failIf (1000 < m.stack.length+m.altstack.length) .STACK_SIZE : Eval Unit) m =
      (n,outcome (if r.opcode ∈ disabledOpcodes then .error .DISABLED_OPCODE else do
          let m ← Script.exec C.E C.P C.rules C.flags r m
          if 1000 < m.stack.length+m.altstack.length then .error .STACK_SIZE else .ok m)) := by
  refine failIf_calls decide_eq_true_iff fun _ => ?_
  obtain ⟨n,hn,hexec⟩ := exec_eq C r m
  refine ⟨n,hn,?_⟩
  rw [bind_eq,hexec]
  cases Script.exec C.E C.P C.rules C.flags r m with
  | error err => rfl
  | ok m' =>
    change ((failIf (decide (1000 < m'.stack.length+m'.altstack.length)) .STACK_SIZE m').1+n,
      (failIf (decide (1000 < m'.stack.length+m'.altstack.length)) .STACK_SIZE m').2) =
        (n,outcome (if 1000 < m'.stack.length+m'.altstack.length then .error .STACK_SIZE else .ok m'))
    rw [failIf_eq]
    by_cases hsize : 1000 < m'.stack.length+m'.altstack.length
    · simp only [hsize,decide_true,reduceIte,Nat.zero_add]
      rfl
    · simp only [hsize,decide_false,false_eq_true,reduceIte,Nat.zero_add]
      rfl

theorem step_eq (r : ReadOp) (m : Machine) : ∃ n ≤ stepCalls C r m, step C r m =
      (n,outcome (Script.step C.E C.P C.rules C.flags r m)) := by
  refine failIf_calls Iff.rfl fun _ => failIf_calls decide_eq_true_iff fun _ => ?_
  by_cases hcounted : OP_16 < r.opcode
  · simp only [hcounted,reduceIte,decide_true,Bool.true_and,decide_eq_true_eq]
    rw [addOps_bind,getMachine_bind]
    exact failIf_calls decide_eq_true_iff fun _ => execLimited_eq C r { m with nOpCount := m.nOpCount+1 }
  · simp only [hcounted,reduceIte,decide_false,Bool.false_and,Bool.false_eq_true]
    exact execLimited_eq C r m

/-- A failure, or a result. -/
def lifted {α : Type} : Except ScriptError α → Except Stop α
  | .error err => .error (.error err)
  | .ok a => .ok a

theorem evalLoop_nil (fuel) : evalLoop C fuel [] =
    (do failIf ((← getMachine).vfExec ≠ []) .UNBALANCED_CONDITIONAL) := by
  cases fuel <;> rfl

theorem evalLoop_cons (fuel b pc) : evalLoop C (fuel+1) (b::pc) = (do
      step C (getOp2 (b::pc))
      evalLoop C fuel (getOp2 (b::pc)).rest) := by
  rfl

theorem evalEnd_eq (fuel : ℕ) (m) : (evalLoop C fuel [] m).2.map (fun a => a.2.stack) =
      lifted (Script.evalLoop C.E C.P C.rules C.flags fuel [] m) := by
  rw [evalLoop_nil,show Script.evalLoop C.E C.P C.rules C.flags fuel [] m =
    if m.vfExec = [] then .ok m.stack else .error .UNBALANCED_CONDITIONAL by cases fuel <;> rfl,getMachine_bind,failIf_eq]
  by_cases hvfExec : m.vfExec = []
  · simp only [hvfExec,ne_eq,not_true_eq_false,decide_false,false_eq_true,reduceIte]
    rfl
  · simp only [hvfExec,ne_eq,not_false_eq_true,decide_true,reduceIte]
    rfl

theorem evalLoop_eq {fuel pc} (hfuel : pc.length ≤ fuel) (m) :
    (evalLoop C fuel pc m).2.map (fun a => a.2.stack) =
      lifted (Script.evalLoop C.E C.P C.rules C.flags fuel pc m) := by
  induction fuel generalizing pc m with
  | zero =>
    obtain rfl := length_eq_zero_iff.mp (Nat.le_zero.mp hfuel)
    exact evalEnd_eq C 0 m
  | succ fuel ih =>
    cases pc with
    | nil => exact evalEnd_eq C (fuel+1) m
    | cons b pc =>
      have hrest := length_rest_getOp2 b pc
      obtain ⟨n,-,hstep⟩ := step_eq C (getOp2 (b::pc)) m
      rw [evalLoop_cons,bind_eq,hstep]
      simp only [Script.evalLoop]
      cases Script.step C.E C.P C.rules C.flags (getOp2 (b::pc)) m with
      | error err => rfl
      | ok m' => exact ih (by rw [length_cons] at hfuel; omega) m'

theorem evalScript_eq (stack script) : (evalScript C stack script).2 =
      lifted (evalWith C.E C.P C.rules C.flags stack script) := by
  unfold evalScript evalWith
  split_ifs with hsize
  · rfl
  · exact evalLoop_eq C le_rfl _

end Access
end Script
end DarkSilk
