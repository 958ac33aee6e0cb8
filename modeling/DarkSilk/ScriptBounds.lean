import DarkSilk.ScriptAccess

/-! The limits that the interpreter of blocks keeps. Every element that an operation leaves is
one it found, a number, a digest or a push, and so is short; the stacks are counted after every
operation. An output that names a script fails on an empty stack, so the script behind the hash
is always there when it is taken. -/
namespace DarkSilk

open PrefixCode List

namespace Script

theorem length_natBytes_le {k n j} (h : n < 256^j) : (natBytes k n).length ≤ j := by
  induction k generalizing n j with
  | zero => exact Nat.zero_le j
  | succ k ih =>
    rw [natBytes]
    split_ifs with hn
    · exact Nat.zero_le j
    · cases j with
      | zero => exact absurd (Nat.lt_one_iff.mp h) hn
      | succ j =>
        rw [pow_succ] at h
        exact Nat.succ_le_succ (ih (Nat.div_lt_of_lt_mul (by rwa [mul_comm] at h)))

theorem length_getvch_le {n j} (h : n.natAbs < 256^j) : (getvch n).length ≤ j+1 := by
  have hbytes := length_natBytes_le (k := n.natAbs) h
  simp only [getvch]
  cases (natBytes n.natAbs n.natAbs).getLast? with
  | none => exact Nat.zero_le _
  | some top =>
    dsimp only
    split_ifs
    · rw [length_append]
      exact Nat.add_le_add_right hbytes 1
    · rw [length_append]
      exact Nat.add_le_add_right hbytes 1
    · rw [length_append,length_dropLast,length_singleton]
      omega
    · exact Nat.le_succ_of_le hbytes

open CBigNum

theorem castToBigNum_small {vch bn} (h : castToBigNum 4 vch = .ok bn) : Small bn := by
  unfold castToBigNum at h
  split_ifs at h with hlength
  rw [setvch_getvch] at h
  cases h
  exact small_setvch (Nat.le_of_not_lt hlength)

theorem natAbs_numOfBool_le (b) : (numOfBool b : ℤ).natAbs ≤ 1 := by
  cases b <;> decide

theorem natAbs_unary_le (op : UnaryOp) (bn : ℤ) : (op.eval bn).natAbs ≤ bn.natAbs+1 := by
  cases op with
  | not | notEqual0 => exact (natAbs_numOfBool_le _).trans (Nat.le_add_left 1 _)
  | abs =>
    simp only [UnaryOp.eval]
    split_ifs <;> omega
  | _ =>
    simp only [UnaryOp.eval]
    omega

theorem natAbs_binary_le (op : BinaryOp) (bn1 bn2 : ℤ) :
    (op.eval bn1 bn2).natAbs ≤ bn1.natAbs+bn2.natAbs+1 := by
  cases op with
  | add | sub =>
    simp only [BinaryOp.eval]
    omega
  | min | max =>
    simp only [BinaryOp.eval]
    split_ifs <;> omega
  | _ => exact (natAbs_numOfBool_le _).trans (Nat.le_add_left 1 _)

def Short (vch : Valtype) : Prop := vch.length ≤ MAX_SCRIPT_ELEMENT_SIZE

structure ShortResults (R : Rules) : Prop where
  pushNumber : ∀ n, Short (R.pushNumber n)
  unary : ∀ {op vch vch'}, R.unary op vch = .ok vch' → Short vch'
  binary : ∀ {op vch1 vch2 vch'}, R.binary op vch1 vch2 = .ok vch' → Short vch'

theorem short_getvch {n} (h : n.natAbs < 256^9) : Short (getvch n) :=
  (length_getvch_le h).trans (by decide)

theorem shortResults_rules (E checkSig txTo) (nIn : ℕ) (flags : UInt32) :
    ShortResults (rules E checkSig txTo nIn flags) where
  pushNumber n := by
    have hle := Int64.le_toInt n
    have hlt := Int64.toInt_lt n
    exact short_getvch (by omega)
  unary {op vch vch'} h := by
    obtain ⟨bn,hbn,h⟩ := bind_eq_ok.mp h
    cases h
    have hsmall := castToBigNum_small hbn
    have hle := natAbs_unary_le op bn
    unfold Small at hsmall
    exact short_getvch (by omega)
  binary {op vch1 vch2 vch'} h := by
    obtain ⟨bn1,hbn1,h⟩ := bind_eq_ok.mp h
    obtain ⟨bn2,hbn2,h⟩ := bind_eq_ok.mp h
    cases h
    have hsmall₁ := castToBigNum_small hbn1
    have hsmall₂ := castToBigNum_small hbn2
    have hle := natAbs_binary_le op bn1 bn2
    unfold Small at hsmall₁ hsmall₂
    exact short_getvch (by omega)

theorem short_digest (E P) (op : HashOp) (vch) : Short (op.digest E P vch) := by
  unfold Short
  cases op <;> simp only [HashOp.digest,length_leBytes] <;> decide

theorem short_ofBool (b : Bool) : Short (if b then vchTrue else vchFalse) := by
  cases b with
  | false => exact Nat.zero_le _
  | true => exact (by decide : 1 ≤ MAX_SCRIPT_ELEMENT_SIZE)

theorem StackOp.mem_of_apply {op : StackOp} {stack stack' : List Valtype}
    (h : op.apply stack = some stack') {vch : Valtype} (hvch : vch ∈ stack') : vch ∈ stack := by
  unfold StackOp.apply at h
  split at h <;> cases h <;> simp only [mem_cons] at hvch ⊢ <;> tauto

structure ShortElements (m : Machine) : Prop where
  stack : ∀ vch ∈ m.stack, Short vch
  altstack : ∀ vch ∈ m.altstack, Short vch

variable {E : EvalEnv} {P : Params} {R : Rules} {flags : UInt32}

theorem short_answer {fVerify fValue err stack stack'}
    (hrun : answer fVerify fValue err stack = .ok stack')
    (h : ∀ vch ∈ stack, Short vch) : ∀ vch ∈ stack', Short vch := by
  cases fVerify with
  | false =>
    cases hrun
    exact forall_mem_cons.mpr ⟨short_ofBool fValue,h⟩
  | true =>
    cases fValue with
    | false => cases hrun
    | true =>
      cases hrun
      exact h

theorem suffix_execMultiSig {m fSuccess rest nOpCount}
    (hrun : execMultiSig R flags m = .ok (fSuccess,rest,nOpCount)) : rest <:+ m.stack := by
  unfold execMultiSig at hrun
  cases hstack : m.stack with
  | nil =>
    rw [hstack] at hrun
    cases hrun
  | cons top stack =>
    rw [hstack] at hrun
    obtain ⟨nKeysCount,-,hrun⟩ := bind_eq_ok.mp hrun
    dsimp only at hrun
    split_ifs at hrun
    cases hkeys : stack.drop nKeysCount.toNat with
    | nil =>
      rw [hkeys] at hrun
      cases hrun
    | cons top' sigs =>
      rw [hkeys] at hrun
      obtain ⟨nSigsCount,-,hrun⟩ := bind_eq_ok.mp hrun
      split_ifs at hrun
      cases hsigs : sigs.drop nSigsCount.toNat with
      | nil =>
        rw [hsigs] at hrun
        cases hrun
      | cons dummy rest' =>
        rw [hsigs] at hrun
        obtain ⟨fOk,-,hrun⟩ := bind_eq_ok.mp hrun
        split_ifs at hrun
        cases hrun
        have h1 : rest <:+ sigs := (suffix_cons dummy rest).trans (hsigs ▸ drop_suffix _ sigs)
        have h2 : sigs <:+ stack := (suffix_cons top' sigs).trans (hkeys ▸ drop_suffix _ stack)
        exact h1.trans (h2.trans (suffix_cons top stack))

theorem ShortElements.execOp (hR : ShortResults R) {m m' : Machine} (h : ShortElements m)
    {fExec : Bool}
    {pc : CScript} {op : Op} (hrun : execOp E P R flags fExec pc m op = .ok m') :
    ShortElements m' := by
  obtain ⟨stack,altstack,vfExec,nOpCount,pbegincodehash⟩ := m
  obtain ⟨hstack,haltstack⟩ := h
  have hrest : ∀ {v : Valtype} {l}, (∀ vch ∈ v::l, Short vch) → ∀ vch ∈ l, Short vch :=
    fun h => (forall_mem_cons.mp h).2
  cases op with
  | number | depth =>
    cases hrun
    exact ⟨forall_mem_cons.mpr ⟨hR.pushNumber _,hstack⟩,haltstack⟩
  | nop | codeSeparator =>
    cases hrun
    exact ⟨hstack,haltstack⟩
  | upgradableNop =>
    simp only [Script.execOp] at hrun
    split_ifs at hrun
    cases hrun
    exact ⟨hstack,haltstack⟩
  | checkLockTimeVerify =>
    obtain ⟨u,-,hrun⟩ := bind_eq_ok.mp hrun
    cases hrun
    exact ⟨hstack,haltstack⟩
  | returnOp | bad => cases hrun
  | ifOp fNot =>
    cases fExec with
    | false =>
      cases hrun
      exact ⟨hstack,haltstack⟩
    | true =>
      cases stack <;> cases hrun
      exact ⟨hrest hstack,haltstack⟩
  | elseOp | endIf =>
    cases vfExec <;> cases hrun
    exact ⟨hstack,haltstack⟩
  | verify =>
    cases stack with
    | nil => cases hrun
    | cons vch stack =>
      simp only [Script.execOp] at hrun
      split_ifs at hrun
      cases hrun
      exact ⟨hrest hstack,haltstack⟩
  | toAltStack =>
    cases stack <;> cases hrun
    exact ⟨hrest hstack,forall_mem_cons.mpr ⟨(forall_mem_cons.mp hstack).1,haltstack⟩⟩
  | fromAltStack =>
    cases altstack <;> cases hrun
    exact ⟨forall_mem_cons.mpr ⟨(forall_mem_cons.mp haltstack).1,hstack⟩,hrest haltstack⟩
  | ifDup =>
    cases stack <;> cases hrun
    refine ⟨?_,haltstack⟩
    split_ifs
    · exact forall_mem_cons.mpr ⟨(forall_mem_cons.mp hstack).1,hstack⟩
    · exact hstack
  | pick fRoll =>
    rcases stack with _ | ⟨top,_ | ⟨vch,stack⟩⟩
    · cases hrun
    · cases hrun
    · obtain ⟨n,-,hrun⟩ := bind_eq_ok.mp hrun
      by_cases hn : n < 0
      · rw [if_pos hn] at hrun
        cases hrun
      · rw [if_neg hn] at hrun
        cases hpicked : (vch::stack)[n.toNat]? with
        | none =>
          rw [hpicked] at hrun
          cases hrun
        | some picked =>
          rw [hpicked] at hrun
          cases hrun
          refine ⟨forall_mem_cons.mpr ⟨hrest hstack picked (mem_of_getElem? hpicked),?_⟩,haltstack⟩
          cases fRoll with
          | false => exact hrest hstack
          | true => exact fun x hx => hrest hstack x (mem_of_mem_eraseIdx hx)
  | stack op =>
    simp only [Script.execOp] at hrun
    cases happly : op.apply stack with
    | none =>
      rw [happly] at hrun
      cases hrun
    | some stack' =>
      rw [happly] at hrun
      cases hrun
      exact ⟨fun vch hvch => hstack vch (op.mem_of_apply happly hvch),haltstack⟩
  | size =>
    cases stack <;> cases hrun
    exact ⟨forall_mem_cons.mpr ⟨hR.pushNumber _,hstack⟩,haltstack⟩
  | equal fVerify =>
    rcases stack with _ | ⟨vch2,_ | ⟨vch1,stack⟩⟩
    · cases hrun
    · cases hrun
    · obtain ⟨stack',hanswer,hrun⟩ := bind_eq_ok.mp hrun
      cases hrun
      exact ⟨short_answer hanswer (hrest (hrest hstack)),haltstack⟩
  | unary op =>
    cases stack with
    | nil => cases hrun
    | cons vch stack =>
      obtain ⟨result,hresult,hrun⟩ := bind_eq_ok.mp hrun
      cases hrun
      exact ⟨forall_mem_cons.mpr ⟨hR.unary hresult,hrest hstack⟩,haltstack⟩
  | binary op =>
    rcases stack with _ | ⟨vch2,_ | ⟨vch1,stack⟩⟩
    · cases hrun
    · cases hrun
    · obtain ⟨result,hresult,hrun⟩ := bind_eq_ok.mp hrun
      split_ifs at hrun <;> cases hrun
      · exact ⟨hrest (hrest hstack),haltstack⟩
      · exact ⟨forall_mem_cons.mpr ⟨hR.binary hresult,hrest (hrest hstack)⟩,haltstack⟩
  | within =>
    rcases stack with _ | ⟨vch3,_ | ⟨vch2,_ | ⟨vch1,stack⟩⟩⟩
    · cases hrun
    · cases hrun
    · cases hrun
    · obtain ⟨fValue,-,hrun⟩ := bind_eq_ok.mp hrun
      cases hrun
      exact ⟨forall_mem_cons.mpr ⟨short_ofBool fValue,hrest (hrest (hrest hstack))⟩,haltstack⟩
  | hash op =>
    cases stack <;> cases hrun
    exact ⟨forall_mem_cons.mpr ⟨short_digest E P op _,hrest hstack⟩,haltstack⟩
  | checkSig fVerify =>
    rcases stack with _ | ⟨vchPubKey,_ | ⟨vchSig,stack⟩⟩
    · cases hrun
    · cases hrun
    · obtain ⟨fSuccess,-,hrun⟩ := bind_eq_ok.mp hrun
      obtain ⟨stack',hanswer,hrun⟩ := bind_eq_ok.mp hrun
      cases hrun
      exact ⟨short_answer hanswer (hrest (hrest hstack)),haltstack⟩
  | checkMultiSig fVerify =>
    obtain ⟨⟨fSuccess,rest,ops⟩,hmulti,hrun⟩ := bind_eq_ok.mp hrun
    obtain ⟨stack',hanswer,hrun⟩ := bind_eq_ok.mp hrun
    cases hrun
    exact ⟨short_answer hanswer fun vch hvch => hstack vch ((suffix_execMultiSig hmulti).mem hvch),haltstack⟩

theorem ShortElements.exec (hR : ShortResults R) {m m'} (h : ShortElements m) {r}
    (hdata : Short r.data) (hrun : exec E P R flags r m = .ok m') : ShortElements m' := by
  simp only [Script.exec] at hrun
  split_ifs at hrun
  · cases hrun
    exact ⟨forall_mem_cons.mpr ⟨hdata,h.stack⟩,h.altstack⟩
  · exact h.execOp hR hrun
  · cases hrun
    exact h

structure InLimits (m : Machine) : Prop extends ShortElements m where
  size : m.stack.length+m.altstack.length ≤ 1000

theorem InLimits.step (hR : ShortResults R) {m m'} (h : InLimits m) {r}
    (hrun : step E P R flags r m = .ok m') : InLimits m' := by
  simp only [Script.step] at hrun
  split_ifs at hrun with hok hdata
  all_goals
    obtain ⟨m₁,hexec,hrun⟩ := bind_eq_ok.mp hrun
    split_ifs at hrun with hsize
    cases hrun
    refine ⟨ShortElements.exec hR ?_ (Nat.le_of_not_lt hdata) hexec,Nat.le_of_not_lt hsize⟩
    exact ⟨h.stack,h.altstack⟩

/-- After every turn the stacks are within their limits, and so is the one that is left. -/
theorem InLimits.evalLoop (hR : ShortResults R) {fuel pc m} (h : InLimits m) {stack}
    (hrun : evalLoop E P R flags fuel pc m = .ok stack) :
    stack.length ≤ 1000 ∧ ∀ vch ∈ stack, Short vch := by
  induction fuel generalizing pc m with
  | zero =>
    cases pc with
    | nil =>
      simp only [Script.evalLoop] at hrun
      split_ifs at hrun
      cases hrun
      exact ⟨(Nat.le_add_right _ _).trans h.size,h.stack⟩
    | cons b pc => cases hrun
  | succ fuel ih =>
    cases pc with
    | nil =>
      simp only [Script.evalLoop] at hrun
      split_ifs at hrun
      cases hrun
      exact ⟨(Nat.le_add_right _ _).trans h.size,h.stack⟩
    | cons b pc =>
      obtain ⟨m',hstep,hrun⟩ := bind_eq_ok.mp hrun
      exact ih (h.step hR hstep) hrun

namespace Access

variable (C : Context)

theorem evalScript_inLimits {stack} (hsize : stack.length ≤ 1000)
    (hshort : ∀ vch ∈ stack, Short vch) {script stack'}
    (hrun : (evalScript C stack script).2 = .ok stack') :
    stack'.length ≤ 1000 ∧ ∀ vch ∈ stack', Short vch := by
  rw [evalScript_eq] at hrun
  cases heval : evalWith C.E C.P C.rules C.flags stack script with
  | error err =>
    rw [heval] at hrun
    cases hrun
  | ok stack₁ =>
    rw [heval] at hrun
    cases hrun
    unfold evalWith at heval
    split_ifs at heval
    have hlimits : InLimits ⟨stack,[],[],0,script⟩ := ⟨⟨hshort,forall_mem_nil _⟩,hsize⟩
    exact hlimits.evalLoop (shortResults_rules C.E C.checkSig C.txTo C.nIn C.flags) heval

theorem evalScript_safe (stack script) : (∃ stack', (evalScript C stack script).2 = .ok stack') ∨
      ∃ err, (evalScript C stack script).2 = .error (.error err) := by
  rw [evalScript_eq]
  cases evalWith C.E C.P C.rules C.flags stack script with
  | error err => exact .inr ⟨err,rfl⟩
  | ok stack' => exact .inl ⟨stack',rfl⟩

/-- The script of an output that names another script needs something to hash. -/
theorem evalWith_scriptHash_nil {scriptPubKey} (h : isPayToScriptHash scriptPubKey) :
    evalWith E P R flags [] scriptPubKey = .error .INVALID_STACK_OPERATION := by
  obtain ⟨hscript,hlength⟩ := eq_of_isPayToScriptHash h
  generalize (scriptPubKey.drop 2).take 20 = hash at hscript hlength
  subst hscript
  unfold evalWith
  rw [if_neg (by simp [hlength])]
  rfl

theorem backTrue_eq (stack) : backTrue stack = .ok (topTrue stack) := by
  cases stack <;> rfl

theorem verifyScript_eq (scriptSig scriptPubKey) : (verifyScript C scriptSig scriptPubKey).result =
      .ok (CBigNum.verifyScript C.E C.P C.checkSig scriptSig scriptPubKey C.txTo C.nIn
        C.flags) := by
  have heval : ∀ stack script, ∃ n, evalScript C stack script =
      (n,lifted (evalWith C.E C.P C.rules C.flags stack script)) := fun stack script =>
    ⟨_,Prod.ext rfl (evalScript_eq C stack script)⟩
  unfold verifyScript CBigNum.verifyScript CBigNum.evalScript
  dsimp only
  rw [← Context.rules]
  obtain ⟨n₁,h1⟩ := heval [] scriptSig
  rw [h1]
  cases evalWith C.E C.P C.rules C.flags [] scriptSig with
  | error err => rfl
  | ok stackCopy =>
    dsimp only [lifted,Except.toOption]
    obtain ⟨n₂,h2⟩ := heval stackCopy scriptPubKey
    rw [h2]
    cases hpubKey : evalWith C.E C.P C.rules C.flags stackCopy scriptPubKey with
    | error err => rfl
    | ok stack =>
      dsimp only [lifted]
      rw [backTrue_eq]
      cases htrue : topTrue stack with
      | false => simp [htrue]
      | true =>
        cases hhash : isPayToScriptHash scriptPubKey with
        | false => simp [htrue]
        | true =>
          cases isPushOnly scriptSig with
          | false => simp
          | true =>
            cases stackCopy with
            | nil =>
              rw [evalWith_scriptHash_nil hhash] at hpubKey
              cases hpubKey
            | cons pubKeySerialized stackCopy =>
              obtain ⟨n₃,h3⟩ := heval stackCopy pubKeySerialized
              simp only [Bool.not_true,Bool.false_eq_true,reduceIte,back,tail_cons,h3,Bool.false_or,
                Bool.true_and,runTop,
                Option.any_some,htrue]
              cases evalWith C.E C.P C.rules C.flags stackCopy pubKeySerialized with
              | error err => rfl
              | ok stack => exact backTrue_eq stack

/-- Every evaluation from a stack within the limits ends, without an access out of range, and a
stack that it leaves is within the limits; and the verification of an input, whatever its scripts
are, takes no element from an empty stack. -/
theorem interpreter_safe (stack : List Valtype) (hsize : stack.length ≤ 1000)
    (hshort : ∀ vch ∈ stack, vch.length ≤ 520) (script : CScript) :
    ((evalScript C stack script).2 ≠ .error .outOfFuel ∧
      (evalScript C stack script).2 ≠ .error .outOfRange ∧
      ∀ stack', (evalScript C stack script).2 = .ok stack' →
        stack'.length ≤ 1000 ∧ ∀ vch ∈ stack', vch.length ≤ 520) ∧
    ∀ scriptSig scriptPubKey : CScript, (verifyScript C scriptSig scriptPubKey).result ≠
      .error .outOfFuel ∧
        (verifyScript C scriptSig scriptPubKey).result ≠ .error .outOfRange := by
  refine ⟨⟨?_,?_,fun stack' hrun => evalScript_inLimits C hsize hshort hrun⟩, fun scriptSig scriptPubKey => ?_⟩
  · obtain ⟨stack',h⟩ | ⟨err,h⟩ := evalScript_safe C stack script <;> rw [h] <;> nofun
  · obtain ⟨stack',h⟩ | ⟨err,h⟩ := evalScript_safe C stack script <;> rw [h] <;> nofun
  · rw [verifyScript_eq]
    exact ⟨nofun,nofun⟩

def Sample.context (flags : UInt32) : Context :=
  ⟨Script.Sample.evalEnv,DarkSilk.Sample.signParams,fun _ _ _ => false,DarkSilk.Sample.signedPay,0,flags⟩

open DarkSilk.Script.Access.Sample

/-- Pushes are duplicated and their number is used to pick an element: the element that is
named is copied, and the sizes are as they must be. -/
theorem interpreter_safe_pick :
    (evalScript (context Flags.STRICTENC) [[7],[8,9]] [0x76,0x52,0x79]).2 =
      .ok [[8,9],[7],[7],[8,9]] ∧
    (evalScript (context Flags.STRICTENC) [[7],[8,9]] [0x76,0x52,0x79]).2 ≠ .error .outOfRange :=
  ⟨by decide +kernel,(interpreter_safe (context Flags.STRICTENC) [[7],[8,9]] (by decide) (by decide)
    [0x76,0x52,0x79]).1.2.1⟩

end Access

end Script

end DarkSilk
