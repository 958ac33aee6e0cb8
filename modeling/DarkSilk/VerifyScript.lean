import DarkSilk.EvalScript

/-! The verification of an input: its script and the script of the output are run one after
the other, and for an output that pays to the hash of a script, that script as well. The
interpreter of blocks always does the last part, the one of the checkers only with a flag.
What the checkers accept under the standard flags, the interpreter of blocks accepts. -/

namespace DarkSilk

open PrefixCode List

namespace Flags

def P2SH : UInt32 := 1
def SIGPUSHONLY : UInt32 := 32

end Flags

namespace Script

def pushOnly : ℕ → CScript → Bool
  | _, [] => true
  | 0, _ => false
  | fuel+1, pc =>
    let r := getOp2 pc
    r.ok && r.opcode ≤ OP_16 && pushOnly fuel r.rest

def isPushOnly (script : CScript) : Bool := pushOnly script.length script

def topTrue (stack : List Valtype) : Bool := stack.head?.any castToBool

def runTop (eval : List Valtype → CScript → Option (List Valtype)) : List Valtype → Bool
  | [] => false
  | pubKeySerialized::stackCopy => (eval stackCopy pubKeySerialized).any topTrue

namespace CBigNum

def verifyScript (E : EvalEnv) (P : Params) (checkSig : Valtype → Valtype → CScript → Bool)
    (scriptSig scriptPubKey : CScript) (txTo : CTransaction) (nIn : ℕ) (flags : UInt32) : Bool :=
  let eval := fun stack script => evalScript E P checkSig stack script txTo nIn flags
  match eval [] scriptSig with
  | none => false
  | some stackCopy => (eval stackCopy scriptPubKey).any topTrue &&
      (!isPayToScriptHash scriptPubKey || (isPushOnly scriptSig && runTop eval stackCopy))

end CBigNum

namespace CScriptNum

def requireTrue (stack : List Valtype) : Except ScriptError Unit :=
  if topTrue stack then .ok () else .error .EVAL_FALSE

def verifyScript (E : EvalEnv) (P : Params) (scriptSig scriptPubKey : CScript) (flags : UInt32)
    (checker : Valtype → Valtype → CScript → Bool) : Except ScriptError Unit := do
  if flags &&& Flags.SIGPUSHONLY ≠ 0 && !isPushOnly scriptSig then .error .SIG_PUSHONLY
  else
    let stackCopy ← evalScript E P [] scriptSig flags checker
    let stack ← evalScript E P stackCopy scriptPubKey flags checker
    requireTrue stack
    if flags &&& Flags.P2SH ≠ 0 && isPayToScriptHash scriptPubKey then
      if !isPushOnly scriptSig then .error .SIG_PUSHONLY
      else match stackCopy with
        | [] => .error .UNKNOWN_ERROR
        | pubKeySerialized::stackCopy => do
          let stack ← evalScript E P stackCopy pubKeySerialized flags checker
          requireTrue stack
    else .ok ()

end CScriptNum

variable {E : EvalEnv} {P : Params} {R : Rules} {flags : UInt32}

variable {R' : Rules} {flags' : UInt32}

/-- The second rules and flags allow what the first do. They differ in pushes, lock times and
signatures only, and the first flags already forbid the spare operations. -/
structure Allows (R : Rules) (flags : UInt32) (R' : Rules) (flags' : UInt32) : Prop where
  numbers : R' = { R with
    checkMinimalPush := R'.checkMinimalPush, checkLockTime := R'.checkLockTime, checkSig := R'.checkSig }
  push : ∀ data opcode, R'.checkMinimalPush data opcode = true
  lock : ∀ stack, R.checkLockTime stack ≠ .ok ()
  sig : ∀ {vchSig vchPubKey scriptCode fOk}, R.checkSig vchSig vchPubKey scriptCode = .ok fOk →
    R'.checkSig vchSig vchPubKey scriptCode = .ok fOk
  nops : flags &&& Flags.DISCOURAGE_UPGRADABLE_NOPS ≠ 0
  dummy : flags &&& Flags.NULLDUMMY ≠ 0

theorem Allows.getint (h : Allows R flags R' flags') : R'.getint = R.getint := by
  rw [h.numbers]

theorem Allows.checkSigs (h : Allows R flags R' flags') {scriptCode keys sigs fSuccess}
    (hrun : checkSigs R scriptCode keys sigs = .ok fSuccess) :
    checkSigs R' scriptCode keys sigs = .ok fSuccess := by
  induction keys generalizing sigs with
  | nil => cases sigs <;> exact hrun
  | cons vchPubKey keys ih =>
    cases sigs with
    | nil => exact hrun
    | cons vchSig sigs =>
      obtain ⟨fOk,hsig,hrest⟩ := bind_eq_ok.mp hrun
      refine bind_eq_ok.mpr ⟨fOk,h.sig hsig,?_⟩
      dsimp only at hrest ⊢
      split_ifs at hrest ⊢
      · exact hrest
      · exact ih hrest
      · exact hrest
      · exact ih hrest

theorem Allows.execMultiSig (h : Allows R flags R' flags') {m x}
    (hrun : execMultiSig R flags m = .ok x) : execMultiSig R' flags' m = .ok x := by
  unfold Script.execMultiSig at hrun ⊢
  rw [h.getint]
  cases hm : m.stack with
  | nil =>
    rw [hm] at hrun
    exact hrun
  | cons top stack =>
    rw [hm] at hrun
    obtain ⟨nKeysCount,hkeys,hrun⟩ := bind_eq_ok.mp hrun
    refine bind_eq_ok.mpr ⟨nKeysCount,hkeys,?_⟩
    dsimp only at hrun ⊢
    split_ifs at hrun ⊢
    cases hstack : stack.drop nKeysCount.toNat with
    | nil =>
      rw [hstack] at hrun
      exact hrun
    | cons top' rest =>
      rw [hstack] at hrun
      obtain ⟨nSigsCount,hsigs,hrun⟩ := bind_eq_ok.mp hrun
      refine bind_eq_ok.mpr ⟨nSigsCount,hsigs,?_⟩
      split_ifs at hrun ⊢
      cases hrest : rest.drop nSigsCount.toNat with
      | nil =>
        rw [hrest] at hrun
        exact hrun
      | cons dummy rest' =>
        rw [hrest] at hrun
        obtain ⟨fSuccess,hcheck,hrun⟩ := bind_eq_ok.mp hrun
        refine bind_eq_ok.mpr ⟨fSuccess,h.checkSigs hcheck,?_⟩
        by_cases hdummy : dummy = []
        · simpa [hdummy] using hrun
        · simp [hdummy,h.dummy] at hrun

theorem Allows.execOp (h : Allows R flags R' flags') {fExec pc m m' op}
    (hrun : execOp E P R flags fExec pc m op = .ok m') :
    execOp E P R' flags' fExec pc m op = .ok m' := by
  cases op with
  | upgradableNop => simp [Script.execOp,h.nops] at hrun
  | checkLockTimeVerify =>
    obtain ⟨u,hlock,-⟩ := bind_eq_ok.mp hrun
    exact absurd hlock (h.lock m.stack)
  | checkSig fVerify =>
    unfold Script.execOp at hrun ⊢
    rcases hstack : m.stack with _ | ⟨vchPubKey,_ | ⟨vchSig,stack⟩⟩
    · rw [hstack] at hrun
      exact hrun
    · rw [hstack] at hrun
      exact hrun
    · rw [hstack] at hrun
      obtain ⟨fSuccess,hsig,hrun⟩ := bind_eq_ok.mp hrun
      exact bind_eq_ok.mpr ⟨fSuccess,h.sig hsig,hrun⟩
  | checkMultiSig fVerify =>
    obtain ⟨x,hmulti,hrun⟩ := bind_eq_ok.mp hrun
    exact bind_eq_ok.mpr ⟨x,h.execMultiSig hmulti,hrun⟩
  | _ =>
    rw [h.numbers]
    exact hrun

theorem Allows.exec (h : Allows R flags R' flags') {r m m'} (hrun : exec E P R flags r m = .ok m') :
    exec E P R' flags' r m = .ok m' := by
  unfold Script.exec at hrun ⊢
  dsimp only at hrun ⊢
  by_cases hpush : (m.vfExec.all id && r.opcode ≤ OP_PUSHDATA4)
  · rw [if_pos hpush] at hrun ⊢
    rw [if_neg (by simp [h.push])]
    split_ifs at hrun
    exact hrun
  · rw [if_neg hpush] at hrun ⊢
    split_ifs at hrun ⊢
    · exact h.execOp hrun
    · exact hrun

theorem Allows.step (h : Allows R flags R' flags') {r m m'} (hrun : step E P R flags r m = .ok m') :
    step E P R' flags' r m = .ok m' := by
  unfold Script.step at hrun ⊢
  dsimp only at hrun ⊢
  by_cases hok : (!r.ok)
  · rw [if_pos hok] at hrun
    cases hrun
  · rw [if_neg hok] at hrun ⊢
    by_cases hsize : MAX_SCRIPT_ELEMENT_SIZE < r.data.length
    · rw [if_pos hsize] at hrun
      cases hrun
    · rw [if_neg hsize] at hrun ⊢
      by_cases hcount : (OP_16 < r.opcode && 201 < if OP_16 < r.opcode then m.nOpCount+1 else m.nOpCount)
      · rw [if_pos hcount] at hrun
        cases hrun
      · rw [if_neg hcount] at hrun ⊢
        by_cases hdisabled : r.opcode ∈ disabledOpcodes
        · rw [if_pos hdisabled] at hrun
          cases hrun
        · rw [if_neg hdisabled] at hrun ⊢
          obtain ⟨m'',hexec,hrun⟩ := bind_eq_ok.mp hrun
          exact bind_eq_ok.mpr ⟨m'',h.exec hexec,hrun⟩

theorem Allows.evalWith (h : Allows R flags R' flags') {stack stack' script}
    (hrun : evalWith E P R flags stack script = .ok stack') :
    evalWith E P R' flags' stack script = .ok stack' := by
  have hloop : ∀ {fuel : ℕ} {pc : CScript} {m : Machine}, evalLoop E P R flags fuel pc m = .ok stack' →
      evalLoop E P R' flags' fuel pc m = .ok stack' := by
    intro fuel
    induction fuel with
    | zero =>
      intro pc m hrun
      cases pc <;> exact hrun
    | succ fuel ih =>
      intro pc m hrun
      cases pc with
      | nil => exact hrun
      | cons b pc =>
        obtain ⟨m',hstep,hrun⟩ := bind_eq_ok.mp hrun
        exact bind_eq_ok.mpr ⟨m',h.step hstep,ih hrun⟩
  unfold Script.evalWith at hrun ⊢
  split_ifs at hrun ⊢
  exact hloop hrun

open CScriptNum

theorem checkSignatureEncoding_standard {vchSig} :
    checkSignatureEncoding E Flags.STANDARD vchSig = .ok () ↔
      isDERSignature vchSig ∧ isDefinedHashtypeSignature E vchSig := by
  have hder : Flags.STANDARD &&& (Flags.DERSIG ||| Flags.LOW_S ||| Flags.STRICTENC) ≠ 0 := by decide
  have hlow : Flags.STANDARD &&& Flags.LOW_S = 0 := by decide
  have hstrict : Flags.STANDARD &&& Flags.STRICTENC ≠ 0 := by decide
  unfold checkSignatureEncoding
  cases isDERSignature vchSig <;> cases isDefinedHashtypeSignature E vchSig <;> simp [hder,hlow,hstrict]

theorem checkPubKeyEncoding_standard {vchPubKey} :
    checkPubKeyEncoding Flags.STANDARD vchPubKey = .ok () ↔
      isCompressedOrUncompressedPubKey vchPubKey := by
  have hstrict : Flags.STANDARD &&& Flags.STRICTENC ≠ 0 := by decide
  unfold checkPubKeyEncoding
  cases isCompressedOrUncompressedPubKey vchPubKey <;> simp [hstrict]

/-- A signature that is well encoded for the checkers is so for the interpreter of blocks, under
any flags. -/
theorem checkSignatureEncoding_of_der {vchSig} (hder : isDERSignature vchSig)
    (hlow : isDefinedHashtypeSignature E vchSig) :
    CBigNum.checkSignatureEncoding E flags vchSig := by
  have hlow' : E.checkLowS vchSig.dropLast := by
    simp only [isDefinedHashtypeSignature,Bool.and_eq_true] at hlow
    exact hlow.2
  unfold CBigNum.checkSignatureEncoding
  split_ifs
  · rfl
  · simp [CBigNum.isLowDERSignature,hder,hlow,hlow']

/-- The interpreter of blocks allows what the checkers do under the standard flags, if the two
checks of signatures agree. -/
theorem allows_rules {checkSig checker} (hsame : ∀ vchSig vchPubKey scriptCode, vchSig ≠ [] →
      checkSig vchSig vchPubKey scriptCode = checker vchSig vchPubKey scriptCode) (txTo nIn flags) :
    Allows (rules E checker Flags.STANDARD) Flags.STANDARD (CBigNum.rules E checkSig txTo nIn flags)
      flags where
  numbers := rules_numbers (by decide) checkSig checker txTo nIn flags
  push := fun _ _ => rfl
  lock := by
    intro stack h
    cases h
  sig := by
    intro vchSig vchPubKey scriptCode fOk h
    simp only [rules,andThen_eq_ok,checkSignatureEncoding_standard,checkPubKeyEncoding_standard] at h
    obtain ⟨⟨hder,hlow⟩,hkey,hcheck⟩ := h
    have hsig : vchSig ≠ [] := by
      intro hnil
      rw [hnil] at hder
      cases hder
    simp only [CBigNum.rules,checkSignatureEncoding_of_der hder hlow,hkey,hsame vchSig vchPubKey scriptCode hsig]
    simpa using hcheck
  nops := by decide
  dummy := by decide

inductive Decodes : CScript → List ReadOp → Prop
  | nil : Decodes [] []
  | cons {b : UInt8} {pc : CScript} {l : List ReadOp} (hok : (getOp2 (b::pc)).ok = true)
      (h : Decodes (getOp2 (b::pc)).rest l) : Decodes (b::pc) (getOp2 (b::pc)::l)

def runOps (E : EvalEnv) (P : Params) (R : Rules) (flags : UInt32) (l : List ReadOp) (m : Machine) :
    Except ScriptError Machine :=
  l.foldlM (fun m r => step E P R flags r m) m

def finish (m : Machine) : Except ScriptError (List Valtype) :=
  if m.vfExec = [] then .ok m.stack else .error .UNBALANCED_CONDITIONAL

variable {pc script : CScript} {fuel opcode : ℕ} {l : List ReadOp} {r : ReadOp} {m m' : Machine} {data : List Valtype}

theorem exists_fuel_rest {b} (h : (b::pc).length ≤ fuel) :
    ∃ n, fuel = n+1 ∧ (getOp2 (b::pc)).rest.length ≤ n := by
  have hrest := length_rest_getOp2 b pc
  rw [length_cons] at h
  exact ⟨fuel-1,by omega,by omega⟩

theorem evalLoop_of_decodes (h : Decodes pc l) (hfuel : pc.length ≤ fuel)
    (m : Machine) : evalLoop E P R flags fuel pc m = runOps E P R flags l m >>= finish := by
  induction h generalizing fuel m with
  | nil => cases fuel <;> rfl
  | @cons b pc l hok h ih =>
    obtain ⟨fuel,rfl,hrest⟩ := exists_fuel_rest hfuel
    show step E P R flags (getOp2 (b::pc)) m >>= evalLoop E P R flags fuel (getOp2 (b::pc)).rest = _
    rw [runOps,foldlM_cons,bind_assoc]
    congr 1
    funext m
    exact ih hrest m

theorem evalWith_of_decodes (h : Decodes script l) (hsize : script.length ≤ 10000)
    (stack : List Valtype) :
    evalWith E P R flags stack script = runOps E P R flags l ⟨stack,[],[],0,script⟩ >>= finish := by
  unfold evalWith
  rw [if_neg (by omega)]
  exact evalLoop_of_decodes h le_rfl _

theorem Decodes.isPushOnly (h : Decodes script l) (hl : ∀ r ∈ l, r.opcode ≤ OP_16) :
    isPushOnly script := by
  have hloop : ∀ {fuel : ℕ}, script.length ≤ fuel → pushOnly fuel script := by
    induction h with
    | nil =>
      intro fuel _
      cases fuel <;> rfl
    | @cons b pc l hok h ih =>
      intro fuel hfuel
      obtain ⟨fuel,rfl,hrest⟩ := exists_fuel_rest hfuel
      have h1 := hl _ mem_cons_self
      have h2 := ih (fun r hr => hl r (mem_cons_of_mem _ hr)) hrest
      simp [pushOnly,hok,h1,h2]
  exact hloop le_rfl

structure IsPush (r : ReadOp) : Prop where
  ok : r.ok = true
  opcode : r.opcode ≤ OP_PUSHDATA4
  size : r.data.length ≤ MAX_SCRIPT_ELEMENT_SIZE

theorem step_push (hr : IsPush r) (hexec : m.vfExec = [])
    (hminimal : ∀ data opcode, R.checkMinimalPush data opcode)
    (hsize : m.stack.length+m.altstack.length < 1000) :
    step E P R flags r m = .ok { m with stack := r.data::m.stack } := by
  have h1 : ¬ OP_16 < r.opcode := by
    have h2 := hr.opcode
    simp only [OP_PUSHDATA4,OP_16] at h2 ⊢
    omega
  have h2 : r.opcode ∉ disabledOpcodes := by
    intro hmem
    have h3 : ∀ opcode ∈ disabledOpcodes, OP_16 < opcode := by decide
    exact h1 (h3 _ hmem)
  have h3 : ¬ MAX_SCRIPT_ELEMENT_SIZE < r.data.length := not_lt.mpr hr.size
  simp [step,exec,hr.ok,hr.opcode,h1,h2,h3,hexec,hminimal,bind,Except.bind]
  omega

def limit (m : Machine) : Except ScriptError Machine :=
  if 1000 < m.stack.length+m.altstack.length then .error .STACK_SIZE else .ok m

structure IsPlain (r : ReadOp) (opcode : ℕ) : Prop where
  ok : r.ok = true
  data : r.data = []
  opcode_eq : r.opcode = opcode

/-- An operation outside of conditionals, while operations are left: it is executed, and the
stacks must not have become too high. -/
theorem step_plain (hr : IsPlain r opcode) (hop : OP_16 < opcode)
    (hdisabled : opcode ∉ disabledOpcodes) (hexec : m.vfExec = []) (hcount : m.nOpCount < 201) :
    step E P R flags r m = execOp E P R flags true r.rest { m with nOpCount := m.nOpCount+1 }
      (decodeOp opcode) >>= limit := by
  have hpush : ¬ opcode ≤ OP_PUSHDATA4 := by
    simp only [OP_PUSHDATA4,OP_16] at hop ⊢
    omega
  have hlimit : ¬ 201 < m.nOpCount+1 := by omega
  simp [step,exec,hr.ok,hr.data,hr.opcode_eq,hop,hdisabled,hexec,hlimit,hpush]
  rfl

theorem step_op (hr : IsPlain r opcode) (hop : OP_16 < opcode)
    (hdisabled : opcode ∉ disabledOpcodes) (hexec : m.vfExec = []) (hcount : m.nOpCount < 201)
    (hrun : execOp E P R flags true r.rest { m with nOpCount := m.nOpCount+1 } (decodeOp opcode) =
      .ok m')
    (hsize : m'.stack.length+m'.altstack.length ≤ 1000) : step E P R flags r m = .ok m' := by
  rw [step_plain hr hop hdisabled hexec hcount,hrun]
  exact if_neg (not_lt.mpr hsize)

/-- The opcodes of small numbers are not counted. -/
theorem step_number {n} (hr : IsPlain r (OP_1-1+n)) (hpos : 1 ≤ n) (hle : n ≤ 16)
    (hexec : m.vfExec = []) (hsize : m.stack.length+m.altstack.length < 1000) :
    step E P R flags r m = .ok { m with stack := R.pushNumber (Int64.ofInt n)::m.stack } := by
  have h1 : ¬ OP_16 < OP_1-1+n := by
    simp only [OP_1,OP_16]
    omega
  have h2 : OP_1-1+n ∉ disabledOpcodes := by
    intro hmem
    have h3 : ∀ opcode ∈ disabledOpcodes, OP_16 < opcode := by decide
    exact h1 (h3 _ hmem)
  have h3 : ¬ OP_1-1+n ≤ OP_PUSHDATA4 := by
    simp only [OP_1,OP_PUSHDATA4]
    omega
  have h4 : decodeOp (OP_1-1+n) = .number (Int64.ofInt n) := by
    interval_cases n <;> rfl
  simp [step,exec,hr.ok,hr.data,hr.opcode_eq,h1,h2,h3,h4,hexec,execOp,bind,Except.bind]
  omega

theorem runOps_cons (h : step E P R flags r m = .ok m') :
    runOps E P R flags (r::l) m = runOps E P R flags l m' := by
  rw [runOps,foldlM_cons,h]
  rfl

theorem runOps_append (l l' m) :
    runOps E P R flags (l++l') m = runOps E P R flags l m >>= runOps E P R flags l' := by
  rw [runOps,foldlM_append]
  rfl

theorem runOps_pushes (hl : ∀ r ∈ l, IsPush r) (hexec : m.vfExec = [])
    (hminimal : ∀ data opcode, R.checkMinimalPush data opcode)
    (hsize : l.length+m.stack.length+m.altstack.length ≤ 1000) :
    runOps E P R flags l m = .ok { m with stack := (l.map ReadOp.data).reverse++m.stack } := by
  induction l generalizing m with
  | nil => rfl
  | cons r l ih =>
    rw [length_cons] at hsize
    have hrest := ih (m := { m with stack := r.data::m.stack })
        (fun r hr => hl r (mem_cons_of_mem _ hr)) hexec (by
      show l.length+(m.stack.length+1)+m.altstack.length ≤ 1000
      omega)
    rw [runOps_cons (step_push (hl r mem_cons_self) hexec hminimal (by omega)),hrest]
    simp

theorem getOp2_pushVector {data} (h : data.length < 2^32) (rest) :
    getOp2 (pushVector data++rest) = ⟨true,pushMark data.length,data,rest⟩ := by
  have hmark : (UInt8.ofNat (pushMark data.length)).toNat = pushMark data.length := by
    have h1 := pushMark_le data.length
    rw [UInt8.toNat_ofNat',Nat.mod_eq_of_lt]
    simp only [OP_PUSHDATA4] at h1
    omega
  have hvalue : ¬ pushMark data.length < OP_PUSHDATA1 → data.length < 256^pushWidth (pushMark data.length) := by
    unfold pushMark
    split_ifs with h1 h2 h3 <;> simp [pushWidth,OP_PUSHDATA1,OP_PUSHDATA2,OP_PUSHDATA4] at h1 ⊢ <;> omega
  have hshort : pushMark data.length < OP_PUSHDATA1 → pushMark data.length = data.length := by
    unfold pushMark
    split_ifs with h1 h2 h3 <;> simp [OP_PUSHDATA1,OP_PUSHDATA2,OP_PUSHDATA4] at h1 ⊢
  have hsize : (if pushMark data.length < OP_PUSHDATA1 then pushMark data.length
      else leValue (leBytes (pushWidth (pushMark data.length)) data.length)) = data.length := by
    split_ifs with h1
    · exact hshort h1
    · exact leValue_leBytes (hvalue h1)
  rw [pushVector,pushHeader_eq,cons_append,cons_append,append_assoc]
  unfold getOp2
  simp [hmark,pushMark_le,length_leBytes,hsize]

theorem Decodes.of_getOp2 (h : getOp2 pc = r) (hok : r.ok) (hrest : Decodes r.rest l) :
    Decodes pc (r::l) := by
  subst h
  cases pc with
  | nil => cases hok
  | cons b pc => exact .cons hok hrest

theorem decodes_pushes (h : ∀ d ∈ data, d.length ≤ MAX_SCRIPT_ELEMENT_SIZE) :
    ∃ l, Decodes (data.flatMap pushVector) l ∧ l.map ReadOp.data = data ∧ ∀ r ∈ l, IsPush r := by
  induction data with
  | nil => exact ⟨[],.nil,rfl,fun r hr => absurd hr not_mem_nil⟩
  | cons d data ih =>
    obtain ⟨l,hl,hdata,hpush⟩ := ih fun d hd => h d (mem_cons_of_mem _ hd)
    have hd := h d mem_cons_self
    have hsize : d.length < 2^32 := by
      simp only [MAX_SCRIPT_ELEMENT_SIZE] at hd
      omega
    have hread := getOp2_pushVector hsize (data.flatMap pushVector)
    refine ⟨_::l,.of_getOp2 hread rfl hl,by simp [hdata],?_⟩
    intro r hr
    rcases mem_cons.mp hr with rfl | hr
    · exact ⟨rfl,pushMark_le d.length,hd⟩
    · exact hpush r hr

theorem evalWith_pushes (h : ∀ d ∈ data, d.length ≤ MAX_SCRIPT_ELEMENT_SIZE)
    (hminimal : ∀ d opcode, R.checkMinimalPush d opcode) (hcount : data.length ≤ 1000)
    (hsize : (data.flatMap pushVector).length ≤ 10000) :
    evalWith E P R flags [] (data.flatMap pushVector) = .ok data.reverse := by
  obtain ⟨l,hl,hdata,hpush⟩ := decodes_pushes h
  have hlen : l.length = data.length := by rw [← hdata,length_map]
  rw [evalWith_of_decodes hl hsize,runOps_pushes hpush rfl hminimal (by simp [hlen,hcount])]
  simp [hdata,bind,Except.bind,finish]

theorem isPushOnly_pushes (h : ∀ d ∈ data, d.length ≤ MAX_SCRIPT_ELEMENT_SIZE) :
    isPushOnly (data.flatMap pushVector) := by
  obtain ⟨l,hl,-,hpush⟩ := decodes_pushes h
  refine hl.isPushOnly fun r hr => le_trans (hpush r hr).opcode (by decide)

theorem eq_of_isPayToScriptHash (h : isPayToScriptHash script) :
    script = 0xa9::0x14::((script.drop 2).take 20++[0x87]) ∧
      ((script.drop 2).take 20).length = 20 := by
  rcases script with _ | ⟨b₀,_ | ⟨b₁,rest⟩⟩
  · cases h
  · cases h
  · simp only [isPayToScriptHash,Bool.and_eq_true,decide_eq_true_eq,length_cons,getElem?_cons_zero,
      getElem?_cons_succ,Option.some.injEq] at h
    obtain ⟨⟨⟨hlen,rfl⟩,rfl⟩,hlast⟩ := h
    have hlen' : rest.length = 21 := by omega
    have hdrop : rest.drop 20 = [0x87] := by
      obtain ⟨x,hx⟩ := length_eq_one_iff.mp (show (rest.drop 20).length = 1 by rw [length_drop,hlen'])
      have h1 : (rest.drop 20)[0]? = some 0x87 := by rw [getElem?_drop]; exact hlast
      rw [hx] at h1 ⊢
      simpa using h1
    have hsplit := take_append_drop 20 rest
    rw [hdrop] at hsplit
    exact ⟨by rw [drop_succ_cons,drop_succ_cons,drop_zero,hsplit],by simp [hlen']⟩

/-- The output script that names a script: hash what is on the stack and compare. -/
theorem evalWith_scriptHash {scriptPubKey} (h : isPayToScriptHash scriptPubKey)
    (hminimal : ∀ d opcode, R.checkMinimalPush d opcode) {stack} (hcount : stack.length < 998) :
    evalWith E P R flags (script::stack) scriptPubKey =
      .ok ((if leBytes 20 (P.hash160 script).toNat =
        (scriptPubKey.drop 2).take 20 then vchTrue else vchFalse)::stack) := by
  obtain ⟨hscript,hlen⟩ := eq_of_isPayToScriptHash h
  generalize (scriptPubKey.drop 2).take 20 = hash at hscript hlen
  have hpush : getOp2 (0x14::(hash++[0x87])) = ⟨true,20,hash,[0x87]⟩ := by
    have h1 : getOp2 (UInt8.ofNat hash.length::(hash++[0x87])) = ⟨true,hash.length,hash,[0x87]⟩ :=
      getOp2_push (by rw [hlen]; decide)
    rw [hlen] at h1
    exact h1
  have hdecodes : Decodes scriptPubKey [⟨true,0xa9,[],0x14::(hash++[0x87])⟩,⟨true,20,hash,[0x87]⟩,
      ⟨true,0x87,[],[]⟩] := by
    rw [hscript]
    exact .of_getOp2 rfl rfl (.of_getOp2 hpush rfl (.of_getOp2 rfl rfl .nil))
  rw [evalWith_of_decodes hdecodes (by rw [hscript]; simp [hlen])]
  -- HASH160, the push of the hash, and EQUAL
  have hhash : step E P R flags ⟨true,0xa9,[],0x14::(hash++[0x87])⟩ ⟨script::stack,[],[],0,scriptPubKey⟩ =
      .ok ⟨leBytes 20 (P.hash160 script).toNat::stack,[],[],1,scriptPubKey⟩ :=
    step_op (show IsPlain _ 0xa9 from ⟨rfl,rfl,rfl⟩) (by decide) (by decide) rfl (show 0 < 201 by decide) rfl
      (by show stack.length+1+0 ≤ 1000; omega)
  have hdata : step E P R flags ⟨true,20,hash,[0x87]⟩ ⟨leBytes 20 (P.hash160 script).toNat::stack,
      [],[],1,scriptPubKey⟩ =
      .ok ⟨hash::leBytes 20 (P.hash160 script).toNat::stack,[],[],1,scriptPubKey⟩ :=
    step_push ⟨rfl,by show 20 ≤ OP_PUSHDATA4; decide,by show hash.length ≤ _; rw [hlen]; decide⟩ rfl hminimal
      (by show stack.length+1+0 < 1000; omega)
  have hequal : step E P R flags ⟨true,0x87,[],[]⟩
      ⟨hash::leBytes 20 (P.hash160 script).toNat::stack,[],[],1,scriptPubKey⟩ =
      .ok ⟨(if leBytes 20 (P.hash160 script).toNat = hash then vchTrue else vchFalse)::stack,[],[],2,scriptPubKey⟩ := by
    refine step_op (show IsPlain _ 0x87 from ⟨rfl,rfl,rfl⟩) (by decide) (by decide) rfl (show 1 <
      201 by decide) ?_
      (by show stack.length+1+0 ≤ 1000; omega)
    show execOp E P R flags true [] _ (.equal false) = _
    simp [execOp,answer,bind,Except.bind]
  rw [runOps_cons hhash,runOps_cons hdata,runOps_cons hequal]
  rfl

end Script

end DarkSilk
