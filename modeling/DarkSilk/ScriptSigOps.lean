import DarkSilk.ScriptBounds
import DarkSilk.BlockFile

/-! The count of signature operations against the calls that are made. The scan counts the keys
of CHECKMULTISIG by the number that was pushed right before, if there was one; the interpreter
takes the count from the stack. Where the operation is executed and a number was pushed right
before, that number is on top of the stack. -/
namespace DarkSilk

open PrefixCode List

namespace Script
namespace Access

def opSigOps (fAccurate : Bool) (lastOpcode opcode : ℕ) : ℕ :=
  if opcode = OP_CHECKSIG || opcode = OP_CHECKSIGVERIFY then 1
  else if opcode = OP_CHECKMULTISIG || opcode = OP_CHECKMULTISIGVERIFY then
    if fAccurate && OP_1 ≤ lastOpcode && lastOpcode ≤ OP_16 then lastOpcode-(OP_1-1) else 20
  else 0

theorem sigOps_cons (fAccurate fuel lastOpcode b pc) :
    sigOps fAccurate (fuel+1) lastOpcode (b::pc) = if (getOp2 (b::pc)).ok then
      opSigOps fAccurate lastOpcode (getOp2 (b::pc)).opcode+
        sigOps fAccurate fuel (getOp2 (b::pc)).opcode (getOp2 (b::pc)).rest else 0 := by
  simp only [sigOps,opSigOps]
  cases (getOp2 (b::pc)).ok <;> rfl

theorem opSigOps_le (fAccurate lastOpcode opcode) : opSigOps fAccurate lastOpcode opcode ≤ 20 := by
  unfold opSigOps OP_1 OP_16
  split_ifs with h1 h2 h3
  · omega
  · simp only [Bool.and_eq_true,decide_eq_true_eq] at h3
    omega
  · exact le_rfl
  · omega

theorem opSigOps_accurate_le (lastOpcode opcode) :
    opSigOps true lastOpcode opcode ≤ opSigOps false lastOpcode opcode := by
  by_cases h : opcode = OP_CHECKMULTISIG ∨ opcode = OP_CHECKMULTISIGVERIFY
  · have hfalse : opSigOps false lastOpcode opcode = 20 := by
      rcases h with rfl | rfl <;> rfl
    rw [hfalse]
    exact opSigOps_le true lastOpcode opcode
  · rw [not_or] at h
    simp [opSigOps,h.1,h.2]

theorem sigOps_accurate_le (fuel lastOpcode pc) :
    sigOps true fuel lastOpcode pc ≤ sigOps false fuel lastOpcode pc := by
  induction fuel generalizing lastOpcode pc with
  | zero => exact le_rfl
  | succ fuel ih =>
    cases pc with
    | nil => exact le_rfl
    | cons b pc =>
      rw [sigOps_cons,sigOps_cons]
      split_ifs
      · exact Nat.add_le_add (opSigOps_accurate_le lastOpcode _) (ih _ _)
      · exact le_rfl

theorem sigOps_le (fAccurate fuel lastOpcode pc) :
    sigOps fAccurate fuel lastOpcode pc ≤ 20*fuel := by
  induction fuel generalizing lastOpcode pc with
  | zero => exact le_rfl
  | succ fuel ih =>
    cases pc with
    | nil => exact Nat.zero_le _
    | cons b pc =>
      have hop := opSigOps_le fAccurate lastOpcode (getOp2 (b::pc)).opcode
      have hrest := ih (getOp2 (b::pc)).opcode (getOp2 (b::pc)).rest
      rw [sigOps_cons]
      split_ifs <;> omega

theorem getSigOpCount_mod (fAccurate) {script} (h : script.length ≤ MAX_SIZE) :
    getSigOpCount fAccurate script%2^32 = getSigOpCount fAccurate script := by
  have hle := sigOps_le fAccurate script.length OP_INVALIDOPCODE script
  unfold MAX_SIZE at h
  exact Nat.mod_eq_of_lt (by unfold getSigOpCount; omega)

variable (C : Context)

/-- A number that was just pushed, where things are executed, is on top of the stack. -/
def LastNumber (lastOpcode : ℕ) (m : Machine) : Prop :=
  OP_1 ≤ lastOpcode → lastOpcode ≤ OP_16 → m.vfExec.all id = true →
    m.stack.head? = some (getvch ((lastOpcode-(OP_1-1) : ℕ) : ℤ))

theorem keysCount_le (m) : keysCount C m ≤ 20 := by
  unfold keysCount
  split
  · omega
  · split
    · omega
    · split_ifs with h
      · omega
      · simp only [Bool.or_eq_true,decide_eq_true_eq,not_or] at h
        omega

theorem getint_getvch {n : ℕ} (h : n < 256) : C.rules.getint (getvch n) = .ok (n : ℤ) := by
  have hlength := length_getvch_le (n := n) (j := 1) (by simpa using h)
  have hcast : CBigNum.castToBigNum 4 (getvch n) = .ok (n : ℤ) := by
    unfold CBigNum.castToBigNum
    rw [if_neg (by omega),setvch_getvch,setvch_getvch]
  have hsmall : Small (n : ℤ) := ⟨by omega,by omega⟩
  dsimp only [Context.rules,CBigNum.rules]
  rw [hcast]
  exact congrArg Except.ok (getint_eq hsmall)

variable {lastOpcode opcode : ℕ} {m m' : Machine} {R : Rules} {r : ReadOp} {pc : CScript}

theorem keysCount_lastNumber (h : LastNumber lastOpcode m) (hlow : OP_1 ≤ lastOpcode)
    (hhigh : lastOpcode ≤ OP_16) (hexec : m.vfExec.all id) :
    keysCount C m ≤ lastOpcode-(OP_1-1) := by
  have hhead := h hlow hhigh hexec
  unfold OP_16 at hhigh
  unfold keysCount
  cases hstack : m.stack with
  | nil => exact Nat.zero_le _
  | cons top stack =>
    rw [hstack,head?_cons,Option.some.injEq] at hhead
    dsimp only
    rw [hhead,getint_getvch C (by omega)]
    dsimp only
    split_ifs
    · exact Nat.zero_le _
    · rw [Int.toNat_natCast]

theorem stepCalls_le (h : LastNumber lastOpcode m) (r) :
    stepCalls C r m ≤ opSigOps true lastOpcode r.opcode := by
  unfold stepCalls
  split_ifs with hexec
  · by_cases hopcode : r.opcode ∈ signatureOpcodes
    · have hkeys : keysCount C m ≤
          if true && OP_1 ≤ lastOpcode && lastOpcode ≤ OP_16 then lastOpcode-(OP_1-1) else 20 := by
        split_ifs with hlast
        · simp only [Bool.true_and,Bool.and_eq_true,decide_eq_true_eq] at hlast
          exact keysCount_lastNumber C h hlast.1 hlast.2 hexec
        · exact keysCount_le C m
      simp only [signatureOpcodes,mem_cons,not_mem_nil,or_false] at hopcode
      rcases hopcode with hop | hop | hop | hop
      · rw [hop]
        exact le_rfl
      · rw [hop]
        exact le_rfl
      · rw [hop]
        exact hkeys
      · rw [hop]
        exact hkeys
    · have hchecks := checksSig_decodeOp hopcode
      cases hop : decodeOp r.opcode with
      | checkSig | checkMultiSig =>
        rw [hop] at hchecks
        cases hchecks
      | _ => exact Nat.zero_le _
  · exact Nat.zero_le _

theorem decodeOp_low (hlow : OP_PUSHDATA4 < opcode) (hhigh : opcode ≤ OP_16) :
    decodeOp opcode = .bad ∨ (opcode = OP_1NEGATE ∨ OP_1 ≤ opcode) ∧
      ∃ n : Int64, decodeOp opcode = .number n ∧ n.toInt = opcode-(OP_1-1 : ℕ) := by
  unfold OP_PUSHDATA4 at hlow
  unfold OP_16 at hhigh
  by_cases hreserved : opcode = 0x50
  · rw [hreserved]
    exact .inl rfl
  · refine .inr ?_
    interval_cases opcode
    all_goals first
      | exact absurd rfl hreserved
      | exact ⟨by decide,_,rfl,by decide⟩

/-- Up to the numbers a script only pushes: the data that was read, or the number. -/
theorem step_pushed (hR : ∀ n, R.pushNumber n = getvch n.toInt) (hle : r.opcode ≤ OP_16)
    (hrun : Script.step C.E C.P R C.flags r m = .ok m') :
    m'.vfExec = m.vfExec ∧ (m.vfExec.all id → r.opcode ≤ OP_PUSHDATA4 ∧ m'.stack = r.data::m.stack ∨
        (OP_PUSHDATA4 < r.opcode ∧ (r.opcode = OP_1NEGATE ∨ OP_1 ≤ r.opcode)) ∧
          m'.stack = getvch (r.opcode-(OP_1-1 : ℕ))::m.stack) := by
  have hcounted : ¬OP_16 < r.opcode := Nat.not_lt.mpr hle
  have hnotIf : ¬OP_IF ≤ r.opcode := fun h => absurd (h.trans hle) (by decide)
  simp only [Script.step,hcounted,if_false,decide_false,Bool.false_and] at hrun
  split_ifs at hrun
  obtain ⟨m₁,hexec,hrun⟩ := bind_eq_ok.mp hrun
  split_ifs at hrun
  cases hrun
  simp only [Script.exec,hnotIf,decide_false,Bool.false_and,Bool.or_false] at hexec
  cases hall : m.vfExec.all id with
  | false =>
    rw [hall] at hexec
    cases hexec
    exact ⟨rfl,fun h => absurd h Bool.false_ne_true⟩
  | true =>
    rw [hall,Bool.true_and] at hexec
    by_cases hpush : r.opcode ≤ OP_PUSHDATA4
    · rw [if_pos (decide_eq_true hpush)] at hexec
      split_ifs at hexec
      cases hexec
      exact ⟨rfl,fun _ => .inl ⟨hpush,rfl⟩⟩
    · rw [if_neg (by simpa using hpush),if_pos rfl] at hexec
      obtain hbad | ⟨hnumber,n,hn,hvalue⟩ := decodeOp_low (Nat.lt_of_not_le hpush) hle
      · rw [hbad] at hexec
        cases hexec
      · rw [hn] at hexec
        cases hexec
        exact ⟨rfl,fun _ => .inr ⟨⟨Nat.lt_of_not_le hpush,hnumber⟩,by rw [hR,hvalue]⟩⟩

theorem lastNumber_step (hR : ∀ n, R.pushNumber n = getvch n.toInt)
    (hrun : Script.step C.E C.P R C.flags r m = .ok m') : LastNumber r.opcode m' := by
  intro hlow hhigh hexec'
  obtain ⟨hvfExec,hpushed⟩ := step_pushed C hR hhigh hrun
  rw [hvfExec] at hexec'
  obtain ⟨hpush,-⟩ | ⟨-,hstack⟩ := hpushed hexec'
  · exact absurd (hlow.trans hpush) (by decide)
  · rw [hstack,head?_cons,Nat.cast_sub ((by decide : OP_1-1 ≤ OP_1).trans hlow)]

theorem step_of_not_ok (h : r.ok = false) (m) : step C r m = (0,.error (.error .BAD_OPCODE)) := by
  unfold step
  rw [failIf_bind,h]
  rfl

theorem evalLoop_calls (fuel pc) (h : LastNumber lastOpcode m) :
    (evalLoop C fuel pc m).1 ≤ sigOps true fuel lastOpcode pc := by
  induction fuel generalizing lastOpcode pc m with
  | zero =>
    cases pc with
    | nil =>
      rw [evalLoop_nil,getMachine_bind,failIf_eq]
      split_ifs <;> exact le_rfl
    | cons b pc => exact le_rfl
  | succ fuel ih =>
    cases pc with
    | nil =>
      rw [evalLoop_nil,getMachine_bind,failIf_eq]
      split_ifs <;> exact Nat.zero_le _
    | cons b pc =>
      rw [evalLoop_cons,bind_eq,sigOps_cons]
      cases hok : (getOp2 (b::pc)).ok with
      | false =>
        rw [step_of_not_ok C hok]
        exact le_rfl
      | true =>
        rw [if_pos rfl]
        obtain ⟨n,hn,hstep⟩ := step_eq C (getOp2 (b::pc)) m
        have hcalls := hn.trans (stepCalls_le C h _)
        rw [hstep]
        cases hrun : Script.step C.E C.P C.rules C.flags (getOp2 (b::pc)) m with
        | error err => exact hcalls.trans (Nat.le_add_right _ _)
        | ok m' =>
          have hrest := ih (getOp2 (b::pc)).rest (lastNumber_step C (fun _ => rfl) hrun)
          exact (Nat.add_comm _ _).trans_le (Nat.add_le_add hcalls hrest)

theorem evalScript_calls (stack script) :
    (evalScript C stack script).1 ≤ getSigOpCount true script := by
  unfold evalScript getSigOpCount
  split_ifs
  · exact Nat.zero_le _
  · exact evalLoop_calls C _ _ fun hlow hhigh => absurd hhigh (by decide)

/-- The data of the last operation is on top of the stack, unless that was a number. -/
def LastData (data : Valtype) (stack : List Valtype) : Prop :=
  stack.head? = some data ∨ data = [] ∧ ∀ vch ∈ stack.head?, getSigOpCount true vch = 0

theorem data_getOp2 (h : OP_PUSHDATA4 < (getOp2 pc).opcode) : (getOp2 pc).data = [] := by
  cases pc with
  | nil => rfl
  | cons b pc =>
    simp only [getOp2] at h ⊢
    split_ifs at h ⊢ with hpush
    all_goals first
      | rfl
      | exact absurd hpush (Nat.not_le.mpr h)

theorem getSigOpCount_number (hlow : OP_PUSHDATA4 < opcode) (hhigh : opcode ≤ OP_16) :
    getSigOpCount true (getvch (opcode-(OP_1-1 : ℕ))) = 0 := by
  unfold OP_PUSHDATA4 at hlow
  unfold OP_16 at hhigh
  interval_cases opcode <;> rfl

theorem lastPush_evalLoop (hR : ∀ n, R.pushNumber n = getvch n.toInt) {fuel}
    (hpush : pushOnly fuel pc) {data}
    (hdata : LastData data m.stack) (hvfExec : m.vfExec = []) {stack}
    (hrun : Script.evalLoop C.E C.P R C.flags fuel pc m = .ok stack) :
    ∃ data', lastPush fuel data pc = some data' ∧ LastData data' stack := by
  induction fuel generalizing pc data m with
  | zero =>
    cases pc with
    | nil =>
      simp only [Script.evalLoop,hvfExec,if_true] at hrun
      cases hrun
      exact ⟨data,rfl,hdata⟩
    | cons b pc => cases hrun
  | succ fuel ih =>
    cases pc with
    | nil =>
      simp only [Script.evalLoop,hvfExec,if_true] at hrun
      cases hrun
      exact ⟨data,rfl,hdata⟩
    | cons b pc =>
      obtain ⟨m',hstep,hrun⟩ := bind_eq_ok.mp hrun
      simp only [pushOnly,Bool.and_eq_true,decide_eq_true_eq] at hpush
      obtain ⟨⟨hok,hle⟩,hpush⟩ := hpush
      obtain ⟨hsame,hpushed⟩ := step_pushed C hR hle hstep
      have hdata' : LastData (getOp2 (b::pc)).data m'.stack := by
        obtain ⟨-,hstack⟩ | ⟨⟨hlow,-⟩,hstack⟩ := hpushed (by rw [hvfExec]; rfl)
        · rw [hstack]
          exact .inl rfl
        · rw [hstack]
          refine .inr ⟨data_getOp2 hlow,?_⟩
          rintro vch ⟨⟩
          exact getSigOpCount_number hlow hle
      obtain ⟨data',hlast,hresult⟩ := ih hpush hdata' (hsame.trans hvfExec) hrun
      refine ⟨data',?_,hresult⟩
      simp only [lastPush,hok,Nat.not_lt.mpr hle,Bool.not_true,decide_false,Bool.or_false,
        Bool.false_eq_true,if_false]
      exact hlast

/-- Where calls are made for the script behind a hash, that script was on top of what the script
of the input left, and that one only pushes. -/
theorem redeemCalls_cases (scriptSig scriptPubKey) :
    (verifyScript C scriptSig scriptPubKey).redeemCalls = 0 ∨
      ∃ pubKeySerialized stackCopy, (evalScript C [] scriptSig).2 =
        .ok (pubKeySerialized::stackCopy) ∧
          isPushOnly scriptSig ∧ (verifyScript C scriptSig scriptPubKey).redeemCalls =
            (evalScript C stackCopy pubKeySerialized).1 := by
  unfold verifyScript
  rcases evalScript C [] scriptSig with ⟨n₁,stop | stackCopy⟩
  · exact .inl rfl
  dsimp only
  rcases evalScript C stackCopy scriptPubKey with ⟨n₂,stop | stack⟩
  · exact .inl rfl
  dsimp only
  rw [backTrue_eq]
  cases topTrue stack with
  | false => exact .inl rfl
  | true =>
    cases isPayToScriptHash scriptPubKey with
    | false => exact .inl rfl
    | true =>
      cases isPushOnly scriptSig with
      | false => exact .inl rfl
      | true =>
        cases stackCopy with
        | nil => exact .inl rfl
        | cons pubKeySerialized stackCopy =>
          refine .inr ⟨pubKeySerialized,stackCopy,rfl,rfl,?_⟩
          simp only [Bool.not_true,Bool.false_eq_true,if_false,back,tail_cons]
          rcases evalScript C stackCopy pubKeySerialized with ⟨n₃,stop | stack⟩ <;> rfl

theorem redeemCalls_le {scriptSig scriptPubKey} (h : isPayToScriptHash scriptPubKey) :
    (verifyScript C scriptSig scriptPubKey).redeemCalls ≤
      getSigOpCountP2SH scriptPubKey scriptSig%2^32 := by
  obtain hzero | ⟨pubKeySerialized,stackCopy,heval,hpush,hcalls⟩ :=
    redeemCalls_cases C scriptSig scriptPubKey
  · rw [hzero]
    exact Nat.zero_le _
  rw [hcalls]
  have hcount := evalScript_calls C stackCopy pubKeySerialized
  have hshort := (evalScript_inLimits C (Nat.zero_le _) (forall_mem_nil _) heval).2
    pubKeySerialized mem_cons_self
  obtain ⟨data,hlast,hdata⟩ : ∃ data, lastPush scriptSig.length [] scriptSig = some data ∧
      LastData data (pubKeySerialized::stackCopy) := by
    rw [evalScript_eq] at heval
    cases hwith : evalWith C.E C.P C.rules C.flags [] scriptSig with
    | error err =>
      rw [hwith] at heval
      cases heval
    | ok stack =>
      rw [hwith] at heval
      cases heval
      unfold evalWith at hwith
      split_ifs at hwith
      exact lastPush_evalLoop C (fun _ => rfl) hpush (.inr ⟨rfl,fun vch hvch => by cases hvch⟩) rfl hwith
  have hsigOps : getSigOpCountP2SH scriptPubKey scriptSig = getSigOpCount true data := by
    unfold getSigOpCountP2SH
    rw [h,hlast]
    rfl
  rw [hsigOps]
  obtain htop | ⟨rfl,hnumber⟩ := hdata
  · rw [head?_cons,Option.some.injEq] at htop
    rw [← htop,getSigOpCount_mod true (hshort.trans (by decide))]
    exact hcount
  · rw [hnumber pubKeySerialized rfl] at hcount
    exact hcount.trans (Nat.zero_le _)

/-- The calls of an evaluation are no more than the accurate count, and that is no more than the
other; the counters are unsigned and of 32 bits, and those of scripts that can be read do not
overflow. The script behind the hash of an output makes no more calls than the output counts
for the script of the input. -/
theorem sigOps_sound : (∀ (stack : List Valtype) (script : CScript),
      (evalScript C stack script).1 ≤ getSigOpCount true script%2^32 ∧
        getSigOpCount true script ≤ getSigOpCount false script ∧
        (script.length ≤ MAX_SIZE →
          getSigOpCount true script%2^32 ≤ getSigOpCount false script%2^32)) ∧
    ∀ scriptSig scriptPubKey : CScript, isPayToScriptHash scriptPubKey = true →
      (verifyScript C scriptSig scriptPubKey).redeemCalls ≤
        getSigOpCountP2SH scriptPubKey scriptSig%2^32 := by
  refine ⟨fun stack script => ⟨?_,sigOps_accurate_le _ _ _,fun hsize => ?_⟩,fun scriptSig scriptPubKey h =>
    redeemCalls_le C h⟩
  · by_cases hsize : 10000 < script.length
    · unfold evalScript
      rw [if_pos hsize]
      exact Nat.zero_le _
    · rw [getSigOpCount_mod true ((Nat.le_of_not_lt hsize).trans (by decide))]
      exact evalScript_calls C stack script
  · rw [getSigOpCount_mod true hsize,getSigOpCount_mod false hsize]
    exact sigOps_accurate_le _ _ _

/-- Two keys of the right form, a signature that no key fits, and CHECKMULTISIG with one of two:
both keys are tried, and two is what the number in front of the operation counts. -/
def Sample.oneOfTwo : List Valtype × CScript :=
  ([[0x30,0x06,0x02,0x01,0x01,0x02,0x01,0x01,0x01],[]],
    [0x51]++(0x21::0x02::List.replicate 32 0x07)++(0x21::0x03::List.replicate 32 0x07)++[0x52,0xae])

/-- The input of that signature and script, and an output with the hash of the script. -/
def Sample.oneOfTwoInput : CScript × CScript :=
  ((0x00::0x09::[0x30,0x06,0x02,0x01,0x01,0x02,0x01,0x01,0x01])++pushVector Sample.oneOfTwo.2,
    0xa9::0x14::leBytes 20 (DarkSilk.Sample.signParams.hash160 Sample.oneOfTwo.2).toNat++[0x87])

open DarkSilk.Script.Access.Sample

theorem sigOps_sound_oneOfTwo : ((evalScript (context 0) oneOfTwo.1 oneOfTwo.2).1 = 2 ∧
      isPayToScriptHash oneOfTwoInput.2 = true ∧
      (verifyScript (context 0) oneOfTwoInput.1 oneOfTwoInput.2).redeemCalls = 2) ∧
    (evalScript (context 0) oneOfTwo.1 oneOfTwo.2).1 ≤ getSigOpCount true oneOfTwo.2%2^32 ∧
    getSigOpCount true oneOfTwo.2%2^32 ≤ getSigOpCount false oneOfTwo.2%2^32 ∧
    (verifyScript (context 0) oneOfTwoInput.1 oneOfTwoInput.2).redeemCalls ≤
        getSigOpCountP2SH oneOfTwoInput.2 oneOfTwoInput.1%2^32 :=
  have h := sigOps_sound (context 0)
  ⟨by decide +kernel,(h.1 oneOfTwo.1 oneOfTwo.2).1,(h.1 oneOfTwo.1 oneOfTwo.2).2.2 (by decide),
    h.2 oneOfTwoInput.1 oneOfTwoInput.2 (by decide +kernel)⟩

end Access
end Script
end DarkSilk
