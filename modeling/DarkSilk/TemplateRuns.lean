import DarkSilk.VerifyScript

/-! The standard scripts as programs: the operations of a script that the solver knows, and
what they leave of the arguments that a signer puts on the stack. -/

namespace DarkSilk

open PrefixCode List Option

namespace Script

variable {pc script : CScript} {sols sols' s : List Valtype} {type : TxNOutType}

theorem opcode_le_of_data (h : (getOp2 pc).data ≠ []) : (getOp2 pc).opcode ≤ OP_PUSHDATA4 := by
  cases pc with
  | nil => exact absurd rfl h
  | cons b pc =>
    simp only [getOp2] at h ⊢
    split_ifs at h ⊢ <;> simp_all

theorem opcode_of_not_ok (h : (getOp2 pc).ok = false) : (getOp2 pc).opcode = OP_INVALIDOPCODE := by
  cases pc with
  | nil => rfl
  | cons b pc =>
    simp only [getOp2] at h ⊢
    split_ifs at h ⊢ <;> simp_all

theorem matchTemplate_cons {t} (ht : t ≠ .OP_PUBKEYS) {tplate}
    (h : matchTemplate (t::tplate) script sols = some sols') :
    (getOp2 script).ok ∧ ∃ s, matchOp (getOp2 script) t = some s ∧
      matchTemplate tplate (getOp2 script).rest (sols++s) = some sols' := by
  have heq : matchTemplate (t::tplate) script sols = if !(getOp2 script).ok then none
      else (matchOp (getOp2 script) t).bind fun s => matchTemplate tplate (getOp2 script).rest (sols++s) := by
    cases t with
    | OP_PUBKEYS => exact absurd rfl ht
    | _ => rfl
  rw [heq] at h
  split_ifs at h with hok
  · exact ⟨by simpa using hok,bind_eq_some_iff.mp h⟩

theorem matchOp_op {r opcode} (h : matchOp r (.op opcode) = some s) :
    r.opcode = opcode ∧ r.data = [] ∧ s = [] := by
  simp only [matchOp] at h
  split_ifs at h with hne
  · simp only [ne_eq,Bool.or_eq_true,decide_eq_true_eq,not_or,not_not] at hne
    exact ⟨hne.1,hne.2,by simpa using h.symm⟩

theorem decodes_of_ops {opcodes}
    (h : matchTemplate (opcodes.map TemplateOp.op) script sols = some sols') :
    sols' = sols ∧ ∃ l, Decodes script l ∧ Forall₂ IsPlain l opcodes := by
  induction opcodes generalizing script with
  | nil =>
    simp only [map_nil,matchTemplate] at h
    split_ifs at h with hscript
    · exact ⟨by simpa using h.symm,[],hscript ▸ .nil,.nil⟩
  | cons opcode opcodes ih =>
    obtain ⟨hok,s,hs,hrest⟩ := matchTemplate_cons (by simp) h
    obtain ⟨hopcode,hdata,rfl⟩ := matchOp_op hs
    rw [append_nil] at hrest
    obtain ⟨hsols,l,hl,hplain⟩ := ih hrest
    exact ⟨hsols,getOp2 script::l,.of_getOp2 rfl hok hl,.cons ⟨hok,hdata,hopcode⟩ hplain⟩

theorem scanTemplates_mem {l : List (TxNOutType × List TemplateOp)}
    (h : scanTemplates script l = some (type,sols)) :
    ∃ tplate, (type,tplate) ∈ l ∧ matchTemplate tplate script [] = some sols ∧
      (type = .TX_MULTISIG → multiSigOk sols) := by
  induction l with
  | nil => cases h
  | cons p l ih =>
    obtain ⟨type',tplate⟩ := p
    rw [scanTemplates] at h
    cases hmatch : matchTemplate tplate script [] with
    | none =>
      rw [hmatch] at h
      obtain ⟨tplate',hmem,hrest⟩ := ih h
      exact ⟨tplate',mem_cons_of_mem _ hmem,hrest⟩
    | some vSolutions =>
      rw [hmatch] at h
      dsimp only at h
      split_ifs at h with hmulti
      · simp only [some.injEq,Prod.mk.injEq] at h
        obtain ⟨rfl,rfl⟩ := h
        refine ⟨tplate,mem_cons_self,hmatch,?_⟩
        intro htype
        simpa [htype] using hmulti

theorem solver_mem (h : solver script = some (type,sols)) (htype : type ≠ .TX_SCRIPTHASH) :
    ∃ tplate, (type,tplate) ∈ mTemplates ∧ matchTemplate tplate script [] = some sols ∧
      (type = .TX_MULTISIG → multiSigOk sols) := by
  unfold solver at h
  split_ifs at h
  · simp only [some.injEq,Prod.mk.injEq] at h
    exact absurd h.1.symm htype
  · exact scanTemplates_mem h

theorem isPush_of_data (hok : (getOp2 pc).ok) {k} (hpos : 0 < k)
    (hlow : k ≤ (getOp2 pc).data.length)
    (hhigh : (getOp2 pc).data.length ≤ 120) : IsPush (getOp2 pc) := by
  refine ⟨hok,opcode_le_of_data ?_,le_trans hhigh (by decide)⟩
  intro hdata
  rw [hdata,length_nil] at hlow
  omega

theorem solver_pubKey (h : solver script = some (.TX_PUBKEY,sols)) :
    ∃ r c, sols = [r.data] ∧ Decodes script [r,c] ∧ IsPush r ∧ IsPlain c OP_CHECKSIG := by
  obtain ⟨tplate,hmem,hmatch,-⟩ := solver_mem h (by decide)
  have htplate : tplate = .OP_PUBKEY::[OP_CHECKSIG].map TemplateOp.op := by simpa [mTemplates] using hmem
  rw [htplate] at hmatch
  obtain ⟨hok,s,hs,hrest⟩ := matchTemplate_cons (by simp) hmatch
  obtain ⟨hsols,l,hl,hplain⟩ := decodes_of_ops hrest
  simp only [matchOp,Bool.or_eq_true,decide_eq_true_eq] at hs
  split_ifs at hs with hlen
  · obtain rfl : [(getOp2 script).data] = s := by simpa using hs
    cases hplain with
    | cons hc hnil =>
      cases hnil
      exact ⟨_,_,hsols,.of_getOp2 rfl hok hl,isPush_of_data hok (k := 33) (by decide) (by omega) (by omega),hc⟩

theorem solver_pubKeyHash (h : solver script = some (.TX_PUBKEYHASH,sols)) :
    ∃ d k r e c, sols = [r.data] ∧ r.data.length = 20 ∧ Decodes script [d,k,r,e,c] ∧
      IsPlain d OP_DUP ∧
      IsPlain k OP_HASH160 ∧ IsPush r ∧ IsPlain e OP_EQUALVERIFY ∧ IsPlain c OP_CHECKSIG := by
  obtain ⟨tplate,hmem,hmatch,-⟩ := solver_mem h (by decide)
  have htplate : tplate = .op OP_DUP::.op OP_HASH160::.OP_PUBKEYHASH::[OP_EQUALVERIFY,
      OP_CHECKSIG].map TemplateOp.op := by
    simpa [mTemplates] using hmem
  rw [htplate] at hmatch
  obtain ⟨hok₁,s₁,hs₁,hmatch⟩ := matchTemplate_cons (by simp) hmatch
  obtain ⟨hop₁,hdata₁,rfl⟩ := matchOp_op hs₁
  obtain ⟨hok₂,s₂,hs₂,hmatch⟩ := matchTemplate_cons (by simp) hmatch
  obtain ⟨hop₂,hdata₂,rfl⟩ := matchOp_op hs₂
  obtain ⟨hok₃,s₃,hs₃,hmatch⟩ := matchTemplate_cons (by simp) hmatch
  obtain ⟨hsols,l,hl,hplain⟩ := decodes_of_ops hmatch
  simp only [matchOp,ne_eq,ite_not] at hs₃
  split_ifs at hs₃ with hlen
  · obtain rfl : [_] = s₃ := by simpa using hs₃
    cases hplain with
    | cons he hplain =>
      cases hplain with
      | cons hc hnil =>
        cases hnil
        exact ⟨_,_,_,_,_,hsols,hlen,.of_getOp2 rfl hok₁ (.of_getOp2 rfl hok₂ (.of_getOp2 rfl hok₃ hl)),
          ⟨hok₁,hdata₁,hop₁⟩,⟨hok₂,hdata₂,hop₂⟩,
          isPush_of_data hok₃ (k := 20) (by decide) (le_of_eq hlen.symm) (by omega),he,hc⟩

theorem readPubKeys_fst (fuel pc sols) :
    ∃ pc', (readPubKeys fuel (getOp2 pc) sols).1 = getOp2 pc' := by
  induction fuel generalizing pc sols with
  | zero => exact ⟨pc,rfl⟩
  | succ fuel ih =>
    simp only [readPubKeys]
    split_ifs
    · exact ih _ _
    · exact ⟨_,rfl⟩
    · exact ⟨pc,rfl⟩

theorem decodes_of_readPubKeys {fuel b} (h : readPubKeys fuel (getOp2 pc) sols = (b,sols'))
    (hok : (getOp2 pc).ok) (hb : b.ok) :
    ∃ keys : List ReadOp, sols' = sols++keys.map ReadOp.data ∧ (∀ r ∈ keys, IsPush r) ∧
      ∀ l, Decodes b.rest l → Decodes pc (keys++b::l) := by
  induction fuel generalizing pc sols with
  | zero =>
    cases h
    exact ⟨[],by simp,fun r hr => absurd hr not_mem_nil,fun l hl => .of_getOp2 rfl hok hl⟩
  | succ fuel ih =>
    rw [readPubKeys] at h
    by_cases hkey : (33 ≤ (getOp2 pc).data.length && (getOp2 pc).data.length ≤ 120)
    · rw [if_pos hkey] at h
      simp only [Bool.and_eq_true,decide_eq_true_eq] at hkey
      cases hok' : (getOp2 (getOp2 pc).rest).ok with
      | false =>
        simp only [hok'] at h
        cases h
        rw [hok'] at hb
        cases hb
      | true =>
        simp only [hok',if_true] at h
        obtain ⟨keys,hsols,hpush,hdecodes⟩ := ih h hok'
        refine ⟨getOp2 pc::keys,by simp [hsols],?_,?_⟩
        · intro r hr
          rcases mem_cons.mp hr with rfl | hr
          · exact isPush_of_data hok (by decide) hkey.1 hkey.2
          · exact hpush r hr
        · intro l hl
          exact .of_getOp2 rfl hok (hdecodes l hl)
    · rw [if_neg hkey] at h
      cases h
      exact ⟨[],by simp,fun r hr => absurd hr not_mem_nil,fun l hl => .of_getOp2 rfl hok hl⟩

theorem matchOp_smallInteger (h : matchOp (getOp2 pc) .OP_SMALLINTEGER = some s) :
    (getOp2 pc).ok ∧
    (s = [[0]] ∨ ∃ n, 1 ≤ n ∧ n ≤ 16 ∧ s = [[UInt8.ofNat n]] ∧ IsPlain (getOp2 pc) (OP_1-1+n)) := by
  have hok : (getOp2 pc).ok := by
    cases hok : (getOp2 pc).ok with
    | true => rfl
    | false =>
      simp [matchOp,opcode_of_not_ok hok,OP_INVALIDOPCODE,OP_1,OP_16] at h
  refine ⟨hok,?_⟩
  simp only [matchOp,Bool.and_eq_true,decide_eq_true_eq] at h
  split_ifs at h with hzero hsmall
  · exact .inl (by simpa using h.symm)
  · simp only [OP_1,OP_16] at hsmall
    have hdata : (getOp2 pc).data = [] := by
      by_contra hdata
      have h1 := opcode_le_of_data hdata
      simp only [OP_PUSHDATA4] at h1
      omega
    refine .inr ⟨(getOp2 pc).opcode-(OP_1-1),?_,?_,by simpa using h.symm,hok,hdata,?_⟩
    all_goals
      simp only [OP_1]
      omega

theorem multiSigOk_iff (x y keys) :
    multiSigOk ([x]::(keys++[[y]])) ↔ 1 ≤ x ∧ 1 ≤ y ∧ x ≤ y ∧ keys.length = y.toNat := by
  have hlast : ([x]::(keys++[[y]])).getLast? = some [y] := by
    rw [← cons_append]
    exact getLast?_concat
  simp only [multiSigOk,head?_cons,bind_some,hlast,Bool.and_eq_true,decide_eq_true_eq,length_cons,
    length_append,length_nil,and_assoc]
  have hlen : keys.length+(0+1)+1 = y.toNat+2 ↔ keys.length = y.toNat := by omega
  rw [hlen]

theorem solver_multiSig (h : solver script = some (.TX_MULTISIG,sols)) :
    ∃ (m : ℕ) (a b c : ReadOp) (keys : List ReadOp),
      sols = [UInt8.ofNat m]::(keys.map ReadOp.data++[[UInt8.ofNat keys.length]]) ∧ 1 ≤ m ∧
      m ≤ keys.length ∧
      keys.length ≤ 16 ∧ Decodes script (a::(keys++[b,c])) ∧ IsPlain a (OP_1-1+m) ∧
      (∀ r ∈ keys, IsPush r) ∧
      IsPlain b (OP_1-1+keys.length) ∧ IsPlain c OP_CHECKMULTISIG := by
  obtain ⟨tplate,hmem,hmatch,hmulti⟩ := solver_mem h (by decide)
  have htplate : tplate = [.OP_SMALLINTEGER,.OP_PUBKEYS,.OP_SMALLINTEGER,.op OP_CHECKMULTISIG] := by
    simpa [mTemplates] using hmem
  rw [htplate] at hmatch
  obtain ⟨hok₁,s₁,hs₁,hmatch⟩ := matchTemplate_cons (by simp) hmatch
  generalize hpc : (getOp2 script).rest = pc at hmatch
  -- the template of keys is matched together with the number behind it
  have hkeys : matchTemplate [.OP_PUBKEYS,.OP_SMALLINTEGER,.op OP_CHECKMULTISIG] pc ([]++s₁) =
      if !(getOp2 pc).ok then none
      else (matchOp (readPubKeys pc.length (getOp2 pc) ([]++s₁)).1 .OP_SMALLINTEGER).bind fun s =>
        matchTemplate ([OP_CHECKMULTISIG].map TemplateOp.op) (readPubKeys pc.length (getOp2 pc) ([]++s₁)).1.rest
          ((readPubKeys pc.length (getOp2 pc) ([]++s₁)).2++s) := rfl
  rw [hkeys] at hmatch
  split_ifs at hmatch with hok₂
  obtain ⟨s₂,hs₂,hmatch⟩ := bind_eq_some_iff.mp hmatch
  cases hread : readPubKeys pc.length (getOp2 pc) ([]++s₁) with
  | mk b sols₂ =>
    rw [hread] at hs₂ hmatch
    obtain ⟨pc',hb⟩ := readPubKeys_fst pc.length pc ([]++s₁)
    rw [hread] at hb
    obtain ⟨hsols,l,hl,hplain⟩ := decodes_of_ops hmatch
    rw [hb] at hs₂
    obtain ⟨hokb,hsmall₂⟩ := matchOp_smallInteger hs₂
    obtain ⟨-,hsmall₁⟩ := matchOp_smallInteger hs₁
    rw [← hb] at hokb hsmall₂
    obtain ⟨keys,hsols₂,hpush,hdecodes⟩ := decodes_of_readPubKeys hread (by simpa using hok₂) hokb
    have hok := hmulti rfl
    have hshape : ∀ x y : UInt8, s₁ = [[x]] → s₂ = [[y]] → sols = [x]::(keys.map ReadOp.data++[[y]]) := by
      rintro x y rfl rfl
      rw [hsols,hsols₂]
      rfl
    rcases hsmall₁ with hzero | ⟨m,hm,hm',hs₁,ha⟩
    · rcases hsmall₂ with hzero' | ⟨n,-,-,hs₂,-⟩
      · rw [hshape _ _ hzero hzero',multiSigOk_iff] at hok
        exact absurd hok.1 (by decide)
      · rw [hshape _ _ hzero hs₂,multiSigOk_iff] at hok
        exact absurd hok.1 (by decide)
    · rcases hsmall₂ with hzero' | ⟨n,hn,hn',hs₂,hplainb⟩
      · rw [hshape _ _ hs₁ hzero',multiSigOk_iff] at hok
        exact absurd hok.2.1 (by decide)
      · rw [hshape _ _ hs₁ hs₂,multiSigOk_iff] at hok
        have hlen : keys.length = n := by
          have h1 := hok.2.2.2
          rw [length_map,UInt8.toNat_ofNat',Nat.mod_eq_of_lt (by omega)] at h1
          exact h1
        have hle : m ≤ n := by
          have h1 := UInt8.le_iff_toNat_le.mp hok.2.2.1
          rw [UInt8.toNat_ofNat',UInt8.toNat_ofNat',Nat.mod_eq_of_lt (by omega),
            Nat.mod_eq_of_lt (by omega)] at h1
          exact h1
        cases hplain with
        | cons hc hnil =>
          cases hnil
          subst hlen
          refine ⟨m,getOp2 script,b,_,keys,hshape _ _ hs₁ hs₂,hm,hle,hn',.of_getOp2 rfl hok₁ ?_,ha,
            hpush,hplainb,hc⟩
          rw [hpc]
          exact hdecodes _ hl

variable {E : EvalEnv} {P : Params} {R : Rules} {flags : UInt32}

variable {r c : ReadOp} {vchSig : Valtype} {sigs : List Valtype}

theorem evalWith_pubKey (hscript : Decodes script [r,c]) (hr : IsPush r)
    (hc : IsPlain c OP_CHECKSIG) (hminimal : ∀ d opcode, R.checkMinimalPush d opcode)
    (hsize : script.length ≤ 10000)
    (hsig : R.checkSig vchSig r.data (Consensus.findAndDelete (pushVector vchSig) script) =
      .ok true) :
    evalWith E P R flags [vchSig] script = .ok [vchTrue] := by
  have hpush : step E P R flags r ⟨[vchSig],[],[],0,script⟩ = .ok ⟨[r.data,vchSig],[],[],0,script⟩ :=
    step_push hr rfl hminimal (show 1+0 < 1000 by decide)
  have hcheck : step E P R flags c ⟨[r.data,vchSig],[],[],0,script⟩ = .ok ⟨[vchTrue],[],[],1,script⟩ := by
    refine step_op hc (by decide) (by decide) rfl (show 0 < 201 by decide) ?_ (show 1+0 ≤ 1000 by decide)
    show execOp E P R flags true _ _ (.checkSig false) = _
    simp [execOp,hsig,answer,bind,Except.bind]
  rw [evalWith_of_decodes hscript hsize,runOps_cons hpush,runOps_cons hcheck]
  rfl

theorem evalWith_pubKeyHash {d k e} (hscript : Decodes script [d,k,r,e,c]) (hd : IsPlain d OP_DUP)
    (hk : IsPlain k OP_HASH160) (hr : IsPush r) (he : IsPlain e OP_EQUALVERIFY)
    (hc : IsPlain c OP_CHECKSIG)
    (hminimal : ∀ d opcode, R.checkMinimalPush d opcode) (hsize : script.length ≤ 10000) {vchPubKey}
    (hid : leBytes 20 (P.hash160 vchPubKey).toNat = r.data)
    (hsig : R.checkSig vchSig vchPubKey (Consensus.findAndDelete (pushVector vchSig) script) =
      .ok true) :
    evalWith E P R flags [vchPubKey,vchSig] script = .ok [vchTrue] := by
  have hdup : step E P R flags d ⟨[vchPubKey,vchSig],[],[],0,script⟩ =
      .ok ⟨[vchPubKey,vchPubKey,vchSig],[],[],1,script⟩ :=
    step_op hd (by decide) (by decide) rfl (show 0 < 201 by decide) rfl (show 3+0 ≤ 1000 by decide)
  have hhash : step E P R flags k ⟨[vchPubKey,vchPubKey,vchSig],[],[],1,script⟩ =
      .ok ⟨[leBytes 20 (P.hash160 vchPubKey).toNat,vchPubKey,vchSig],[],[],2,script⟩ :=
    step_op hk (by decide) (by decide) rfl (show 1 < 201 by decide) rfl (show 3+0 ≤ 1000 by decide)
  have hpush : step E P R flags r ⟨[leBytes 20 (P.hash160 vchPubKey).toNat,vchPubKey,vchSig],[],[],2,script⟩ =
      .ok ⟨[r.data,leBytes 20 (P.hash160 vchPubKey).toNat,vchPubKey,vchSig],[],[],2,script⟩ :=
    step_push hr rfl hminimal (show 3+0 < 1000 by decide)
  have hequal : step E P R flags e ⟨[r.data,leBytes 20 (P.hash160 vchPubKey).toNat,vchPubKey,
      vchSig],[],[],2,script⟩ =
      .ok ⟨[vchPubKey,vchSig],[],[],3,script⟩ := by
    refine step_op he (by decide) (by decide) rfl (show 2 < 201 by decide) ?_ (show 2+0 ≤ 1000 by decide)
    show execOp E P R flags true _ _ (.equal true) = _
    simp [execOp,answer,hid,bind,Except.bind]
  have hcheck : step E P R flags c ⟨[vchPubKey,vchSig],[],[],3,script⟩ = .ok ⟨[vchTrue],[],[],4,script⟩ := by
    refine step_op hc (by decide) (by decide) rfl (show 3 < 201 by decide) ?_ (show 1+0 ≤ 1000 by decide)
    show execOp E P R flags true _ _ (.checkSig false) = _
    simp [execOp,hsig,answer,bind,Except.bind]
  rw [evalWith_of_decodes hscript hsize,runOps_cons hdup,runOps_cons hhash,runOps_cons hpush,runOps_cons hequal,
    runOps_cons hcheck]
  rfl

/-- The script without the signatures that are checked in it. -/
def deleteSigs (sigs : List Valtype) (script : CScript) : CScript :=
  sigs.foldl (fun code vchSig => Consensus.findAndDelete (pushVector vchSig) code) script

theorem execMultiSig_eq {m nKeys nSigs keys stack}
    (hstack : m.stack = nKeys::(keys++nSigs::(sigs++[]::stack)))
    (hkeys : R.getint nKeys = .ok keys.length) (hsigs : R.getint nSigs = .ok sigs.length)
    (hle : sigs.length ≤ keys.length) (hmax : keys.length ≤ 20)
    (hcount : m.nOpCount+keys.length ≤ 201) :
    execMultiSig R flags m = checkSigs R (deleteSigs sigs m.pbegincodehash) keys sigs >>=
      fun fSuccess =>
      .ok (fSuccess,stack,m.nOpCount+keys.length) := by
  have h1 : ¬ ((keys.length : ℤ) < 0 ∨ 20 < keys.length) := by omega
  have h2 : ¬ 201 < m.nOpCount+keys.length := by omega
  have h3 : ¬ ((sigs.length : ℤ) < 0 ∨ keys.length < sigs.length) := by omega
  unfold execMultiSig
  rw [hstack]
  simp [hkeys,hsigs,h1,h2,h3,deleteSigs,bind,Except.bind]

theorem evalWith_multiSig {n a b keys} (hscript : Decodes script (a::(keys++[b,c])))
    (ha : IsPlain a (OP_1-1+n))
    (hkeys : ∀ r ∈ keys, IsPush r) (hb : IsPlain b (OP_1-1+keys.length))
    (hc : IsPlain c OP_CHECKMULTISIG)
    (hpos : 1 ≤ n) (hle : n ≤ keys.length) (hmax : keys.length ≤ 16)
    (hminimal : ∀ d opcode, R.checkMinimalPush d opcode)
    (hnumber : ∀ k : ℕ, 1 ≤ k → k ≤ 16 → R.getint (R.pushNumber (Int64.ofInt k)) = .ok k)
    (hsize : script.length ≤ 10000) (hsigs : sigs.length = n) :
    evalWith E P R flags (sigs++[[]]) script =
      checkSigs R (deleteSigs sigs script) (keys.map ReadOp.data).reverse sigs >>=
      fun fSuccess => .ok [if fSuccess then vchTrue else vchFalse] := by
  have hfirst : step E P R flags a ⟨sigs++[[]],[],[],0,script⟩ =
      .ok ⟨R.pushNumber (Int64.ofInt n)::(sigs++[[]]),[],[],0,script⟩ :=
    step_number ha hpos (by omega) rfl (by show (sigs++[[]]).length+0 < 1000; simp; omega)
  have hpushes : runOps E P R flags keys ⟨R.pushNumber (Int64.ofInt n)::(sigs++[[]]),[],[],0,script⟩ =
      .ok ⟨(keys.map ReadOp.data).reverse++R.pushNumber (Int64.ofInt n)::(sigs++[[]]),[],[],0,script⟩ :=
    runOps_pushes hkeys rfl hminimal (by
      simp
      omega)
  have hlast : step E P R flags b ⟨(keys.map ReadOp.data).reverse++R.pushNumber
      (Int64.ofInt n)::(sigs++[[]]),[],[],0,script⟩ =
      .ok ⟨R.pushNumber (Int64.ofInt keys.length)::((keys.map ReadOp.data).reverse++
        R.pushNumber (Int64.ofInt n)::(sigs++[[]])),[],[],0,script⟩ :=
    step_number hb (by omega) hmax rfl (by
      simp
      omega)
  have hmulti : execMultiSig R flags ⟨R.pushNumber (Int64.ofInt keys.length)::((keys.map ReadOp.data).reverse++
      R.pushNumber (Int64.ofInt n)::(sigs++[[]])),[],[],1,script⟩ =
      checkSigs R (deleteSigs sigs script) (keys.map ReadOp.data).reverse sigs >>= fun fSuccess =>
        .ok (fSuccess,[],1+(keys.map ReadOp.data).reverse.length) := by
    have hlen : (keys.map ReadOp.data).reverse.length = keys.length := by simp
    refine execMultiSig_eq rfl ?_ ?_ (by rw [hlen,hsigs]; exact hle) (by rw [hlen]; omega)
      (by rw [hlen]; show 1+_ ≤ 201; omega)
    · rw [hlen]
      exact hnumber _ (by omega) hmax
    · rw [hsigs]
      exact hnumber n hpos (by omega)
  have hcheck : runOps E P R flags [c] ⟨R.pushNumber (Int64.ofInt keys.length)::((keys.map ReadOp.data).reverse++
      R.pushNumber (Int64.ofInt n)::(sigs++[[]])),[],[],0,script⟩ >>= finish =
      checkSigs R (deleteSigs sigs script) (keys.map ReadOp.data).reverse sigs >>=
        fun fSuccess => .ok [if fSuccess then vchTrue else vchFalse] := by
    rw [runOps,foldlM_cons,step_plain hc (by decide) (by decide) rfl (show 0 < 201 by decide)]
    show (((execMultiSig R flags _ >>= _) >>= _) >>= _) >>= _ = _
    rw [hmulti]
    cases checkSigs R (deleteSigs sigs script) (keys.map ReadOp.data).reverse sigs with
    | error err => rfl
    | ok fSuccess => rfl
  rw [evalWith_of_decodes hscript hsize,runOps_cons hfirst,runOps_append,hpushes]
  show runOps E P R flags [b,c] _ >>= finish = _
  rw [runOps_cons hlast,hcheck]

end Script

end DarkSilk
