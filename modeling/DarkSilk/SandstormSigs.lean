import DarkSilk.Sandstorm

/-! What the signatures in a mixing pool are worth. The check of a new signature looks for
an input that holds it already, so it never looks at a signature that is really new. As
long as only signatures that verify come in, and only after the last entry, all signatures of
the entries verify. The final transaction never gets an input at all. -/
namespace DarkSilk

open List CSandstormPool
open Option hiding map_map

variable {S : ScriptEnv} {tx tx' : CTransaction}

/-- The checker sees no more of a transaction than how many inputs and outputs it has. -/
theorem verifyScriptAt_congr (hin : tx.vin.length = tx'.vin.length)
    (hout : tx.vout.length = tx'.vout.length) (scriptSig scriptPubKey n) :
    verifyScriptAt S scriptSig scriptPubKey tx n =
      verifyScriptAt S scriptSig scriptPubKey tx' n := by
  have hhash : ∀ c t, signatureHash c tx n t = signatureHash c tx' n t := by
    intro c t
    rw [signatureHash,signatureHash,hin,hout]
  have hcheck : checkSig S tx n = checkSig S tx' n := by
    funext vchSigIn vchPubKey scriptCode
    simp only [checkSig,hhash]
  rw [verifyScriptAt,verifyScriptAt,hcheck]

/-- A signature that the pool does not hold yet is found at no input, and passes unseen. -/
theorem signatureValid_of_new {E} {p : CSandstormPool} {newVin : CTxIn}
    (h : ∀ s ∈ p.inputs, s.scriptSig ≠ newVin.scriptSig) :
    p.signatureValid S E newVin.scriptSig newVin := by
  have hfound : p.found newVin = none := by
    refine foldlRecOn p.inputs.zipIdx _ (motive := fun r => r = none) rfl fun r hr x hx => ?_
    have hne : x.1.toCTxIn ≠ newVin := by
      intro heq
      exact h x.1 (fst_mem_of_mem_zipIdx hx) (congrArg CTxIn.scriptSig heq)
    rw [if_neg hne,hr]
  rw [signatureValid,hfound]

def CTxSSIn.signed (s : CTxSSIn) (scriptSig : CScript) : CTxSSIn :=
  ⟨{ s.toCTxIn with scriptSig := scriptSig },[],true⟩

theorem sameInput_iff {i j} :
    sameInput i j ↔ i.prevout = j.prevout ∧ i.nSequence = j.nSequence := by
  simp [sameInput]

variable {vin newVin : CTxIn} {E : PoolEnv} {p : CSandstormPool}

theorem addSig_spec {sev sev'} (h : addSig vin sev = some sev') :
    ∃ k s, sev[k]? = some s ∧ sameInput s.toCTxIn vin ∧
      sev' = sev.set k (s.signed vin.scriptSig) := by
  induction sev generalizing sev' with
  | nil => exact absurd h (by simp [addSig])
  | cons s sev ih =>
    rw [addSig] at h
    split_ifs at h with hsame hsig
    · exact ⟨0,s,rfl,hsame,(some.inj h).symm⟩
    · obtain ⟨l,hl,rfl⟩ := map_eq_some_iff.mp h
      obtain ⟨k,t,hk,ht,rfl⟩ := ih hl
      exact ⟨k+1,t,hk,ht,rfl⟩

theorem addSigEntries_spec {entries entries'} (h : addSigEntries vin entries = some entries') :
    (∃ k s, (entries.flatMap CSandStormEntry.sev)[k]? = some s ∧ sameInput s.toCTxIn vin ∧
      entries'.flatMap CSandStormEntry.sev =
        (entries.flatMap CSandStormEntry.sev).set k (s.signed vin.scriptSig)) ∧
    entries'.length = entries.length ∧
      entries'.map CSandStormEntry.vout = entries.map CSandStormEntry.vout := by
  induction entries generalizing entries' with
  | nil => exact absurd h (by simp [addSigEntries])
  | cons e entries ih =>
    rw [addSigEntries] at h
    cases hsig : addSig vin e.sev with
    | some sev =>
      rw [hsig] at h
      cases h
      obtain ⟨k,s,hk,hsame,rfl⟩ := addSig_spec hsig
      have hlt : k < e.sev.length := (List.getElem?_eq_some_iff.mp hk).1
      refine ⟨⟨k,s,?_,hsame,?_⟩,rfl,rfl⟩
      · rw [flatMap_cons,getElem?_append_left hlt,hk]
      · rw [flatMap_cons,flatMap_cons,set_append_left _ _ hlt]
    | none =>
      rw [hsig] at h
      obtain ⟨l,hl,rfl⟩ := map_eq_some_iff.mp h
      obtain ⟨⟨k,s,hk,hsame,hset⟩,hlen,hout⟩ := ih hl
      refine ⟨⟨e.sev.length+k,s,?_,hsame,?_⟩,?_,?_⟩
      · rw [flatMap_cons,getElem?_append_right (Nat.le_add_right _ _),Nat.add_sub_cancel_left,hk]
      · rw [flatMap_cons,flatMap_cons,hset,set_append_right _ _ (Nat.le_add_right _ _),
          Nat.add_sub_cancel_left]
      · simp [hlen]
      · simp [hout]

structure Resigned (newVin : CTxIn) (p q : CSandstormPool) : Prop where
  state : q.state = p.state
  users : q.sessionUsers = p.sessionUsers
  collaterals : q.vecSessionCollateral = p.vecSessionCollateral
  entries : q.entries.length = p.entries.length
  outputs : q.outputs = p.outputs
  final : q.finalTransaction = { p.finalTransaction with vin := setScriptSig newVin p.finalTransaction.vin }
  inputs : q.inputs = p.inputs ∨ ∃ k s, p.inputs[k]? = some s ∧ sameInput s.toCTxIn newVin = true ∧
    q.inputs = p.inputs.set k (s.signed newVin.scriptSig)

theorem addScriptSig_of_held
    (h : ¬ ∀ s ∈ p.inputs, s.scriptSig ≠ newVin.scriptSig) :
    p.addScriptSig S E newVin = (false,p) := by
  push Not at h
  obtain ⟨s,hs,heq⟩ := h
  rw [addScriptSig,if_pos (any_eq_true.mpr ⟨s,hs,decide_eq_true heq⟩)]

theorem addScriptSig_of_new (h : ∀ s ∈ p.inputs, s.scriptSig ≠ newVin.scriptSig) :
    p.addScriptSig S E newVin =
      match addSigEntries newVin p.entries with
      | some entries => (true,{ p.signFinal newVin with entries := entries })
      | none => (false,p.signFinal newVin) := by
  have hany : ¬ (p.inputs.any fun s => s.scriptSig = newVin.scriptSig) := by simpa using h
  rw [addScriptSig,if_neg hany,signatureValid_of_new h]
  rfl

theorem addScriptSig_taken
    (h : (p.addScriptSig S E newVin).1) :
    ∃ k s, p.inputs[k]? = some s ∧ sameInput s.toCTxIn newVin ∧
      (p.addScriptSig S E newVin).2.inputs = p.inputs.set k (s.signed newVin.scriptSig) := by
  by_cases hnew : ∀ s ∈ p.inputs, s.scriptSig ≠ newVin.scriptSig
  · rw [addScriptSig_of_new hnew] at h ⊢
    cases hsig : addSigEntries newVin p.entries with
    | none => exact absurd h (by simp [hsig])
    | some entries => exact (addSigEntries_spec hsig).1
  · rw [addScriptSig_of_held hnew] at h
    cases h

theorem CSandstormPool.outputs_eq (p : CSandstormPool) :
    p.outputs = (p.entries.map CSandStormEntry.vout).flatMap fun vout =>
      vout.map CTxSSOut.toCTxOut := by
  rw [outputs,flatMap_map]

theorem addScriptSig_cases (S E) (p : CSandstormPool) (newVin) :
    (p.addScriptSig S E newVin).2 = p ∨ Resigned newVin p (p.addScriptSig S E newVin).2 := by
  by_cases hnew : ∀ s ∈ p.inputs, s.scriptSig ≠ newVin.scriptSig
  · right
    rw [addScriptSig_of_new hnew]
    cases hsig : addSigEntries newVin p.entries with
    | none => exact ⟨rfl,rfl,rfl,rfl,rfl,rfl,.inl rfl⟩
    | some entries =>
      obtain ⟨hinputs,hlen,hout⟩ := addSigEntries_spec hsig
      refine ⟨rfl,rfl,rfl,hlen,?_,rfl,.inr hinputs⟩
      rw [outputs_eq,outputs_eq,← hout]
  · rw [addScriptSig_of_held hnew]
    exact .inl rfl

theorem Resigned.input {q : CSandstormPool} (h : Resigned newVin p q) {n : ℕ} {s' : CTxSSIn}
    (hs' : q.inputs[n]? = some s') :
    ∃ s, p.inputs[n]? = some s ∧ s'.prevout = s.prevout ∧ s'.nSequence = s.nSequence ∧
      (s' = s ∨ sameInput s.toCTxIn newVin ∧ s'.scriptSig = newVin.scriptSig) := by
  rcases h.inputs with heq | ⟨k,s,hs,hsame,heq⟩ <;> rw [heq] at hs'
  · exact ⟨s',hs',rfl,rfl,.inl rfl⟩
  · rw [getElem?_set] at hs'
    split_ifs at hs' with hk hlt
    · subst hk
      cases hs'
      exact ⟨s,hs,rfl,rfl,.inr ⟨hsame,rfl⟩⟩
    · exact ⟨s',hs',rfl,rfl,.inl rfl⟩

variable (S) (prevScript : COutPoint → CScript)

/-- An input of the pool that is signed verifies in the merged transaction, and if all are
signed then every input of the final transaction verifies. -/
structure SigsSound (p : CSandstormPool) : Prop where
  entries : ∀ (nTime : UInt32) (n : ℕ) (s : CTxSSIn), p.inputs[n]? = some s → s.fHasSig = true →
    verifyScriptAt S s.scriptSig (prevScript s.prevout) (p.mergedTx nTime) n = true
  final : p.signaturesComplete = true → ∀ (n : ℕ) (i : CTxIn), p.finalTransaction.vin[n]? = some i →
    verifyScriptAt S i.scriptSig (prevScript i.prevout) p.finalTransaction n = true

/-- The entries were never merged. -/
def CSandstormPool.Unmerged (p : CSandstormPool) : Prop :=
  p.finalTransaction.vin = [] ∧ p.finalTransaction.vout = []

/-- The pool waits for signatures, or has them all. -/
def CSandstormPool.isClosed (p : CSandstormPool) : Prop :=
  p.state = .signing ∨ p.state = .transmission

/-- The signature comes after the last entry, and verifies at every input of the pool with its
outpoint and sequence number. -/
def SigVerifies (p : CSandstormPool) (newVin : CTxIn) : Prop :=
  ∀ x ∈ p.inputs.zipIdx, sameInput x.1.toCTxIn newVin = true →
    p.isClosed ∧ verifyScriptAt S newVin.scriptSig (prevScript newVin.prevout) (p.mergedTx 0) x.2 = true

instance (p : CSandstormPool) : Decidable p.isClosed := inferInstanceAs (Decidable (_ ∨ _))

instance (p : CSandstormPool) (newVin : CTxIn) : Decidable (SigVerifies S prevScript p newVin) :=
  inferInstanceAs (Decidable (∀ x ∈ p.inputs.zipIdx, _))

structure Collecting (p : CSandstormPool) : Prop where
  phase : ¬ p.isClosed
  unsigned : ∀ s ∈ p.inputs, s.fHasSig = false
  full : p.state = .finalizeTransaction → getMaxPoolTransactions ≤ p.entries.length

structure Signing (p : CSandstormPool) : Prop where
  phase : p.isClosed
  full : getMaxPoolTransactions ≤ p.entries.length
  sigs : ∀ (n : ℕ) (s : CTxSSIn), p.inputs[n]? = some s → s.fHasSig = true →
    verifyScriptAt S s.scriptSig (prevScript s.prevout) (p.mergedTx 0) n = true

/-- What every state of the pool satisfies. An entry is taken only from a full session, so
the session is not started anew while there are entries. -/
structure PoolInv (p : CSandstormPool) : Prop where
  users : p.entries ≠ [] → 2 ≤ p.sessionUsers
  phase : Collecting p ∨ Signing S prevScript p

variable {S} {prevScript} {q : CSandstormPool}

theorem verifyScriptAt_mergedTx (h : p.inputs.length = q.inputs.length)
    (h' : p.outputs.length = q.outputs.length) (t t' scriptSig scriptPubKey n) :
    verifyScriptAt S scriptSig scriptPubKey (p.mergedTx t) n =
      verifyScriptAt S scriptSig scriptPubKey (q.mergedTx t') n :=
  verifyScriptAt_congr (by simpa [mergedTx] using h) h' _ _ _

theorem PoolInv.sigsSound (h : PoolInv S prevScript p) (hnone : p.Unmerged) :
    SigsSound S prevScript p := by
  refine ⟨fun nTime n s hs hsig => ?_,fun _ n i hi => ?_⟩
  · rcases h.phase with hc | hm
    · rw [hc.unsigned s (mem_of_getElem? hs)] at hsig
      cases hsig
    · rw [verifyScriptAt_mergedTx rfl rfl nTime 0]
      exact hm.sigs n s hs hsig
  · rw [hnone.1] at hi
    cases hi

variable {sigs : List CTxIn} {txCollateral : CTransaction} {nAmount : CAmount}

theorem Resigned.length_inputs (h : Resigned newVin p q) : q.inputs.length = p.inputs.length := by
  rcases h.inputs with heq | ⟨k,s,-,-,heq⟩ <;> simp [heq]

/-- Where all entries are there the signature goes to an input at which it verifies. -/
theorem Signing.resigned (h : Signing S prevScript p) (hq : Resigned newVin p q)
    (hv : SigVerifies S prevScript p newVin) : Signing S prevScript q := by
  refine ⟨?_,?_,fun n s' hs' hsig => ?_⟩
  · rw [isClosed,hq.state]
    exact h.phase
  · rw [hq.entries]
    exact h.full
  · rw [verifyScriptAt_mergedTx hq.length_inputs (congrArg length hq.outputs) 0 0]
    obtain ⟨s,hs,hprev,-,rfl | ⟨hsame,hscript⟩⟩ := hq.input hs'
    · exact h.sigs n s' hs hsig
    · rw [hscript,hprev,(sameInput_iff.mp hsame).1]
      exact (hv (s,n) (mem_zipIdx_iff_getElem?.mpr hs) hsame).2

theorem Collecting.resigned (h : Collecting p) (hq : Resigned newVin p q)
    (hv : SigVerifies S prevScript p newVin) : Collecting q := by
  refine ⟨?_,?_,?_⟩
  · rw [isClosed,hq.state]
    exact h.phase
  · rcases hq.inputs with heq | ⟨k,s,hs,hsame,-⟩
    · rw [heq]
      exact h.unsigned
    · exact absurd (hv (s,k) (mem_zipIdx_iff_getElem?.mpr hs) hsame).1 h.phase
  · rw [hq.state,hq.entries]
    exact h.full

theorem SigVerifies.resigned {other : CTxIn} (h : SigVerifies S prevScript p other)
    (hq : Resigned newVin p q) :
    SigVerifies S prevScript q other := by
  intro x hx hsame
  obtain ⟨s,hs,hprev,hseq,-⟩ := hq.input (mem_zipIdx_iff_getElem?.mp hx)
  have hsame' : sameInput s.toCTxIn other := by
    rw [sameInput_iff] at hsame ⊢
    rwa [hprev,hseq] at hsame
  obtain ⟨hphase,hverify⟩ := h (s,x.2) (mem_zipIdx_iff_getElem?.mpr hs) hsame'
  rw [isClosed,hq.state,verifyScriptAt_mergedTx hq.length_inputs (congrArg length hq.outputs) 0 0]
  exact ⟨hphase,hverify⟩

theorem PoolInv.resigned (h : PoolInv S prevScript p) (hq : Resigned newVin p q)
    (hv : SigVerifies S prevScript p newVin) : PoolInv S prevScript q := by
  refine ⟨fun hne => ?_,h.phase.imp (fun hc => hc.resigned hq hv) fun hm => hm.resigned hq hv⟩
  rw [hq.users]
  refine h.users fun hnil => hne ?_
  rw [← length_eq_zero_iff,hq.entries,hnil]
  rfl

theorem PoolInv.addScriptSigs (h : PoolInv S prevScript p)
    (hv : ∀ newVin ∈ sigs, SigVerifies S prevScript p newVin) :
    PoolInv S prevScript (addScriptSigs S E sigs p).2 := by
  induction sigs generalizing p with
  | nil => exact h
  | cons newVin sigs ih =>
    have hfirst := hv newVin mem_cons_self
    have hrest : ∀ v ∈ sigs, SigVerifies S prevScript p v := fun v hmem => hv v (mem_cons_of_mem newVin hmem)
    rw [addScriptSigs]
    rcases addScriptSig_cases S E p newVin with hsame | hq
    · rw [hsame]
      exact ih h hrest
    · exact ih (h.resigned hq hfirst) fun v hmem => (hrest v hmem).resigned hq

theorem PoolInv.setNull (p : CSandstormPool) : PoolInv S prevScript (p.setNull E) := by
  refine ⟨fun hne => absurd rfl hne,.inl ⟨?_,fun s hs => ?_,fun h => ?_⟩⟩
  · simp [CSandstormPool.isClosed,CSandstormPool.setNull]
  · exact absurd hs (by simp [CSandstormPool.inputs,CSandstormPool.setNull])
  · exact absurd h (by simp [CSandstormPool.setNull])

theorem PoolInv.full (h : PoolInv S prevScript p) (hs : p.state = .finalizeTransaction) :
    getMaxPoolTransactions ≤ p.entries.length :=
  h.phase.elim (fun hc => hc.full hs) fun hm => hm.full

theorem PoolInv.congr (h : PoolInv S prevScript p) (he : q.entries = p.entries)
    (hu : q.entries ≠ [] → 2 ≤ q.sessionUsers) (hs : q.isClosed ↔ p.isClosed)
    (hfull : q.state = .finalizeTransaction → getMaxPoolTransactions ≤ p.entries.length) :
    PoolInv S prevScript q := by
  have hin : q.inputs = p.inputs := by rw [inputs,he]; rfl
  have hout : q.outputs = p.outputs := by rw [outputs,he]; rfl
  have hmerged : q.mergedTx 0 = p.mergedTx 0 := by rw [mergedTx,hin,hout]; rfl
  refine ⟨hu,h.phase.imp (fun hc => ?_) fun hm => ?_⟩
  · exact ⟨hs.not.mpr hc.phase,hin ▸ hc.unsigned,he ▸ hfull⟩
  · exact ⟨hs.mpr hm.phase,he ▸ hm.full,by rw [hin,hmerged]; exact hm.sigs⟩

theorem PoolInv.updateState {newState} (h : PoolInv S prevScript p)
    (hne : newState ≠ .error ∧ newState ≠ .success)
    (hs : (newState = .signing ∨ newState = .transmission) ↔ p.isClosed)
    (hfull : newState = .finalizeTransaction → getMaxPoolTransactions ≤ p.entries.length) :
    PoolInv S prevScript (p.updateState E newState) := by
  have hstate := updateState_state E p hne
  refine h.congr (by simp) (by simpa using h.users) ?_ (by rwa [hstate])
  rwa [isClosed,hstate]

theorem PoolInv.closeEntries (h : PoolInv S prevScript p) :
    PoolInv S prevScript (p.closeEntries E) := by
  unfold CSandstormPool.closeEntries
  split_ifs with hfull
  · exact h.updateState (by simp) (by simp [isClosed,hfull.1]) fun _ => hfull.2
  · exact h

theorem PoolInv.signing (h : PoolInv S prevScript p) (hstate : p.state = .finalizeTransaction) :
    PoolInv S prevScript (p.updateState E .signing) := by
  rcases h.phase with hc | hm
  · refine ⟨by simpa using h.users,.inr ⟨.inl ?_,by simpa using hc.full hstate,fun n s hs hsig => ?_⟩⟩
    · exact updateState_state E p (by simp)
    · have hmem : s ∈ p.inputs := by simpa [inputs] using mem_of_getElem? hs
      rw [hc.unsigned s hmem] at hsig
      exact absurd hsig Bool.false_ne_true
  · have hphase := hm.phase
    rw [isClosed,hstate] at hphase
    exact absurd hphase (by simp)

theorem PoolInv.checkFinalTransaction (h : PoolInv S prevScript p) :
    PoolInv S prevScript (p.checkFinalTransaction E) := by
  unfold CSandstormPool.checkFinalTransaction
  split_ifs
  · exact (PoolInv.setNull p).updateState (by simp) (by simp [isClosed,CSandstormPool.setNull]) (by simp)
  · exact h
  · exact PoolInv.setNull p

theorem PoolInv.transmit (h : PoolInv S prevScript p) : PoolInv S prevScript (p.transmit E) := by
  unfold CSandstormPool.transmit
  split_ifs with hcond
  · exact (h.updateState (by simp) (by simp [isClosed,hcond.1]) (by simp)).checkFinalTransaction
  · exact h

theorem PoolInv.check (h : PoolInv S prevScript p) : PoolInv S prevScript (p.check E) := by
  rw [check_eq]
  split_ifs with hstate
  · exact h.closeEntries.signing hstate
  · unfold resetDone
    split_ifs
    · exact PoolInv.setNull _
    · exact h.closeEntries.transmit

theorem PoolInv.processSsa {nDenom} (h : PoolInv S prevScript p) :
    PoolInv S prevScript (p.processSsa E nDenom txCollateral).2 := by
  obtain ⟨he,-,⟨hs,hu⟩ | ⟨hs,hu⟩⟩ := processSsa_spec E nDenom txCollateral p
  · exact h.congr he (fun hne => (h.users (he ▸ hne)).trans hu) (by rw [isClosed,hs]; rfl)
      fun hfin => h.full (hs ▸ hfin)
  · have hnil : p.entries = [] := by
      by_contra hne
      exact absurd (h.users hne) (by omega)
    have hp : ¬ p.isClosed := by
      intro hm
      rcases h.phase with hc | hm
      · exact hc.phase hm
      · exact absurd hm.full (by simp [hnil,getMaxPoolTransactions])
    exact h.congr he (fun hne => absurd (he.trans hnil) hne) (by simpa [isClosed,hs] using hp) (by simp [hs])

theorem PoolInv.addEntry {newInput newOutput} (h : PoolInv S prevScript p)
    (hready : p.isSessionReady) :
    PoolInv S prevScript (p.addEntry E newInput nAmount txCollateral newOutput).2 := by
  have husers : 3 ≤ p.sessionUsers := of_decide_eq_true hready
  unfold CSandstormPool.addEntry
  cases herr : p.entryError E newInput nAmount txCollateral with
  | some errorID =>
    exact h.congr rfl (fun _ => by dsimp only; omega) Iff.rfl h.full
  | none =>
    have hroom : ¬ getMaxPoolTransactions ≤ p.entries.length := by
      intro hfull
      simp only [entryError,hfull,if_true] at herr
      split_ifs at herr
    rcases h.phase with hc | hm
    · refine ⟨fun _ => by dsimp only; omega,.inl ⟨hc.phase,fun s hs => ?_,fun hs => ?_⟩⟩
      · simp only [inputs,flatMap_append,mem_append] at hs
        rcases hs with hs | hs
        · exact hc.unsigned s hs
        · obtain ⟨e,he,hs⟩ := mem_flatMap.mp hs
          obtain rfl := mem_singleton.mp he
          obtain ⟨i,-,rfl⟩ := mem_map.mp hs
          rfl
      · exact absurd (hc.full hs) hroom
    · exact absurd hm.full hroom

theorem PoolInv.processSsi {vin vout} (h : PoolInv S prevScript p) :
    PoolInv S prevScript (p.processSsi E vin nAmount txCollateral vout).2 := by
  unfold CSandstormPool.processSsi
  cases hcheck : p.checkEntry E vin vout with
  | error errorID => exact h
  | ok u =>
    have hready : p.isSessionReady := by
      simp only [checkEntry,andThen_eq_ok,reject_eq_ok] at hcheck
      exact hcheck.2.1
    dsimp only
    split_ifs
    · exact (h.addEntry hready).check
    · exact h.addEntry hready

theorem PoolInv.processSss (h : PoolInv S prevScript p)
    (hv : ∀ newVin ∈ sigs, SigVerifies S prevScript p newVin) :
    PoolInv S prevScript (p.processSss S E sigs) := by
  unfold CSandstormPool.processSss
  dsimp only
  split_ifs
  · exact (h.addScriptSigs hv).check
  · exact h.addScriptSigs hv
  · exact h

/-- Only entries that are not merged expire one by one. -/
theorem PoolInv.dropExpired (h : PoolInv S prevScript p)
    (hs : p.state = .acceptingEntries ∨ p.state = .queue) :
    PoolInv S prevScript (p.dropExpired E) := by
  unfold CSandstormPool.dropExpired
  dsimp only
  split_ifs with hlast
  · exact PoolInv.setNull p
  · rcases h.phase with hc | hm
    · refine ⟨fun hne => h.users fun hnil => hne (by simp [hnil]),
        .inl ⟨hc.phase,fun s hmem => ?_,fun hfin => ?_⟩⟩
      · obtain ⟨e,he,hs⟩ := mem_flatMap.mp hmem
        exact hc.unsigned s (mem_flatMap.mpr ⟨e,mem_of_mem_filter he,hs⟩)
      · rcases hs with hs | hs <;> rw [hs] at hfin <;> cases hfin
    · rcases hs with hs | hs <;> exact absurd hm.phase (by simp [isClosed,hs])

theorem PoolInv.checkTimeout (h : PoolInv S prevScript p) :
    PoolInv S prevScript (p.checkTimeout E) :=
  checkTimeout_rule PoolInv.setNull h.dropExpired h

theorem PoolInv.checkForCompleteQueue (h : PoolInv S prevScript p) :
    PoolInv S prevScript (p.checkForCompleteQueue E) := by
  unfold CSandstormPool.checkForCompleteQueue
  split_ifs with hcond
  · exact h.updateState (by simp) (by simp [isClosed,hcond.1]) (by simp)
  · exact h

def SigsVerify (S : ScriptEnv) (prevScript : COutPoint → CScript) (p : CSandstormPool) :
    PoolMessage → Prop
  | .sss _ sigs => ∀ newVin ∈ sigs, SigVerifies S prevScript p newVin
  | _ => True

instance (S : ScriptEnv) (prevScript : COutPoint → CScript) (p : CSandstormPool) :
    ∀ msg, Decidable (SigsVerify S prevScript p msg)
  | .ssa .. => .isTrue trivial
  | .ssi .. => .isTrue trivial
  | .sss _ sigs => inferInstanceAs (Decidable (∀ newVin ∈ sigs, SigVerifies S prevScript p newVin))
  | .checkTimeout .. => .isTrue trivial
  | .checkForCompleteQueue .. => .isTrue trivial

theorem PoolInv.step {msg} (h : PoolInv S prevScript p) (hmsg : SigsVerify S prevScript p msg) :
    PoolInv S prevScript (p.step S msg) := by
  cases msg <;> simp only [CSandstormPool.step] <;> split_ifs
  all_goals try exact h
  · exact h.processSsa
  · exact h.processSsi
  · exact h.processSss hmsg
  · exact h.checkTimeout
  · exact h.checkForCompleteQueue

theorem CSandstormPool.Unmerged.setNull (p : CSandstormPool) : (p.setNull E).Unmerged := ⟨rfl,rfl⟩

theorem CSandstormPool.Unmerged.of_eq (h : p.Unmerged)
    (hq : q.finalTransaction = p.finalTransaction) : q.Unmerged := by
  rwa [Unmerged,hq]

theorem CSandstormPool.Unmerged.ite {c : Prop} [Decidable c] (hp : c → p.Unmerged)
    (hq : ¬ c → q.Unmerged) :
    (if c then p else q).Unmerged := by
  split_ifs with hc
  · exact hp hc
  · exact hq hc

theorem CSandstormPool.Unmerged.updateState (h : p.Unmerged) (newState) :
    (p.updateState E newState).Unmerged :=
  h.of_eq (updateState_finalTransaction E p newState)

theorem CSandstormPool.Unmerged.check (h : p.Unmerged) : (p.check E).Unmerged := by
  have hclosed : (p.closeEntries E).Unmerged := .ite (fun _ => h.updateState _) fun _ => h
  have hfinal {q : CSandstormPool} (hq : q.Unmerged) : (q.checkFinalTransaction E).Unmerged :=
    .ite (fun _ => (Unmerged.setNull q).updateState _) fun _ => .ite (fun _ => hq) fun _ => .setNull q
  have htransmit : ((p.closeEntries E).transmit E).Unmerged :=
    .ite (fun _ => hfinal (hclosed.updateState _)) fun _ => hclosed
  rw [check_eq]
  exact .ite (fun _ => hclosed.updateState _) fun _ => .ite (fun _ => .setNull _) fun _ => htransmit

theorem CSandstormPool.Unmerged.addScriptSigs (h : p.Unmerged) :
    (addScriptSigs S E sigs p).2.Unmerged := by
  induction sigs generalizing p with
  | nil => exact h
  | cons newVin sigs ih =>
    refine ih ?_
    rcases addScriptSig_cases S E p newVin with hsame | hq
    · rwa [hsame]
    · rw [Unmerged,hq.final,h.1]
      exact ⟨rfl,h.2⟩

theorem CSandstormPool.Unmerged.processSsi {vin vout} (h : p.Unmerged) :
    (p.processSsi E vin nAmount txCollateral vout).2.Unmerged := by
  have hadd : (p.addEntry E vin nAmount txCollateral vout).2.Unmerged := by
    unfold CSandstormPool.addEntry
    split <;> exact h
  unfold CSandstormPool.processSsi
  split
  · exact h
  · exact .ite (fun _ => hadd.check) fun _ => hadd

/-- Whatever messages come, the exception keeps the entries from being merged. -/
theorem CSandstormPool.Unmerged.step (h : p.Unmerged) (msg) : (p.step S msg).Unmerged := by
  cases msg with
  | ssa E nDenom txCollateral =>
    exact .ite (fun _ => h.of_eq (processSsa_spec E nDenom txCollateral p).final) fun _ => h
  | ssi E vin nAmount txCollateral vout => exact .ite (fun _ => h.processSsi) fun _ => h
  | sss E sigs =>
    exact .ite (fun _ => .ite (fun _ => .ite (fun _ => h.addScriptSigs.check) fun _ => h.addScriptSigs)
      fun _ => h) fun _ => h
  | checkTimeout E =>
    exact .ite (fun _ => checkTimeout_rule Unmerged.setNull
      (fun _ => .ite (fun _ => .setNull p) fun _ => h) h) fun _ => h
  | checkForCompleteQueue E => exact .ite (fun _ => .ite (fun _ => h.updateState _) fun _ => h) fun _ => h

theorem unmerged_run (S : ScriptEnv) (E : PoolEnv) (l : List PoolMessage) :
    (l.foldl (step S) (.new E)).Unmerged :=
  foldlRecOn l (step S) (Unmerged.setNull _) fun _ h msg _ => h.step msg

/-- A signature that is taken is stored at one of the inputs it fits, so there it has to verify. -/
theorem verifies_of_taken
    (htaken : (p.addScriptSig S E newVin).1)
    (hsound : SigsSound S prevScript (p.addScriptSig S E newVin).2) :
    ∃ x ∈ p.inputs.zipIdx, sameInput x.1.toCTxIn newVin ∧
      verifyScriptAt S newVin.scriptSig (prevScript newVin.prevout) (p.mergedTx 0) x.2 := by
  obtain ⟨k,s,hs,hsame,hset⟩ := addScriptSig_taken htaken
  have hk : k < p.inputs.length := (List.getElem?_eq_some_iff.mp hs).1
  have hstored : (p.addScriptSig S E newVin).2.inputs[k]? = some (s.signed newVin.scriptSig) := by
    rw [hset,getElem?_set_self hk]
  have hin : (p.addScriptSig S E newVin).2.inputs.length = p.inputs.length := by rw [hset,length_set]
  have hout : (p.addScriptSig S E newVin).2.outputs = p.outputs := by
    rcases addScriptSig_cases S E p newVin with hq | hq
    · rw [hq]
    · exact hq.outputs
  refine ⟨(s,k),mem_zipIdx_iff_getElem?.mpr hs,hsame,?_⟩
  rw [← (sameInput_iff.mp hsame).1,← verifyScriptAt_mergedTx hin (congrArg List.length hout) 0 0]
  exact hsound.entries 0 k _ hstored rfl

/-- In every run of a pool the final transaction stays empty, and in one in which all signatures
that come verify, and come after the last entry, the signatures in every state of the pool verify.
A signature that is taken but verifies at no input it fits ends this at once. -/
theorem sigsSound_of_verified (S : ScriptEnv) (prevScript : COutPoint → CScript) (E : PoolEnv)
    (l : List PoolMessage) :
    (l.foldl (step S) (.new E)).Unmerged ∧
    (Runs.Always (step S) (SigsVerify S prevScript) (.new E) l →
      ∀ l₁, l₁ <+: l → SigsSound S prevScript (l₁.foldl (step S) (.new E))) ∧
    ∀ (E' : PoolEnv) (p : CSandstormPool) (newVin : CTxIn), (p.addScriptSig S E' newVin).1 = true →
      SigsSound S prevScript (p.addScriptSig S E' newVin).2 →
        ∃ x ∈ p.inputs.zipIdx, sameInput x.1.toCTxIn newVin = true ∧
          verifyScriptAt S newVin.scriptSig (prevScript newVin.prevout) (p.mergedTx 0) x.2 =
            true := by
  refine ⟨unmerged_run S E l,fun hl l₁ hpre => ?_,fun E' p newVin => verifies_of_taken⟩
  have hl₁ : Runs.Always (step S) (SigsVerify S prevScript) (.new E) l₁ :=
    Runs.always_iff.mpr fun l₂ msg h => Runs.always_iff.mp hl l₂ msg (h.trans hpre)
  exact (hl₁.invariant (fun _ _ h hmsg => h.step hmsg) (PoolInv.setNull _)).sigsSound (unmerged_run S E l₁)

namespace Sample

/-- Scripts are signatures by one key; the byte seven signs. -/
def scriptEnv : ScriptEnv :=
  ⟨fun scriptSig _ _ checkSig => checkSig scriptSig [2] [],fun _ => true,fun _ _ sig => sig = [7]⟩

def p2pkh : CScript := [0x76,0xa9,0x14]++List.replicate 20 0++[0x88,0xac]

/-- A stormnode for which every transaction has one output of one coin. -/
def poolEnv : PoolEnv where
  fEnabled := true
  fVersionOk := true
  nTime := 0
  nTimeMillis := 0
  nAdjustedTime := 300
  nRand := 41
  fListed := true
  fTooRecent := false
  getTransaction := fun _ => some ⟨1,50,[],[⟨COIN+1000,p2pkh⟩],0⟩
  acceptableInputs := fun _ => true
  acceptToMemoryPool := fun _ => true
  fSigned := true

def poolCollateral (hash : UInt256) : CTransaction := payment 150 [⟨hash,0⟩] [⟨90000000,p2pkh⟩]

def join (hash : UInt256) : PoolMessage := .ssa poolEnv 16 (poolCollateral hash)

def handIn (hash : UInt256) : PoolMessage :=
  .ssi poolEnv [⟨⟨hash,0⟩,[],0xFFFFFFFF⟩] (COIN+1000) (poolCollateral hash) [⟨COIN+1000,p2pkh⟩]

def signature (hash : UInt256) (scriptSig : CScript) : PoolMessage :=
  .sss poolEnv [⟨⟨hash,0⟩,scriptSig,0xFFFFFFFF⟩]

/-- Three clients join, hand in their entries, and wait for signatures. -/
def session : List PoolMessage :=
  [join 4,join 5,join 6,.checkForCompleteQueue poolEnv,handIn 1,handIn 2,handIn 3]

def poolAfter (l : List PoolMessage) : CSandstormPool :=
  (session++l).foldl (CSandstormPool.step scriptEnv) (.new poolEnv)

end Sample

open Sample

example : (poolAfter []).state = .signing ∧ (poolAfter []).finalTransaction.vin = [] := by
  decide +kernel

theorem sigsSound_of_verified_two : SigsSound scriptEnv (fun _ => p2pkh)
      (poolAfter [signature 1 [7,1],signature 2 [7,2]]) :=
  (sigsSound_of_verified scriptEnv (fun _ => p2pkh) poolEnv _).2.1 (by decide +kernel) _ prefix_rfl

/-- A signature that is none: the pool takes it, and counts the input as signed. -/
theorem garbage_signature_taken :
    (poolAfter [signature 1 [9,1]]).inputs.map (fun s => (s.scriptSig,s.fHasSig)) =
      [([9,1],true),([],false),([],false)] ∧
    verifyScriptAt scriptEnv [9,1] p2pkh ((poolAfter [signature 1 [9,1]]).mergedTx 0) 0 = false ∧
    ¬ SigsSound scriptEnv (fun _ => p2pkh) (poolAfter [signature 1 [9,1]]) := by
  have hfails : verifyScriptAt scriptEnv [9,1] p2pkh
      ((poolAfter [signature 1 [9,1]]).mergedTx 0) 0 = false := by decide +kernel
  have hstored : (poolAfter [signature 1 [9,1]]).inputs[0]? =
      some ⟨⟨⟨1,0⟩,[9,1],0xFFFFFFFF⟩,[],true⟩ := by decide +kernel
  refine ⟨by decide +kernel,hfails,fun h => ?_⟩
  cases (h.entries 0 0 _ hstored rfl).symm.trans hfails

end DarkSilk
