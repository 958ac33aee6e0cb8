import DarkSilk.SandstormSigs

/-! The books of a mixing session: no outpoint comes in twice, every user has left a
collateral, and while signatures are collected the final transaction is the one the
entries make. Entries that are refused late and entries that repeat an outpoint under
another sequence number break them, and so does every entry that fills the pool. -/

namespace DarkSilk

open List CSandstormPool

def CSandstormPool.outpoints (p : CSandstormPool) : List COutPoint :=
  p.inputs.map fun s => s.prevout

structure SessionSound (p : CSandstormPool) : Prop where
  outpoints : p.outpoints.Nodup
  collaterals : p.sessionUsers = p.vecSessionCollateral.length
  final : p.state = .signing →
    p.finalTransaction.vin = p.inputs.map CTxSSIn.toCTxIn ∧ p.finalTransaction.vout = p.outputs

/-- An entry that passes the first checks has a valid collateral and an amount, leaves room for
another one, and repeats no outpoint of the pool. -/
def EntryFits (E : PoolEnv) (p : CSandstormPool) (vin : List CTxIn) (nAmount : CAmount)
    (txCollateral : CTransaction) (vout : List CTxOut) : Prop :=
  p.checkEntry E vin vout = .ok () → 0 ≤ nAmount ∧ isCollateralValid E txCollateral = true ∧
    p.entries.length+1 < getMaxPoolTransactions ∧ ∀ i ∈ vin, i.prevout ∉ p.outpoints

/-- What a message has to meet, in the state in which it finds the pool. -/
def Orderly (p : CSandstormPool) : PoolMessage → Prop
  | .ssi E vin nAmount txCollateral vout => EntryFits E p vin nAmount txCollateral vout
  | _ => True

instance (E : PoolEnv) (p : CSandstormPool) (vin : List CTxIn) (vout : List CTxOut) :
    Decidable (p.checkEntry E vin vout = .ok ()) :=
  match h : p.checkEntry E vin vout with
  | .ok () => .isTrue rfl
  | .error _ => .isFalse (by simp)

instance (E : PoolEnv) (p : CSandstormPool) (vin : List CTxIn) (nAmount : CAmount)
    (txCollateral : CTransaction)
    (vout : List CTxOut) : Decidable (EntryFits E p vin nAmount txCollateral vout) :=
  inferInstanceAs (Decidable (_ → _))

instance (p : CSandstormPool) : ∀ msg, Decidable (Orderly p msg)
  | .ssa .. => .isTrue trivial
  | .ssi E vin nAmount txCollateral vout =>
      inferInstanceAs (Decidable (EntryFits E p vin nAmount txCollateral vout))
  | .sss .. => .isTrue trivial
  | .checkTimeout .. => .isTrue trivial
  | .checkForCompleteQueue .. => .isTrue trivial

variable {E : PoolEnv} {p q : CSandstormPool}

@[simp] theorem CSandstormPool.updateState_vecSessionCollateral (newState) :
    (p.updateState E newState).vecSessionCollateral = p.vecSessionCollateral := by
  unfold updateState
  split <;> rfl

structure SessionInv (p : CSandstormPool) : Prop where
  outpoints : p.outpoints.Nodup
  collaterals : p.sessionUsers = p.vecSessionCollateral.length
  room : p.entries.length < getMaxPoolTransactions
  phase : p.state ≠ .finalizeTransaction ∧ p.state ≠ .signing

theorem SessionInv.sound (h : SessionInv p) : SessionSound p :=
  ⟨h.outpoints,h.collaterals,fun hs => absurd hs h.phase.2⟩

theorem SessionInv.setNull (p : CSandstormPool) : SessionInv (p.setNull E) :=
  ⟨nodup_nil,rfl,by simp [CSandstormPool.setNull,getMaxPoolTransactions],by simp [CSandstormPool.setNull]⟩

theorem SessionInv.congr (h : SessionInv p) (he : q.entries = p.entries)
    (hc : q.sessionUsers = q.vecSessionCollateral.length)
    (hs : q.state ≠ .finalizeTransaction ∧ q.state ≠ .signing) : SessionInv q := by
  have hin : q.inputs = p.inputs := by rw [inputs,he]; rfl
  refine ⟨?_,hc,he ▸ h.room,hs⟩
  rw [CSandstormPool.outpoints,hin]
  exact h.outpoints

theorem SessionInv.check (h : SessionInv p) : SessionInv (p.check E) := by
  have hopen : p.closeEntries E = p := if_neg fun hfull => absurd hfull.2 (Nat.not_le.mpr h.room)
  have hwait : p.transmit E = p := if_neg fun hsig => h.phase.2 hsig.1
  rw [check_eq,hopen,if_neg h.phase.1,hwait,resetDone]
  split_ifs
  · exact SessionInv.setNull p
  · exact h

variable {S : ScriptEnv}

variable {txCollateral : CTransaction} {vin newVin : CTxIn} {vout : List CTxOut} {s : CTxSSIn} {l : List CTxSSIn} {k : ℕ}
  {sigs : List CTxIn}

theorem SessionInv.processSsa {nDenom} (h : SessionInv p) :
    SessionInv (p.processSsa E nDenom txCollateral).2 := by
  have hmax : max p.sessionUsers 0 = p.sessionUsers :=
    max_eq_left (by rw [h.collaterals]; exact Int.natCast_nonneg _)
  have hreset : SessionInv { p with sessionUsers := max p.sessionUsers 0 } := by
    rw [hmax]
    exact h
  have hlen := h.collaterals
  unfold CSandstormPool.processSsa isCompatibleWithSession
  dsimp only
  split_ifs with h1 h2 h3 h4 h5 hzero
  all_goals try first | exact h | exact hreset
  · rw [hmax] at hzero
    have hnone : p.vecSessionCollateral = [] := eq_nil_of_length_eq_zero (by omega)
    have hstate : ∀ q : CSandstormPool, (q.startSession E nDenom txCollateral).state = .queue :=
      fun q => updateState_state E _ (by simp)
    apply h.congr
    · simp [startSession]
    · simp [startSession,hnone]
    · simp [hstate]
  · refine h.congr rfl ?_ h.phase
    show max p.sessionUsers 0+1 = ((p.vecSessionCollateral++[txCollateral]).length : ℤ)
    rw [hmax,length_append,length_singleton]
    omega

theorem nodup_of_checkEntry {vin} (h : p.checkEntry E vin vout = .ok ()) :
    (vin.map CTxIn.prevout).Nodup ∧ (∀ i ∈ vin, i.prevout.isNull = false) ∧ vin ≠ [] := by
  simp only [checkEntry,andThen_eq_ok,reject_eq_ok,acceptableInputs,Bool.and_eq_true] at h
  obtain ⟨-,-,-,-,-,-,-,⟨⟨hcheck,hbase⟩,-⟩,-⟩ := h
  cases htx : checkTransaction ⟨1,E.nAdjustedTime,vin,vout,0⟩ with
  | error e => exact absurd hcheck (by simp [htx,Except.toBool])
  | ok u =>
    have hchecked := checked_of_checkTransaction htx
    exact ⟨hchecked.nodup,hchecked.prevout (by simpa using hbase),hchecked.vin_ne⟩

theorem SessionInv.processSsi {vin nAmount} (h : SessionInv p)
    (hfits : EntryFits E p vin nAmount txCollateral vout) :
    SessionInv (p.processSsi E vin nAmount txCollateral vout).2 := by
  unfold CSandstormPool.processSsi
  cases hcheck : p.checkEntry E vin vout with
  | error errorID => exact h
  | ok u =>
    obtain ⟨hamount,hcol,hroom,hnew⟩ := hfits hcheck
    obtain ⟨hnodup,hnull,-⟩ := nodup_of_checkEntry hcheck
    have hnone : p.entryError E vin nAmount txCollateral = none := by
      have hinvalid : ¬ (vin.any fun i => i.prevout.isNull || nAmount < 0) := by
        simpa [Int64.not_lt.mpr hamount] using hnull
      have hhave : ¬ (vin.any fun i => p.inputs.any fun s => s.toCTxIn = i) := by
        simp only [any_eq_true,decide_eq_true_eq,not_exists,not_and]
        rintro i hi s hs rfl
        exact hnew _ hi (mem_map.mpr ⟨s,hs,rfl⟩)
      rw [entryError,if_neg hinvalid,if_neg (by simpa using hcol),if_neg (by omega),if_neg hhave]
    have hadd : SessionInv { p with entries := p.entries++[entry E vin nAmount txCollateral vout] } := by
      refine ⟨?_,h.collaterals,by rw [length_append]; exact hroom,h.phase⟩
      have hmap : ∀ e, CSandstormPool.outpoints { p with entries := p.entries++[e] } =
          p.outpoints++e.sev.map fun s => s.prevout := by
        simp [CSandstormPool.outpoints,inputs]
      have hentry : ((entry E vin nAmount txCollateral vout).sev.map fun s => s.prevout) =
          vin.map CTxIn.prevout := by
        simp [entry,CTxSSIn.received,Function.comp_def]
      rw [hmap,hentry]
      refine h.outpoints.append hnodup fun o ho ho' => ?_
      obtain ⟨i,hi,rfl⟩ := mem_map.mp ho'
      exact hnew i hi ho
    simp only [addEntry,hnone,Except.toBool,if_true]
    exact hadd.check

theorem map_prevout_set (hk : l[k]? = some s) (scriptSig) :
    ((l.set k (s.signed scriptSig)).map fun s => s.prevout) = l.map fun s => s.prevout := by
  have hself : (l.map fun s => s.prevout)[k]? = some s.prevout := by rw [getElem?_map,hk]; rfl
  obtain ⟨hlt,hget⟩ := List.getElem?_eq_some_iff.mp hself
  rw [map_set]
  show (l.map fun s => s.prevout).set k s.prevout = _
  rw [← hget,set_getElem_self]

theorem SessionInv.addScriptSigs (h : SessionInv p) : SessionInv (addScriptSigs S E sigs p).2 := by
  induction sigs generalizing p with
  | nil => exact h
  | cons newVin sigs ih =>
    refine ih ?_
    rcases addScriptSig_cases S E p newVin with hsame | hq
    · rwa [hsame]
    · refine ⟨?_,?_,hq.entries.symm ▸ h.room,hq.state.symm ▸ h.phase⟩
      · rcases hq.inputs with heq | ⟨k,s,hk,-,heq⟩ <;> rw [CSandstormPool.outpoints,heq]
        · exact h.outpoints
        · rw [map_prevout_set hk]
          exact h.outpoints
      · rw [hq.users,hq.collaterals]
        exact h.collaterals

theorem SessionInv.processSss (h : SessionInv p) : SessionInv (p.processSss S E sigs) := by
  unfold CSandstormPool.processSss
  dsimp only
  split_ifs
  · exact h.addScriptSigs.check
  · exact h.addScriptSigs
  · exact h

theorem SessionInv.dropExpired (h : SessionInv p) : SessionInv (p.dropExpired E) := by
  unfold CSandstormPool.dropExpired
  dsimp only
  split_ifs
  · exact SessionInv.setNull p
  · refine ⟨?_,h.collaterals,(length_filter_le _ _).trans_lt h.room,h.phase⟩
    refine h.outpoints.sublist (Sublist.map _ ?_)
    exact Sublist.flatMap filter_sublist _

theorem SessionInv.checkTimeout (h : SessionInv p) : SessionInv (p.checkTimeout E) :=
  checkTimeout_rule SessionInv.setNull (fun _ => h.dropExpired) h

theorem SessionInv.checkForCompleteQueue (h : SessionInv p) :
    SessionInv (p.checkForCompleteQueue E) := by
  unfold CSandstormPool.checkForCompleteQueue
  split_ifs
  · refine h.congr (by simp) (by simpa using h.collaterals) ?_
    rw [updateState_state E p (by simp)]
    simp
  · exact h

theorem SessionInv.step {msg} (h : SessionInv p) (hmsg : Orderly p msg) :
    SessionInv (p.step S msg) := by
  cases msg <;> simp only [CSandstormPool.step] <;> split_ifs
  all_goals try exact h
  · exact h.processSsa
  · exact h.processSsi hmsg
  · exact h.processSss
  · exact h.checkTimeout
  · exact h.checkForCompleteQueue

structure Filled (p : CSandstormPool) : Prop where
  sev : ∀ e ∈ p.entries, e.sev ≠ []
  closed : p.state = .finalizeTransaction ∨ p.state = .signing → p.entries ≠ []

theorem Filled.setNull (p : CSandstormPool) : Filled (p.setNull E) :=
  ⟨fun _ he => absurd he not_mem_nil,by simp [CSandstormPool.setNull]⟩

theorem Filled.congr (h : Filled p) (he : q.entries = p.entries)
    (hs : q.state = .finalizeTransaction ∨ q.state = .signing → p.entries ≠ []) : Filled q := by
  refine ⟨?_,?_⟩ <;> rw [he]
  · exact h.sev
  · exact hs

theorem Filled.updateState {newState} (h : Filled p)
    (hs : newState = .finalizeTransaction ∨ newState = .signing → p.entries ≠ []) :
    Filled (p.updateState E newState) := by
  by_cases hne : newState = .error ∨ newState = .success
  · rw [CSandstormPool.updateState,if_pos hne]
    exact h
  · refine h.congr (by simp) ?_
    rwa [updateState_state E p (not_or.mp hne)]

theorem Filled.check (h : Filled p) : Filled (p.check E) := by
  have hclosed : Filled (p.closeEntries E) := by
    unfold CSandstormPool.closeEntries
    split_ifs with hfull
    · refine h.updateState fun _ hnil => ?_
      rw [hnil] at hfull
      exact absurd hfull.2 (by simp [getMaxPoolTransactions])
    · exact h
  have htransmit : Filled ((p.closeEntries E).transmit E) := by
    unfold CSandstormPool.transmit CSandstormPool.checkFinalTransaction
    split_ifs
    · exact (Filled.setNull _).updateState (by simp)
    · exact hclosed.updateState (by simp)
    · exact Filled.setNull _
    · exact hclosed
  rw [check_eq]
  split_ifs with hstate
  · exact hclosed.updateState fun _ => hclosed.closed (.inl hstate)
  · unfold resetDone
    split_ifs
    · exact Filled.setNull _
    · exact htransmit

theorem Filled.processSsi {vin nAmount} (h : Filled p) :
    Filled (p.processSsi E vin nAmount txCollateral vout).2 := by
  unfold CSandstormPool.processSsi
  cases hcheck : p.checkEntry E vin vout with
  | error errorID => exact h
  | ok u =>
    have hne := (nodup_of_checkEntry hcheck).2.2
    have hadd : Filled (p.addEntry E vin nAmount txCollateral vout).2 := by
      unfold CSandstormPool.addEntry
      split
      · exact h.congr rfl h.closed
      · refine ⟨fun e he => ?_,fun _ => by simp⟩
        rcases mem_append.mp he with he | he
        · exact h.sev e he
        · rw [mem_singleton.mp he]
          simpa [entry] using hne
    dsimp only
    split_ifs
    · exact hadd.check
    · exact hadd

theorem sev_ne_nil_of_addSigEntries {entries entries'}
    (h : addSigEntries newVin entries = some entries')
    (hsev : ∀ e ∈ entries, e.sev ≠ []) : ∀ e ∈ entries', e.sev ≠ [] := by
  induction entries generalizing entries' with
  | nil => exact absurd h (by simp [addSigEntries])
  | cons e entries ih =>
    obtain ⟨hfirst,hrest⟩ := forall_mem_cons.mp hsev
    rw [addSigEntries] at h
    cases hsig : addSig newVin e.sev with
    | some sev =>
      rw [hsig] at h
      cases h
      obtain ⟨k,s,-,-,rfl⟩ := addSig_spec hsig
      exact forall_mem_cons.mpr ⟨by simpa using hfirst,hrest⟩
    | none =>
      rw [hsig] at h
      obtain ⟨l,hl,rfl⟩ := Option.map_eq_some_iff.mp h
      exact forall_mem_cons.mpr ⟨hfirst,ih hl hrest⟩

theorem Filled.addScriptSigs (h : Filled p) : Filled (addScriptSigs S E sigs p).2 := by
  induction sigs generalizing p with
  | nil => exact h
  | cons newVin sigs ih =>
    refine ih ?_
    by_cases hnew : ∀ s ∈ p.inputs, s.scriptSig ≠ newVin.scriptSig
    · rw [addScriptSig_of_new hnew]
      cases hsig : addSigEntries newVin p.entries with
      | none => exact h.congr rfl h.closed
      | some entries =>
        refine ⟨sev_ne_nil_of_addSigEntries hsig h.sev,fun hs hnil => h.closed hs ?_⟩
        rw [← length_eq_zero_iff,← (addSigEntries_spec hsig).2.1]
        exact length_eq_zero_iff.mpr hnil
    · rw [addScriptSig_of_held hnew]
      exact h

theorem Filled.checkTimeout (h : Filled p) : Filled (p.checkTimeout E) := by
  refine checkTimeout_rule Filled.setNull (fun hs => ?_) h
  unfold CSandstormPool.dropExpired
  dsimp only
  split_ifs
  · exact Filled.setNull p
  · refine ⟨fun e he => h.sev e (mem_of_mem_filter he),fun hclosed => ?_⟩
    rcases hs with hs | hs <;> simp [hs] at hclosed

theorem Filled.step (h : Filled p) (msg) : Filled (p.step S msg) := by
  cases msg <;> simp only [CSandstormPool.step] <;> split_ifs
  all_goals try exact h
  · rename_i E nDenom txCollateral _
    obtain ⟨he,-,⟨hs,-⟩ | ⟨hs,-⟩⟩ := processSsa_spec E nDenom txCollateral p
    · exact h.congr he (by rw [hs]; exact h.closed)
    · exact h.congr he (by simp [hs])
  · exact h.processSsi
  · unfold CSandstormPool.processSss
    dsimp only
    split_ifs
    · exact h.addScriptSigs.check
    · exact h.addScriptSigs
    · exact h
  · exact h.checkTimeout
  · unfold CSandstormPool.checkForCompleteQueue
    split_ifs
    · exact h.updateState (by simp)
    · exact h

theorem Filled.inputs_ne_nil (h : Filled p) (hs : p.state = .signing) : p.inputs ≠ [] := by
  obtain ⟨e,he⟩ := exists_mem_of_ne_nil _ (h.closed (.inr hs))
  obtain ⟨s,hs⟩ := exists_mem_of_ne_nil _ (h.sev e he)
  exact ne_nil_of_mem (mem_flatMap.mpr ⟨e,he,hs⟩)

/-- In every run of a pool whose messages are orderly the books of the session are right in
every state. They are wrong whenever a pool waits for signatures: it has entries, and the
exception has left it without a final transaction. -/
theorem sessionSound_of_orderly (S : ScriptEnv) (E : PoolEnv) (l : List PoolMessage) :
    (Runs.Always (step S) Orderly (.new E) l →
      ∀ l₁, l₁ <+: l → SessionSound (l₁.foldl (step S) (.new E))) ∧
    ((l.foldl (step S) (.new E)).state = .signing →
      ¬ SessionSound (l.foldl (step S) (.new E))) := by
  refine ⟨fun hl l₁ hpre => ?_,fun hstate hsound => ?_⟩
  · have hl₁ : Runs.Always (step S) Orderly (.new E) l₁ :=
      Runs.always_iff.mpr fun l₂ msg h => Runs.always_iff.mp hl l₂ msg (h.trans hpre)
    exact (hl₁.invariant (fun _ _ h hmsg => h.step hmsg) (SessionInv.setNull _)).sound
  · have hfilled : Filled (l.foldl (step S) (.new E)) :=
      foldlRecOn l (step S) (Filled.setNull _) fun _ h msg _ => h.step msg
    have hmerged := (hsound.final hstate).1
    rw [(unmerged_run S E l).1] at hmerged
    exact hfilled.inputs_ne_nil hstate (map_eq_nil_iff.mp hmerged.symm)

open Sample

theorem sessionSound_of_orderly_two :
    SessionSound ((session.take 6).foldl (step scriptEnv) (.new poolEnv)) :=
  (sessionSound_of_orderly scriptEnv poolEnv (session.take 6)).1 (by decide +kernel) _ prefix_rfl

namespace Sample

/-- The entry of another client, for an outpoint and under a sequence number. -/
def handInAgain (hash : UInt256) (nSequence : UInt32) : PoolMessage :=
  .ssi poolEnv [⟨⟨hash,0⟩,[],nSequence⟩] (COIN+1000) (poolCollateral hash) [⟨COIN+1000,p2pkh⟩]

def firstEntry : List PoolMessage := [join 4,join 5,join 6,.checkForCompleteQueue poolEnv,handIn 1]

end Sample

/-- An outpoint comes in again under another sequence number; an entry that comes twice
costs a user but no collateral; and with the third entry the pool waits for signatures of a
transaction without inputs. -/
theorem session_unsound : ((firstEntry++[handInAgain 1 0]).foldl (step scriptEnv)
      (.new poolEnv)).outpoints = [⟨1,0⟩,⟨1,0⟩] ∧
    (let p := (firstEntry++[handIn 1]).foldl (step scriptEnv) (.new poolEnv)
     p.sessionUsers = 2 ∧ p.vecSessionCollateral.length = 3) ∧
    let p := poolAfter []
    p.state = .signing ∧ p.finalTransaction.vin = [] ∧
      p.inputs.map (fun s => s.prevout) = [⟨1,0⟩,⟨2,0⟩,⟨3,0⟩] := by
  decide +kernel

end DarkSilk
