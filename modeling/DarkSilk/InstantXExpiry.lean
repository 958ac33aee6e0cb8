import DarkSilk.InstantXOrder

/-! When locks expire. A clean-up releases the inputs of the requests whose locks have
expired, whoever they are locked for. That is exact as long as every locked input belongs
to a request that has a lock, and no request expires before another one that has its inputs. -/
namespace DarkSilk

open List Option IxState

variable {E : IxEnv} {s t u : IxState} {P : Params}

variable {o : COutPoint} {h : UInt256}

def CTransactionLock.expired (E : IxEnv) (lock : CTransactionLock) : Bool :=
  E.nTime > lock.nExpiration

structure CleanedBy (E : IxEnv) (l : List (UInt256 × CTransactionLock)) (s t : IxState) : Prop where
  locked : ∀ o h, t.mapLockedInputs o = some h ↔ s.mapLockedInputs o = some h ∧
    ∀ e ∈ l, e.2.expired E = true → ∀ tx, s.mapTxLockReq[e.1]? = some tx → o ∉ tx.vin.map CTxIn.prevout
  locks : ∀ h lock, t.mapTxLocks[h]? = some lock ↔ s.mapTxLocks[h]? = some lock ∧
    ∀ e ∈ l, e.2.expired E = true → e.1 ≠ h
  requests : ∀ h tx, t.mapTxLockReq[h]? = some tx ↔ s.mapTxLockReq[h]? = some tx ∧
    ∀ e ∈ l, e.2.expired E = true → e.1 ≠ h

theorem CleanedBy.refl (E s) : CleanedBy E [] s s := by
  constructor <;> simp

theorem erase_eq_some {V : Type} {m : HashMap V} {k k' x} :
    (m.erase k)[k']? = some x ↔ m[k']? = some x ∧ k ≠ k' := by
  rw [getElem?_erase]
  split_ifs with hk <;> simp [hk]

variable {e : UInt256 × CTransactionLock} {l : List (UInt256 × CTransactionLock)}

theorem cleanedBy_cleanLock (E s) (he : e.2.txHash = e.1) :
    CleanedBy E [e] s (cleanLock E s e) := by
  unfold cleanLock
  by_cases htime : E.nTime > e.2.nExpiration
  swap
  · have hlive : e.2.expired E = false := decide_eq_false htime
    rw [if_neg htime]
    constructor <;> simp [hlive]
  have hexpired : e.2.expired E := decide_eq_true htime
  rw [if_pos htime,he]
  cases hreq : s.mapTxLockReq[e.1]? with
  | none =>
    constructor
    · simp [hexpired,hreq]
    · intro h lock
      simp [hexpired,erase_eq_some]
    · intro h tx
      simp only [mem_singleton,forall_eq,hexpired,true_implies]
      exact ⟨fun hx => ⟨hx,fun hk => by simp [← hk,hreq] at hx⟩,And.left⟩
  | some tx =>
    constructor
    · intro o h
      simp only [unlockInputs_apply,mem_singleton,forall_eq,hexpired,true_implies,hreq,some.injEq, forall_eq']
      split_ifs with ho <;> simp [ho]
    · intro h lock
      simp [hexpired,erase_eq_some]
    · intro h tx
      simp [hexpired,erase_eq_some]

theorem CleanedBy.cons
    (he : CleanedBy E [e] s u) (hl : CleanedBy E l u t) (hkeys : ∀ e' ∈ l, e.1 ≠ e'.1) :
    CleanedBy E (e::l) s t := by
  -- a request that is still to come is not touched by the first entry
  have hreq : ∀ e' ∈ l, ∀ tx, u.mapTxLockReq[e'.1]? = some tx ↔ s.mapTxLockReq[e'.1]? = some tx := by
    intro e' he' tx
    rw [he.requests]
    exact and_iff_left fun e'' he'' _ => (mem_singleton.mp he'') ▸ hkeys e' he'
  constructor
  · intro o h
    rw [hl.locked,he.locked,and_assoc]
    simp only [mem_cons,forall_eq_or_imp,not_mem_nil,false_implies,implies_true,and_true]
    apply and_congr_right
    intro _
    apply and_congr_right
    intro _
    exact forall₂_congr fun e' he' => forall₂_congr fun _ tx => by rw [hreq e' he' tx]
  · intro h lock
    rw [hl.locks,he.locks,and_assoc]
    simp only [mem_cons,forall_eq_or_imp,not_mem_nil,false_implies,implies_true,and_true]
  · intro h tx
    rw [hl.requests,he.requests,and_assoc]
    simp only [mem_cons,forall_eq_or_imp,not_mem_nil,false_implies,implies_true,and_true]

theorem cleanedBy_foldl (hdist : l.Pairwise fun a b => a.1 ≠ b.1)
    (hown : ∀ e ∈ l, e.2.txHash = e.1) : CleanedBy E l s (l.foldl (cleanLock E) s) := by
  induction l generalizing s with
  | nil => exact .refl E s
  | cons e l ih =>
    obtain ⟨hkeys,hdist⟩ := pairwise_cons.mp hdist
    have hl := ih (s := cleanLock E s e) hdist fun e' he' => hown e' (mem_cons_of_mem e he')
    exact (cleanedBy_cleanLock E s (hown e mem_cons_self)).cons hl hkeys

def IxState.OwnHash (s : IxState) : Prop :=
  ∀ h (lock : CTransactionLock), s.mapTxLocks[h]? = some lock → lock.txHash = h

theorem cleanedBy_clean (hown : s.OwnHash) :
    CleanedBy E s.mapTxLocks.toList s (cleanTransactionLocksList E s) := by
  apply cleanedBy_foldl
  · exact s.mapTxLocks.distinct_keys_toList.imp fun hab he => hab (by simp [he])
  · exact fun e he => hown e.1 e.2 (Std.ExtTreeMap.mem_toList_iff_getElem?_eq_some.mp he)

variable {tx : CTransaction} {v : CConsensusVote}

/-- Locks and requests stay, and new locks are kept under their own hash. -/
structure Widens (s t : IxState) : Prop where
  ownHash : s.OwnHash → t.OwnHash
  locks : ∀ h : UInt256, (s.mapTxLocks[h]?).isSome → (t.mapTxLocks[h]?).isSome
  requests : ∀ (h : UInt256) tx, s.mapTxLockReq[h]? = some tx → t.mapTxLockReq[h]? = some tx

theorem Widens.refl (s) : Widens s s := ⟨id,fun _ => id,fun _ _ => id⟩

theorem Widens.trans (h : Widens s t) (h' : Widens t u) : Widens s u :=
  ⟨h'.ownHash ∘ h.ownHash,fun k hk => h'.locks k (h.locks k hk),fun k tx hk => h'.requests k tx (h.requests k tx hk)⟩

variable {k hash : UInt256} {lock : CTransactionLock}

theorem widens_insert (hown : s.OwnHash → lock.txHash = k) :
    Widens s { s with mapTxLocks := s.mapTxLocks.insert k lock } := by
  refine ⟨fun hs h x hx => ?_,fun h hh => ?_,fun _ _ => id⟩
  · dsimp only at hx
    rw [getElem?_insert] at hx
    split_ifs at hx with hk
    · rw [← some.inj hx,← hk]
      exact hown hs
    · exact hs h x hx
  · dsimp only
    rw [getElem?_insert]
    split_ifs
    · rfl
    · exact hh

theorem widens_addRequest (h : ∀ tx', s.mapTxLockReq[k]? = some tx' → tx = tx') :
    Widens s (s.addRequest k tx) := by
  refine ⟨id,fun _ => id,fun k' tx' hk' => ?_⟩
  rw [addRequest,getElem?_insert]
  split_ifs with hk
  · exact congrArg some (h tx' (hk ▸ hk'))
  · exact hk'

theorem widens_createNewLock (P E tx s) : Widens s (createNewLock P E tx s) := by
  unfold createNewLock
  split
  · exact .refl s
  · refine widens_insert fun hs => ?_
    split
    · rfl
    · rename_i lock hlock
      exact hs _ lock hlock

theorem widens_expire (E hash s) : Widens s (s.expire E hash) := by
  unfold expire
  split
  · exact .refl s
  · rename_i lock hlock
    exact widens_insert fun hs => hs _ lock hlock

theorem widens_checkForConflictingLocks (P E tx s) :
    Widens s (checkForConflictingLocks P E tx s).2 := by
  unfold checkForConflictingLocks
  dsimp only
  split
  · exact .refl s
  · exact (widens_expire E _ s).trans (widens_expire E _ _)

theorem widens_addSignature (E v s) : Widens s (s.addSignature E v) := by
  refine widens_insert fun hs => ?_
  rw [CTransactionLock.addSignature,lockOf]
  cases hlock : s.mapTxLocks[v.txHash]? with
  | none => rfl
  | some lock => exact hs _ lock hlock

structure IxState.Owned (s : IxState) : Prop where
  ownHash : s.OwnHash
  lock : ∀ o h, s.mapLockedInputs o = some h → (s.mapTxLocks[h]?).isSome
  request : ∀ o h, s.mapLockedInputs o = some h → ∃ tx, s.mapTxLockReq[h]? = some tx ∧ o ∈ tx.vin.map CTxIn.prevout

theorem IxState.owned_empty : empty.Owned := by
  refine ⟨fun h lock hlock => ?_,?_,?_⟩
  · simp [empty] at hlock
  · simp [empty]
  · simp [empty]

theorem IxState.Owned.widens (hs : s.Owned) (h : Widens s t)
    (hnew : ∀ o k, t.mapLockedInputs o = some k →
    s.mapLockedInputs o = some k ∨ (t.mapTxLocks[k]?).isSome ∧
      ∃ tx, t.mapTxLockReq[k]? = some tx ∧ o ∈ tx.vin.map CTxIn.prevout) : t.Owned := by
  refine ⟨h.ownHash hs.ownHash,fun o k hk => ?_,fun o k hk => ?_⟩
  · rcases hnew o k hk with hold | hnew
    · exact h.locks k (hs.lock o k hold)
    · exact hnew.1
  · rcases hnew o k hk with hold | hnew
    · obtain ⟨tx,htx,ho⟩ := hs.request o k hold
      exact ⟨tx,h.requests k tx htx,ho⟩
    · exact hnew.2

/-- A refused request that locks an input has a complete lock, and no other transaction
has one of its inputs. -/
def TakenAfterAll (P : Params) (E : IxEnv) (tx : CTransaction) (s : IxState) : Prop :=
  (∃ i ∈ tx.vin, s.mapLockedInputs i.prevout = none) →
    (∃ lock ∈ (createNewLock P E tx s).mapTxLocks[tx.getHash P]?, INSTANTX_SIGNATURES_REQUIRED ≤ lock.countSignatures) ∧
      ∀ i ∈ tx.vin, ∀ h ∈ s.mapLockedInputs i.prevout, h = tx.getHash P

theorem lockInputs_free {vin m} (h : ∀ i ∈ vin, m i.prevout ≠ none) :
    lockInputs hash vin m = m := by
  funext o
  rw [lockInputs_apply]
  cases hm : m o with
  | some k => rfl
  | none =>
    rw [if_neg]
    · rfl
    · intro ho
      obtain ⟨i,hi,rfl⟩ := mem_map.mp ho
      exact h i hi hm

theorem widens_rejectIx (hreq : s.mapTxLockReq[tx.getHash P]? = none) :
    Widens s (rejectIx P E tx s) := by
  unfold rejectIx
  dsimp only
  have hfirst : Widens s ((s.addRejected (tx.getHash P) tx).lockFor (tx.getHash P) tx.vin) :=
    ⟨id,fun _ => id,fun _ _ => id⟩
  obtain ⟨m,hm,-,-⟩ := checkForConflictingLocks_spec P E tx
    ((s.addRejected (tx.getHash P) tx).lockFor (tx.getHash P) tx.vin)
  have hcheck := hfirst.trans (widens_checkForConflictingLocks P E tx _)
  split
  · exact hfirst
  · split_ifs
    · exact hcheck
    · refine hcheck.trans (widens_addRequest fun tx' htx' => ?_)
      rw [hm] at htx'
      cases htx'.symm.trans hreq
    · exact hfirst

theorem rejectIx_taken (hlock : s.mapTxLocks[tx.getHash P]? = some lock)
    (hcount : INSTANTX_SIGNATURES_REQUIRED ≤ lock.countSignatures)
    (hown : ∀ i ∈ tx.vin, ∀ h ∈ s.mapLockedInputs i.prevout, h = tx.getHash P) :
    (rejectIx P E tx s).mapTxLockReq[tx.getHash P]? = some tx := by
  have hfree : (tx.vin.findSome? fun i => (((s.addRejected (tx.getHash P) tx).lockFor (tx.getHash P)
      tx.vin).mapLockedInputs i.prevout).filter fun hash => decide (hash ≠ tx.getHash P)) = none := by
    rw [findSome?_eq_none_iff]
    intro i hi
    rw [filter_eq_none_iff]
    intro h hh
    rw [decide_eq_true_eq,not_not]
    rcases lockInputs_eq_some hh with hold | ⟨-,-,hnew⟩
    · exact hown i hi h hold
    · exact hnew.symm
  have hcheck : checkForConflictingLocks P E tx
      ((s.addRejected (tx.getHash P) tx).lockFor (tx.getHash P) tx.vin) =
      (false,(s.addRejected (tx.getHash P) tx).lockFor (tx.getHash P) tx.vin) := by
    unfold checkForConflictingLocks
    rw [hfree]
  unfold rejectIx
  dsimp only
  rw [show ((s.addRejected (tx.getHash P) tx).lockFor (tx.getHash P) tx.vin).mapTxLocks[tx.getHash
    P]? = some lock from hlock]
  dsimp only
  rw [if_pos hcount,hcheck,if_neg Bool.false_ne_true,addRequest,getElem?_insert,if_pos rfl]

theorem IxState.Owned.rejectIx (hs : s.Owned) (hreq : s.mapTxLockReq[tx.getHash P]? = none)
    (h : (∃ i ∈ tx.vin, s.mapLockedInputs i.prevout = none) →
      (∃ lock ∈ s.mapTxLocks[tx.getHash P]?, INSTANTX_SIGNATURES_REQUIRED ≤ lock.countSignatures) ∧
        ∀ i ∈ tx.vin, ∀ h ∈ s.mapLockedInputs i.prevout,
          h = tx.getHash P) : (rejectIx P E tx s).Owned := by
  have hlocked := (rejectIx_spec P E tx s).2
  have hwidens := widens_rejectIx (E := E) hreq
  apply hs.widens hwidens
  intro o k hk
  rw [hlocked] at hk
  by_cases hfree : ∃ i ∈ tx.vin, s.mapLockedInputs i.prevout = none
  · obtain ⟨⟨lock,hlock,hcount⟩,hown⟩ := h hfree
    rcases lockInputs_eq_some hk with hold | ⟨-,ho,rfl⟩
    · exact .inl hold
    · exact .inr ⟨hwidens.locks _ (by rw [mem_def.mp hlock]; rfl),tx,rejectIx_taken hlock hcount hown,ho⟩
  · push Not at hfree
    rw [lockInputs_free hfree] at hk
    exact .inl hk

theorem mapTxLockReq_of_admissible (h : ixAdmissible P E tx s) :
    s.mapTxLockReq[tx.getHash P]? = none := by
  simp only [ixAdmissible,Bool.and_eq_true,Bool.not_eq_true',Bool.or_eq_false_iff] at h
  rw [← not_isSome_iff_eq_none,← Std.ExtTreeMap.contains_eq_isSome_getElem?]
  simp [h.1.1.2.1]

theorem IxState.Owned.processIx (hs : s.Owned) (h : ixRejected P E tx s → TakenAfterAll P E tx s) :
    (processIx P E tx s).2.Owned := by
  cases hadm : ixAdmissible P E tx s with
  | false =>
    rw [processIx_skip hadm]
    exact hs
  | true =>
    obtain ⟨m,hm,-⟩ := keeps_createNewLock P E tx s
    have hnew := widens_createNewLock P E tx s
    have hreq : (createNewLock P E tx s).mapTxLockReq[tx.getHash P]? = none := by
      rw [hm]
      exact mapTxLockReq_of_admissible hadm
    have hlocked : (createNewLock P E tx s).mapLockedInputs = s.mapLockedInputs := by rw [hm]
    cases hacc : E.acceptToMemoryPool P s.mapLockedInputs tx with
    | true =>
      obtain ⟨m',hm',-⟩ := doConsensusVote_spec P E tx (lockHeight E tx) (createNewLock P E tx s)
      rw [processIx_accepted hadm hacc,hm']
      have hseen : Widens (createNewLock P E tx s) ((createNewLock P E tx s).withSeen m') :=
        ⟨id,fun _ => id,fun _ _ => id⟩
      refine hs.widens (hnew.trans (hseen.trans (widens_addRequest fun tx' htx' => ?_))) fun o k hk => .inl ?_
      · cases htx'.symm.trans hreq
      · exact hlocked ▸ hk
    | false =>
      have hrej : ixRejected P E tx s := by simp [ixRejected,hadm,hacc]
      rw [processIx_rejected hrej]
      have hcreated : (createNewLock P E tx s).Owned := hs.widens hnew fun o k hk => .inl (hlocked ▸ hk)
      apply hcreated.rejectIx hreq
      rw [hlocked]
      exact h hrej

theorem IxState.Owned.completeLock (hs : s.Owned) (hlock : (s.mapTxLocks[hash]?).isSome) :
    (completeLock P E hash s).Owned := by
  have hreq : Widens s (s.addRequest hash ((s.mapTxLockReq[hash]?).getD E.nullTx)) :=
    widens_addRequest fun tx' htx' => by rw [htx']; rfl
  obtain ⟨m,hm,-,hsame⟩ := checkForConflictingLocks_spec P E ((s.mapTxLockReq[hash]?).getD E.nullTx)
    (s.addRequest hash ((s.mapTxLockReq[hash]?).getD E.nullTx))
  unfold DarkSilk.completeLock
  dsimp only
  split_ifs with hc
  · refine hs.widens (hreq.trans (widens_checkForConflictingLocks P E _ _)) fun o k hk => .inl ?_
    rw [hm] at hk
    exact hk
  · rw [hsame (Bool.eq_false_of_not_eq_true hc)]
    refine hs.widens (hreq.trans ⟨id,fun _ => id,fun _ _ => id⟩) fun o k hk => ?_
    rcases lockInputs_eq_some hk with hold | ⟨-,ho,rfl⟩
    · exact .inl hold
    · refine .inr ⟨hlock,_,?_,ho⟩
      rw [lockFor,addRequest,getElem?_insert,if_pos rfl]

theorem IxState.Owned.processTxlvote (hs : s.Owned) : (processTxlvote P E v s).2.Owned := by
  have hsee : (s.see v).Owned := hs.widens ⟨id,fun _ => id,fun _ _ => id⟩ fun _ _ => .inl
  by_cases hskip : E.fEnabled = false ∨ s.mapTxLockVote.contains v.getHash
  · rw [processTxlvote_skip hskip]
    exact hs
  · simp only [not_or,Bool.not_eq_false,Bool.not_eq_true] at hskip
    cases hvalid : E.voteValid v with
    | false =>
      rw [processTxlvote_invalid hskip.1 hskip.2 hvalid]
      exact hsee
    | true =>
      obtain ⟨m,hm⟩ := countUnknownVote_spec E v (collectVote P E v (s.see v))
      rw [processTxlvote_valid hskip.1 hskip.2 hvalid,hm]
      have hsigned : ((s.see v).addSignature E v).Owned :=
        hsee.widens (widens_addSignature E v (s.see v)) fun _ _ => .inl
      have hcollected : (collectVote P E v (s.see v)).Owned := by
        unfold collectVote
        dsimp only
        split_ifs
        · apply hsigned.completeLock
          rw [addSignature,getElem?_insert,if_pos rfl]
          rfl
        · exact hsigned
      exact hcollected.widens ⟨id,fun _ => id,fun _ _ => id⟩ fun _ _ => .inl

open Runs

/-- The clean-up keeps a locked input exactly if it is locked for a transaction whose lock is
not expired. -/
def CleanExact (E : IxEnv) (s : IxState) : Prop :=
  ∀ o h, (cleanTransactionLocksList E s).mapLockedInputs o = some h ↔ s.mapLockedInputs o = some h ∧
    ∃ lock, s.mapTxLocks[h]? = some lock ∧ lock.expired E = false

/-- An expired request shares its inputs only with expired ones. -/
def ExpireTogether (E : IxEnv) (s : IxState) : Prop :=
  ∀ e ∈ s.mapTxLocks.toList, e.2.expired E = true → ∀ tx ∈ s.mapTxLockReq[e.1]?, ∀ i ∈ tx.vin,
    ∀ h ∈ s.mapLockedInputs i.prevout, ∀ lock ∈ s.mapTxLocks[h]?, lock.expired E = true

theorem live_of_not_expired (hlock : s.mapTxLocks[h]? = some lock)
    (hlive : lock.expired E = false) : ∀ e ∈ s.mapTxLocks.toList, e.2.expired E → e.1 ≠ h := by
  rintro e he hexpired rfl
  have hsame := (Std.ExtTreeMap.mem_toList_iff_getElem?_eq_some.mp he).symm.trans hlock
  rw [some.inj hsame,hlive] at hexpired
  exact Bool.false_ne_true hexpired

theorem IxState.Owned.live_of_locked (hs : s.Owned)
    (ho : (cleanTransactionLocksList E s).mapLockedInputs o = some h) :
    s.mapLockedInputs o = some h ∧ ∃ lock, s.mapTxLocks[h]? = some lock ∧
      lock.expired E = false := by
  obtain ⟨hold,hkept⟩ := ((cleanedBy_clean hs.ownHash).locked o h).mp ho
  obtain ⟨lock,hlock⟩ := isSome_iff_exists.mp (hs.lock o h hold)
  obtain ⟨tx,htx,hmem⟩ := hs.request o h hold
  refine ⟨hold,lock,hlock,?_⟩
  cases hexpired : lock.expired E with
  | false => rfl
  | true =>
    have hentry : (h,lock) ∈ s.mapTxLocks.toList := Std.ExtTreeMap.mem_toList_iff_getElem?_eq_some.mpr hlock
    exact absurd hmem (hkept (h,lock) hentry hexpired tx htx)

theorem IxState.Owned.clean (hs : s.Owned) : (cleanTransactionLocksList E s).Owned := by
  have hclean := cleanedBy_clean (E := E) hs.ownHash
  refine ⟨fun h lock hlock => hs.ownHash h lock ((hclean.locks h lock).mp hlock).1,fun o h ho => ?_,
    fun o h ho => ?_⟩
  · obtain ⟨-,lock,hlock,hlive⟩ := hs.live_of_locked ho
    rw [(hclean.locks h lock).mpr ⟨hlock,live_of_not_expired hlock hlive⟩]
    rfl
  · obtain ⟨hold,lock,hlock,hlive⟩ := hs.live_of_locked ho
    obtain ⟨tx,htx,hmem⟩ := hs.request o h hold
    exact ⟨tx,(hclean.requests h tx).mpr ⟨htx,live_of_not_expired hlock hlive⟩,hmem⟩

theorem IxState.Owned.cleanExact_iff (hs : s.Owned) : CleanExact E s ↔ ExpireTogether E s := by
  have hclean := cleanedBy_clean (E := E) hs.ownHash
  constructor
  · intro hexact e he hexpired tx htx i hi h hh lock hlock
    cases hlive : lock.expired E with
    | true => rfl
    | false =>
      have hkept := ((hclean.locked i.prevout h).mp ((hexact i.prevout h).mpr ⟨hh,lock,hlock,hlive⟩)).2
      exact absurd (mem_map_of_mem hi) (hkept e he hexpired tx htx)
  · intro htogether o h
    refine ⟨hs.live_of_locked,?_⟩
    rintro ⟨hold,lock,hlock,hlive⟩
    refine (hclean.locked o h).mpr ⟨hold,fun e he hexpired tx htx ho => ?_⟩
    obtain ⟨i,hi,rfl⟩ := mem_map.mp ho
    have hdead := htogether e he hexpired tx htx i hi h hold lock hlock
    rw [hlive] at hdead
    exact Bool.false_ne_true hdead

/-- A refused request is taken after all if it locks an input. -/
def RefusedTaken (P : Params) (s : IxState) : IxMessage → Prop
  | .ix E tx => ixRejected P E tx s = true → TakenAfterAll P E tx s
  | .txlvote _ _ => True
  | .clean _ => True

theorem IxState.Owned.step (hs : s.Owned) {m} (h : RefusedTaken P s m) : (s.step P m).Owned := by
  cases m with
  | ix E tx => exact hs.processIx h
  | txlvote E v => exact hs.processTxlvote
  | clean E => exact hs.clean

/-- In a run whose refused requests lock nothing, or are taken after all, the clean-ups are
exact if and only if no request expires before another one that has locked its inputs. -/
theorem cleanUps_exact_iff (P : Params) (l : List IxMessage)
    (h : Always (step P) (RefusedTaken P) .empty l) :
    (∀ l₁ E, l₁++[.clean E] <+: l → CleanExact E (ixRun P l₁)) ↔
      ∀ l₁ E, l₁++[.clean E] <+: l → ExpireTogether E (ixRun P l₁) := by
  refine forall₃_congr fun l₁ E hpre => ?_
  have hrun : (ixRun P l₁).Owned := by
    refine Always.invariant (fun s m hs hm => IxState.Owned.step hs hm) owned_empty ?_
    exact always_iff.mpr fun l₂ m h₂ => always_iff.mp h l₂ m (h₂.trans ((prefix_append _ _).trans hpre))
  exact hrun.cleanExact_iff

namespace Sample

def ixLater (nTime : ℤ) : IxEnv :=
  IxEnv.on { ixVoters with
    nTime := nTime
    pool := (MemPoolMaps.empty.acceptToMemoryPool params ixNet.call lockedPay).2.toOption.getD .empty }
    params fundFiles fundNode

def rivalPay : CTransaction := payment 150 [⟨fund.getHash params,0⟩] [⟨8*COIN,[0x6a]⟩]

def lockedRun : List IxMessage := .ix ixNet lockedPay::ixVotes [1,2,3,4,5,6,7,8,9,10]

def rivalRun : List IxMessage :=
  [.ix ixNet lockedPay,.txlvote ixNet (vote 1 (lockedPay.getHash params) 0 [1]),
    .ix (ixLater 2000) rivalPay,.txlvote (ixLater 2000) (vote 1 (rivalPay.getHash params) 0 [1])]

instance (P : Params) (E : IxEnv) (tx : CTransaction) (s : IxState) :
    Decidable (TakenAfterAll P E tx s) :=
  inferInstanceAs (Decidable (_ → _))

instance (P : Params) (s : IxState) : ∀ m, Decidable (RefusedTaken P s m)
  | .ix _ _ => inferInstanceAs (Decidable (_ → _))
  | .txlvote _ _ => inferInstanceAs (Decidable True)
  | .clean _ => inferInstanceAs (Decidable True)

instance (E : IxEnv) (s : IxState) : Decidable (ExpireTogether E s) :=
  inferInstanceAs (Decidable (∀ _ ∈ _, _))

end Sample

open Sample

theorem cleanUps_exact_iff_locked : CleanExact (ixLater 2000) (ixRun params lockedRun) := by
  refine (cleanUps_exact_iff params (lockedRun++[.clean (ixLater 2000)]) (by decide +kernel)).mpr
    (fun l₁ E hpre => ?_) _ _ prefix_rfl
  -- the clean-up is the last message of the run
  rcases prefix_concat_iff.mp hpre with heq | hpre
  · obtain ⟨rfl,hE⟩ := append_inj' heq rfl
    obtain rfl := IxMessage.clean.inj (singleton_inj.mp hE)
    decide +kernel
  · have hmem : IxMessage.clean E ∈ lockedRun := hpre.subset (by simp)
    simp [lockedRun,ixVotes] at hmem

/-- The input of a request without a lock stays locked; and an expired request releases an
input that is locked for a request whose lock is not expired. -/
theorem cleanUps_inexact :
    ((ixRun params [.ix ixEnv unknownSpend,.clean ixEnv]).mapLockedInputs ⟨7,0⟩ =
        some (unknownSpend.getHash params) ∧
      (ixRun params [.ix ixEnv unknownSpend]).mapTxLocks[unknownSpend.getHash params]? = none) ∧
    (ixRun params rivalRun).mapLockedInputs ⟨fund.getHash params,0⟩ = some
    (rivalPay.getHash params) ∧
    ((ixRun params rivalRun).mapTxLocks[rivalPay.getHash params]?).map
      (CTransactionLock.expired (ixLater 4700)) = some false ∧
    (ixRun params (rivalRun++[.clean (ixLater 4700)])).mapLockedInputs
      ⟨fund.getHash params,0⟩ = none := by decide +kernel

end DarkSilk
